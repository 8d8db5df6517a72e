import AbstractHttp.WebSocket.Chunking

/-!
# What the parser's behaviour depends on

Two parsers agree when they differ only in bytes that are no longer in use and,
between messages, in a payload offset or a reassembly capacity that no decision
depends on. Agreeing parsers stay in agreement and make the same callbacks.
-/
namespace AbstractHttp.WebSocket
open Library Outcome

/-- Capacity for a fragment: the one there is, or the doubled one if the limit allows it. -/
def wsFragmentCapacity (cfg : WsConfig) (cap need : ℕ) : Option ℕ :=
  if need ≤ cap then some cap
  else if wsDoubledCapacity cap need > cfg.maxFrameSize then none
  else some (wsDoubledCapacity cap need)

/-- A data frame that starts a message while another one is being reassembled. -/
def WsParserCtx.Interloper (ctx : WsParserCtx) : Prop :=
  ctx.currentFrame.opcode ≠ WsOpcode.continuation.value ∧ ctx.reassemblyOffset > 0

instance (ctx : WsParserCtx) : Decidable ctx.Interloper := by
  unfold WsParserCtx.Interloper
  infer_instance

theorem wsStoreFragment_eq (cfg : WsConfig) (ctx : WsParserCtx) :
    wsStoreFragment cfg grantAll ctx =
      if ctx.Interloper then wsFail ctx ErrorCode.wsFraming.value .wsFraming
      else match wsFragmentCapacity cfg ctx.reassemblyCapacity
          (ctx.reassemblyOffset + ctx.currentFrame.payloadLen) with
        | none => wsFail ctx ErrorCode.msgSize.value .msgSize
        | some cap => done (wsAppendPayload { ctx with reassemblyCapacity := cap }) := by
  unfold wsStoreFragment
  by_cases hinter : ctx.Interloper
  · rw [if_pos hinter]
    exact if_pos hinter
  · rw [if_neg hinter]
    refine (if_neg hinter).trans ?_
    unfold wsFragmentCapacity
    by_cases hneed : ctx.reassemblyOffset + ctx.currentFrame.payloadLen ≤ ctx.reassemblyCapacity
    · rw [if_neg (by omega), if_pos hneed]
    · rw [if_pos (by omega), if_neg hneed]
      by_cases hlimit : wsDoubledCapacity ctx.reassemblyCapacity
          (ctx.reassemblyOffset + ctx.currentFrame.payloadLen) > cfg.maxFrameSize
      · rw [if_pos hlimit, if_pos hlimit]
      · rw [if_neg hlimit, if_neg hlimit]
        exact if_pos rfl

/-- The parser once a fragmented message has been delivered. -/
def wsEmptyReassembly (ctx : WsParserCtx) : WsParserCtx :=
  let need := ctx.reassemblyOffset + ctx.currentFrame.payloadLen
  let ctx := wsAppendPayload { ctx with reassemblyCapacity := max ctx.reassemblyCapacity need }
  { ctx with reassemblyOffset := 0 }

theorem wsFinalFrame_eq (ctx : WsParserCtx) :
    wsFinalFrame grantAll ctx =
      ⟨if ctx.reassemblyOffset > 0 then wsEmptyReassembly ctx else ctx,
        [.onMessage ⟨ctx.currentFrame.opcode, ctx.reassemblyBuffer.read 0 ctx.reassemblyOffset ++
          ctx.payloadBuffer.read 0 ctx.currentFrame.payloadLen, true⟩], none⟩ := by
  unfold wsFinalFrame
  by_cases hoff : ctx.reassemblyOffset > 0
  · have hread : (ctx.reassemblyBuffer.write ctx.reassemblyOffset
        (ctx.payloadBuffer.read 0 ctx.currentFrame.payloadLen)).read 0
        (ctx.reassemblyOffset + ctx.currentFrame.payloadLen) =
        ctx.reassemblyBuffer.read 0 ctx.reassemblyOffset ++
          ctx.payloadBuffer.read 0 ctx.currentFrame.payloadLen := by
      have h := Memory.read_write_extend ctx.reassemblyBuffer ctx.reassemblyOffset
        (ctx.payloadBuffer.read 0 ctx.currentFrame.payloadLen)
      rwa [Memory.read_length] at h
    rw [if_pos hoff, if_pos hoff, if_neg (by simp [grantAll]), ← hread]
    rfl
  · have hzero : ctx.reassemblyOffset = 0 := by omega
    rw [if_neg hoff, if_neg hoff, hzero, Memory.read_zero, List.nil_append]

theorem wsReadPayload_grant (cfg : WsConfig) (ctx : WsParserCtx) (chunk : List UInt8) :
    wsReadPayload cfg grantAll ctx chunk =
      if (wsCopyPayload (wsGrowPayload ctx) chunk).payloadOffset = ctx.currentFrame.payloadLen then
        wsFrameComplete cfg grantAll (wsCopyPayload (wsGrowPayload ctx) chunk)
      else done (wsCopyPayload (wsGrowPayload ctx) chunk) := by
  rw [wsReadPayload, if_neg (by simp [grantAll])]
  rfl

/-- Capacities that no later growth tells apart: nothing is buffered, and each is either absent
or the first one that a growth would give. -/
def SameGrowth (cfg : WsConfig) (offset cap cap' : ℕ) : Prop :=
  cap = cap' ∨ (offset = 0 ∧ 4096 ≤ cfg.maxFrameSize ∧ cap ∈ [0, 4096] ∧ cap' ∈ [0, 4096])

/-- The first growth of a message gives both the same capacity, or refuses both. -/
theorem sameGrowth_fragment {cfg : WsConfig} {offset cap cap' : ℕ}
    (h : SameGrowth cfg offset cap cap') (len : ℕ) :
    (wsFragmentCapacity cfg cap (offset + len) = none ∧
      wsFragmentCapacity cfg cap' (offset + len) = none) ∨
    ∃ c c', wsFragmentCapacity cfg cap (offset + len) = some c ∧
      wsFragmentCapacity cfg cap' (offset + len) = some c' ∧ SameGrowth cfg (offset + len) c c' := by
  rcases h with rfl | ⟨rfl, hmax, hcap, hcap'⟩
  · cases wsFragmentCapacity cfg cap (offset + len) with
    | none => exact Or.inl ⟨rfl, rfl⟩
    | some c => exact Or.inr ⟨c, c, rfl, rfl, Or.inl rfl⟩
  · have key : ∀ c ∈ [0, 4096], wsFragmentCapacity cfg c (0 + len) =
        if len = 0 then some c else if doubleUntil 4096 len > cfg.maxFrameSize then none
          else some (doubleUntil 4096 len) := by
      intro c hc
      rcases Nat.eq_zero_or_pos len with rfl | hlen
      · simp [wsFragmentCapacity]
      · simp only [List.mem_cons, List.not_mem_nil, or_false] at hc
        rcases hc with rfl | rfl
        · rw [wsFragmentCapacity, if_neg (by omega), wsDoubledCapacity_zero, Nat.zero_add,
            if_neg (by omega : ¬ len = 0)]
        · rw [if_neg (by omega : ¬ len = 0), wsFragmentCapacity, Nat.zero_add]
          by_cases hsmall : len ≤ 4096
          · rw [if_pos hsmall, doubleUntil_of_le hsmall, if_neg (by omega)]
          · rw [if_neg hsmall, wsDoubledCapacity_pos (by omega),
              doubleUntil_of_lt (by omega) (by omega : 4096 < len)]
    rw [key cap hcap, key cap' hcap']
    split
    · rename_i hlen
      exact Or.inr ⟨cap, cap', rfl, rfl, Or.inr ⟨by omega, hmax, hcap, hcap'⟩⟩
    · split
      · exact Or.inl ⟨rfl, rfl⟩
      · exact Or.inr ⟨_, _, rfl, rfl, Or.inl rfl⟩

/-- Agreement on everything in use. With `exact` the payload of the last frame and the reassembly
capacity count as in use at all times. -/
structure Agree (cfg : WsConfig) (exact : Bool) (x y : WsParserCtx) : Prop where
  state : x.state = y.state
  frame : x.currentFrame = y.currentFrame
  payloadOffset : exact = true ∨ x.state = .readPayload → x.payloadOffset = y.payloadOffset
  payload : exact = true ∨ x.state = .readPayload →
    x.payloadBuffer.read 0 x.payloadOffset = y.payloadBuffer.read 0 x.payloadOffset
  extLenOffset : x.extLenOffset = y.extLenOffset
  extLen : x.extLenBuffer.read 0 x.extLenOffset = y.extLenBuffer.read 0 x.extLenOffset
  maskOffset : x.maskOffset = y.maskOffset
  reassemblyOffset : x.reassemblyOffset = y.reassemblyOffset
  reassembly : x.reassemblyBuffer.read 0 x.reassemblyOffset =
    y.reassemblyBuffer.read 0 x.reassemblyOffset
  capacity : SameGrowth cfg x.reassemblyOffset x.reassemblyCapacity y.reassemblyCapacity
  exactCapacity : exact = true → x.reassemblyCapacity = y.reassemblyCapacity

variable {cfg : WsConfig} {exact : Bool} {x y : WsParserCtx}

theorem agree_wsFail (code : ℤ) (e : ErrorCode) :
    Related (Agree cfg exact) (wsFail x code e) (wsFail y code e) := related_fail _ _ _ _ _

theorem agree_wsReadOpcode (h : Agree cfg exact x y) (b : UInt8) :
    Related (Agree cfg exact) (wsReadOpcode x b) (wsReadOpcode y b) := by
  simp only [wsReadOpcode]
  split
  · exact agree_wsFail _ _
  · split
    · exact agree_wsFail _ _
    · refine related_done ⟨rfl, by simp only [h.frame], fun hp => ?_, fun hp => ?_,
        h.extLenOffset, h.extLen, h.maskOffset, h.reassemblyOffset, h.reassembly, h.capacity,
        h.exactCapacity⟩
      · exact h.payloadOffset (Or.inl (hp.resolve_right (by simp)))
      · exact h.payload (Or.inl (hp.resolve_right (by simp)))

theorem agree_wsLengthKnown (h : Agree cfg exact x y) (len : ℕ) :
    Agree cfg exact (wsLengthKnown x len) (wsLengthKnown y len) where
  state := by simp only [wsLengthKnown, h.frame]
  frame := by simp only [wsLengthKnown, h.frame]
  payloadOffset _ := rfl
  payload _ := rfl
  extLenOffset := h.extLenOffset
  extLen := h.extLen
  maskOffset := h.maskOffset
  reassemblyOffset := h.reassemblyOffset
  reassembly := h.reassembly
  capacity := h.capacity
  exactCapacity := h.exactCapacity

theorem agree_wsReadLen (h : Agree cfg exact x y) (b : UInt8) :
    Related (Agree cfg exact) (wsReadLen x b) (wsReadLen y b) := by
  have hmask : Agree cfg exact
      { x with currentFrame := { x.currentFrame with mask := (b >>> 7) &&& 1 == 1 } }
      { y with currentFrame := { y.currentFrame with mask := (b >>> 7) &&& 1 == 1 } } :=
    ⟨h.state, by simp only [h.frame], h.payloadOffset, h.payload, h.extLenOffset, h.extLen,
      h.maskOffset, h.reassemblyOffset, h.reassembly, h.capacity, h.exactCapacity⟩
  have hext (s : WsParserState) (hs : s ≠ .readPayload) (hx hy) : Agree cfg exact
      { x with
        currentFrame := { x.currentFrame with mask := (b >>> 7) &&& 1 == 1 }
        state := s, extLenOffset := 0, payload_le := hx }
      { y with
        currentFrame := { y.currentFrame with mask := (b >>> 7) &&& 1 == 1 }
        state := s, extLenOffset := 0, payload_le := hy } :=
    ⟨rfl, by simp only [h.frame], fun hp => h.payloadOffset (Or.inl (hp.resolve_right hs)),
      fun hp => h.payload (Or.inl (hp.resolve_right hs)), rfl, rfl, h.maskOffset,
      h.reassemblyOffset, h.reassembly, h.capacity, h.exactCapacity⟩
  simp only [wsReadLen]
  split
  · exact related_done (hext .readExtLen16 (by simp) _ _)
  · split
    · exact related_done (hext .readExtLen64 (by simp) _ _)
    · exact related_done (agree_wsLengthKnown hmask _)

theorem agree_wsStoreExtLen (h : Agree cfg exact x y) (b : UInt8) :
    Agree cfg exact (wsStoreExtLen x b) (wsStoreExtLen y b) where
  state := h.state
  frame := h.frame
  payloadOffset := h.payloadOffset
  payload := h.payload
  extLenOffset := by simp only [wsStoreExtLen, h.extLenOffset]
  extLen := by
    have hx := Memory.read_write_extend x.extLenBuffer x.extLenOffset [b]
    have hy := Memory.read_write_extend y.extLenBuffer x.extLenOffset [b]
    simp only [wsStoreExtLen, ← h.extLenOffset]
    exact hx.trans (h.extLen ▸ hy.symm)
  maskOffset := h.maskOffset
  reassemblyOffset := h.reassemblyOffset
  reassembly := h.reassembly
  capacity := h.capacity
  exactCapacity := h.exactCapacity

theorem agree_wsReadExtLen16 (h : Agree cfg exact x y) (b : UInt8) :
    Related (Agree cfg exact) (wsReadExtLen16 x b) (wsReadExtLen16 y b) := by
  have hstore := agree_wsStoreExtLen h b
  unfold wsReadExtLen16
  by_cases htwo : (wsStoreExtLen x b).extLenOffset = 2
  · have hlen : mathWsNtohs (wsStoreExtLen x b).extLenBuffer =
        mathWsNtohs (wsStoreExtLen y b).extLenBuffer := by
      rw [mathWsNtohs_eq, mathWsNtohs_eq, ← htwo, hstore.extLen]
    rw [if_pos htwo, if_pos (hstore.extLenOffset ▸ htwo), hlen]
    exact related_done (agree_wsLengthKnown hstore _)
  · rw [if_neg htwo, if_neg (hstore.extLenOffset ▸ htwo)]
    exact related_done hstore

theorem wsReadExtLen64_last {ctx : WsParserCtx} {b : UInt8}
    (h : (wsStoreExtLen ctx b).extLenOffset = 8) :
    wsReadExtLen64 cfg ctx b =
      if mathWsNtohll (wsStoreExtLen ctx b).extLenBuffer > cfg.maxFrameSize then
        wsFail (wsLengthKnown (wsStoreExtLen ctx b)
          (mathWsNtohll (wsStoreExtLen ctx b).extLenBuffer)) ErrorCode.msgSize.value .msgSize
      else done (wsLengthKnown (wsStoreExtLen ctx b)
        (mathWsNtohll (wsStoreExtLen ctx b).extLenBuffer)) := by
  rw [wsReadExtLen64]
  exact if_pos h

theorem agree_wsReadExtLen64 (h : Agree cfg exact x y) (b : UInt8) :
    Related (Agree cfg exact) (wsReadExtLen64 cfg x b) (wsReadExtLen64 cfg y b) := by
  have hstore := agree_wsStoreExtLen h b
  by_cases height : (wsStoreExtLen x b).extLenOffset = 8
  · have hlen : mathWsNtohll (wsStoreExtLen x b).extLenBuffer =
        mathWsNtohll (wsStoreExtLen y b).extLenBuffer := by
      rw [mathWsNtohll_eq, mathWsNtohll_eq, ← height, hstore.extLen]
    rw [wsReadExtLen64_last height, wsReadExtLen64_last (hstore.extLenOffset ▸ height), hlen]
    split
    · exact agree_wsFail _ _
    · exact related_done (agree_wsLengthKnown hstore _)
  · rw [wsReadExtLen64, wsReadExtLen64]
    simp only [if_neg height, if_neg (hstore.extLenOffset ▸ height : ¬ _ = 8)]
    exact related_done hstore

theorem agree_wsReadMask (h : Agree cfg exact x y) (b : UInt8) :
    Related (Agree cfg exact) (wsReadMask x b) (wsReadMask y b) := by
  have hkey : { x.currentFrame with
        maskingKey := x.currentFrame.maskingKey.write x.maskOffset [b] } =
      { y.currentFrame with
        maskingKey := y.currentFrame.maskingKey.write y.maskOffset [b] } := by
    rw [h.frame, h.maskOffset]
  unfold wsReadMask
  by_cases hfour : x.maskOffset + 1 = 4
  · rw [if_pos hfour, if_pos (h.maskOffset ▸ hfour)]
    exact related_done ⟨rfl, hkey, fun _ => rfl, fun _ => rfl,
      h.extLenOffset, h.extLen, by simp only [h.maskOffset], h.reassemblyOffset, h.reassembly,
      h.capacity, h.exactCapacity⟩
  · rw [if_neg hfour, if_neg (h.maskOffset ▸ hfour)]
    exact related_done ⟨h.state, hkey, h.payloadOffset, h.payload,
      h.extLenOffset, h.extLen, by simp only [h.maskOffset], h.reassemblyOffset, h.reassembly,
      h.capacity, h.exactCapacity⟩

/-- The payload of a complete frame is in use. -/
theorem Agree.completePayload (h : Agree cfg exact x y) (hs : x.state = .readPayload)
    (hfull : x.payloadOffset = x.currentFrame.payloadLen) :
    x.payloadBuffer.read 0 x.currentFrame.payloadLen =
      y.payloadBuffer.read 0 y.currentFrame.payloadLen := by
  rw [← h.frame, ← hfull]
  exact h.payload (Or.inr hs)

theorem agree_wsAppendPayload (h : Agree cfg exact x y) (hs : x.state = .readPayload)
    (hfull : x.payloadOffset = x.currentFrame.payloadLen) {cap cap' : ℕ}
    (hcap : SameGrowth cfg (x.reassemblyOffset + x.currentFrame.payloadLen) cap cap')
    (hexact : exact = true → cap = cap') :
    Agree cfg exact (wsAppendPayload { x with reassemblyCapacity := cap })
      (wsAppendPayload { y with reassemblyCapacity := cap' }) where
  state := h.state
  frame := h.frame
  payloadOffset := h.payloadOffset
  payload := h.payload
  extLenOffset := h.extLenOffset
  extLen := h.extLen
  maskOffset := h.maskOffset
  reassemblyOffset := by simp only [wsAppendPayload, h.reassemblyOffset, h.frame]
  reassembly := by
    have hx := Memory.read_write_extend x.reassemblyBuffer x.reassemblyOffset
      (x.payloadBuffer.read 0 x.currentFrame.payloadLen)
    have hy := Memory.read_write_extend y.reassemblyBuffer x.reassemblyOffset
      (x.payloadBuffer.read 0 x.currentFrame.payloadLen)
    rw [Memory.read_length] at hx hy
    simp only [wsAppendPayload, ← h.completePayload hs hfull, ← h.reassemblyOffset, hx, hy,
      h.reassembly]
  capacity := hcap
  exactCapacity := hexact

theorem agree_wsStoreFragment (h : Agree cfg exact x y) (hs : x.state = .readPayload)
    (hfull : x.payloadOffset = x.currentFrame.payloadLen) :
    Related (Agree cfg exact) (wsStoreFragment cfg grantAll x)
      (wsStoreFragment cfg grantAll y) := by
  rw [wsStoreFragment_eq, wsStoreFragment_eq]
  by_cases hinter : x.Interloper
  · have hinter' : y.Interloper := by
      rwa [WsParserCtx.Interloper, ← h.frame, ← h.reassemblyOffset]
    rw [if_pos hinter, if_pos hinter']
    exact agree_wsFail _ _
  · have hinter' : ¬ y.Interloper := by
      rwa [WsParserCtx.Interloper, ← h.frame, ← h.reassemblyOffset]
    have hneed : y.reassemblyOffset + y.currentFrame.payloadLen =
        x.reassemblyOffset + x.currentFrame.payloadLen := by rw [h.reassemblyOffset, h.frame]
    rw [if_neg hinter, if_neg hinter', hneed]
    rcases sameGrowth_fragment h.capacity x.currentFrame.payloadLen with
      ⟨hx, hy⟩ | ⟨c, c', hx, hy, hgrowth⟩
    · rw [hx, hy]
      exact agree_wsFail _ _
    · have hexact (he : exact = true) : c = c' := by
        rw [h.exactCapacity he, hy] at hx
        exact (Option.some.inj hx).symm
      rw [hx, hy]
      exact related_done (agree_wsAppendPayload h hs hfull hgrowth hexact)

theorem agree_wsEmptyReassembly (h : Agree cfg exact x y)
    (hcap : x.reassemblyCapacity = y.reassemblyCapacity) :
    Agree cfg exact (wsEmptyReassembly x) (wsEmptyReassembly y) := by
  have hgrown : (wsEmptyReassembly x).reassemblyCapacity =
      (wsEmptyReassembly y).reassemblyCapacity := by
    simp only [wsEmptyReassembly, wsAppendPayload, hcap, h.reassemblyOffset, h.frame]
  exact ⟨h.state, h.frame, h.payloadOffset, h.payload, h.extLenOffset, h.extLen, h.maskOffset,
    rfl, rfl, Or.inl hgrown, fun _ => hgrown⟩

theorem agree_wsFinalFrame (h : Agree cfg exact x y) (hs : x.state = .readPayload)
    (hfull : x.payloadOffset = x.currentFrame.payloadLen) :
    Related (Agree cfg exact) (wsFinalFrame grantAll x) (wsFinalFrame grantAll y) := by
  rw [wsFinalFrame_eq, wsFinalFrame_eq]
  refine ⟨?_, rfl, fun _ => ?_⟩
  · rw [h.completePayload hs hfull, h.reassembly, ← h.reassemblyOffset, h.frame]
  · by_cases hoff : x.reassemblyOffset > 0
    · -- something was buffered, so the capacities are the same
      have hcap : x.reassemblyCapacity = y.reassemblyCapacity :=
        h.capacity.resolve_right fun hzero => by omega
      simp only [if_pos hoff, if_pos (h.reassemblyOffset ▸ hoff : y.reassemblyOffset > 0)]
      exact agree_wsEmptyReassembly h hcap
    · simp only [if_neg hoff, if_neg (h.reassemblyOffset ▸ hoff : ¬ y.reassemblyOffset > 0)]
      exact h

theorem agree_wsDeliver (h : Agree cfg exact x y) (hs : x.state = .readPayload)
    (hfull : x.payloadOffset = x.currentFrame.payloadLen) :
    Related (Agree cfg exact) (wsDeliver cfg grantAll x) (wsDeliver cfg grantAll y) := by
  have hpayload := h.completePayload hs hfull
  have hstatus : wsCloseStatus x = wsCloseStatus y := by
    unfold wsCloseStatus
    rw [← h.frame] at hpayload ⊢
    split
    · rename_i hlen
      rw [mathWsNtohs_eq, mathWsNtohs_eq, ← Memory.read_take _ _ hlen, hpayload,
        Memory.read_take _ _ hlen]
    · rfl
  unfold wsDeliver
  rw [← h.frame]
  split
  · exact ⟨by rw [hstatus], rfl, fun _ => h⟩
  · split
    · exact ⟨by rw [hpayload, h.frame], rfl, fun _ => h⟩
    · split
      · exact agree_wsStoreFragment h hs hfull
      · exact agree_wsFinalFrame h hs hfull

theorem agree_wsResetFrame (h : Agree cfg exact x y) :
    Agree cfg exact (wsResetFrame x) (wsResetFrame y) where
  state := rfl
  frame := rfl
  payloadOffset hp := h.payloadOffset (Or.inl (hp.resolve_right (by simp [wsResetFrame])))
  payload hp := h.payload (Or.inl (hp.resolve_right (by simp [wsResetFrame])))
  extLenOffset := rfl
  extLen := rfl
  maskOffset := rfl
  reassemblyOffset := h.reassemblyOffset
  reassembly := h.reassembly
  capacity := h.capacity
  exactCapacity := h.exactCapacity

theorem agree_wsFrameComplete (h : Agree cfg exact x y) (hs : x.state = .readPayload)
    (hfull : x.payloadOffset = x.currentFrame.payloadLen) :
    Related (Agree cfg exact) (wsFrameComplete cfg grantAll x)
      (wsFrameComplete cfg grantAll y) :=
  (agree_wsDeliver h hs hfull).andThen fun _ hdelivered =>
    related_done (agree_wsResetFrame hdelivered)

theorem agree_wsCopyPayload (h : Agree cfg exact x y) (hs : x.state = .readPayload)
    (chunk : List UInt8) :
    Agree cfg exact (wsCopyPayload (wsGrowPayload x) chunk)
      (wsCopyPayload (wsGrowPayload y) chunk) := by
  have hoff := h.payloadOffset (Or.inr hs)
  have hcopy : wsToCopy x chunk.length = wsToCopy y chunk.length := by
    rw [wsToCopy, wsToCopy, h.frame, hoff]
  have hpiece : wsPiece x chunk = wsPiece y chunk := by
    rw [wsPiece, wsPiece, hcopy, h.frame, hoff]
  have hnext : (wsCopyPayload (wsGrowPayload x) chunk).payloadOffset =
      (wsCopyPayload (wsGrowPayload y) chunk).payloadOffset := by
    change x.payloadOffset + wsToCopy x _ = y.payloadOffset + wsToCopy y _
    rw [hoff, hcopy]
  refine ⟨h.state, h.frame, fun _ => hnext, fun _ => ?_, h.extLenOffset, h.extLen, h.maskOffset,
    h.reassemblyOffset, h.reassembly, h.capacity, h.exactCapacity⟩
  rw [wsCopyPayload_read, hnext, wsCopyPayload_read]
  change x.payloadBuffer.read 0 x.payloadOffset ++ wsPiece x chunk =
    y.payloadBuffer.read 0 y.payloadOffset ++ wsPiece y chunk
  rw [h.payload (Or.inr hs), hoff, hpiece]

theorem agree_wsReadPayload (h : Agree cfg exact x y) (hs : x.state = .readPayload)
    (chunk : List UInt8) :
    Related (Agree cfg exact) (wsReadPayload cfg grantAll x chunk)
      (wsReadPayload cfg grantAll y chunk) := by
  have hcopied := agree_wsCopyPayload h hs chunk
  have hoff := hcopied.payloadOffset (Or.inr hs)
  rw [wsReadPayload_grant, wsReadPayload_grant, ← hoff, ← h.frame]
  split
  · rename_i hfull
    exact agree_wsFrameComplete hcopied hs hfull
  · exact related_done hcopied

theorem agree_wsParserIterate (h : Agree cfg exact x y) (b : UInt8) (bs : List UInt8) :
    Related (Agree cfg exact) (wsParserIterate cfg grantAll x b bs)
      (wsParserIterate cfg grantAll y b bs) := by
  unfold wsParserIterate
  rw [← h.state]
  cases hs : x.state with
  | readOpcode => exact agree_wsReadOpcode h b
  | readLen => exact agree_wsReadLen h b
  | readExtLen16 => exact agree_wsReadExtLen16 h b
  | readExtLen64 => exact agree_wsReadExtLen64 h b
  | readMask => exact agree_wsReadMask h b
  | readPayload => exact agree_wsReadPayload h hs (b :: bs)

theorem agree_wsUnread (h : Agree cfg exact x y) (b : UInt8) (bs : List UInt8) :
    wsUnread y b bs = wsUnread x b bs := by
  unfold wsUnread wsToCopy
  rw [← h.state, ← h.frame]
  split
  · rename_i hs
    rw [h.payloadOffset (Or.inr hs)]
  · rfl

/-- Agreeing parsers make the same callbacks on every chunk and go on agreeing. -/
theorem agree_wsParserFeed (h : Agree cfg exact x y) (chunk : List UInt8) :
    Related (Agree cfg exact) (wsParserFeed cfg grantAll x chunk)
      (wsParserFeed cfg grantAll y chunk) := by
  induction hm : wsMeasure x chunk using Nat.strong_induction_on generalizing x y chunk with
  | _ m ih =>
    subst hm
    match chunk with
    | [] =>
      rw [wsParserFeed_nil, wsParserFeed_nil]
      exact related_done h
    | b :: bs =>
      rw [wsParserFeed_cons, wsParserFeed_cons, agree_wsUnread h]
      exact (agree_wsParserIterate h b bs).andThen fun hok hnext =>
        ih _ (wsParserIterate_progress cfg grantAll x b bs hok) hnext _ rfl

/-- What a fresh block holds is not in use. -/
theorem agree_wsParserFresh (cfg : WsConfig) (exact : Bool) (g g' : Memory UInt8) :
    Agree cfg exact (wsParserFresh g) (wsParserFresh g') where
  state := rfl
  frame := rfl
  payloadOffset _ := rfl
  payload _ := rfl
  extLenOffset := rfl
  extLen := rfl
  maskOffset := rfl
  reassemblyOffset := rfl
  reassembly := rfl
  capacity := Or.inl rfl
  exactCapacity _ := rfl

/-- Equal in what a caller can see of two parsers: the state, the current header, the offsets and
the bytes buffered below them. -/
structure SameParser (x y : WsParserCtx) : Prop where
  state : x.state = y.state
  currentFrame : x.currentFrame = y.currentFrame
  payloadOffset : x.payloadOffset = y.payloadOffset
  extLenOffset : x.extLenOffset = y.extLenOffset
  maskOffset : x.maskOffset = y.maskOffset
  reassemblyOffset : x.reassemblyOffset = y.reassemblyOffset
  payload : x.payloadBuffer.read 0 x.payloadOffset = y.payloadBuffer.read 0 y.payloadOffset
  reassembly : x.reassemblyBuffer.read 0 x.reassemblyOffset =
    y.reassemblyBuffer.read 0 y.reassemblyOffset

theorem Agree.sameParser (h : Agree cfg true x y) : SameParser x y where
  state := h.state
  currentFrame := h.frame
  payloadOffset := h.payloadOffset (Or.inl rfl)
  extLenOffset := h.extLenOffset
  maskOffset := h.maskOffset
  reassemblyOffset := h.reassemblyOffset
  payload := by rw [h.payload (Or.inl rfl), h.payloadOffset (Or.inl rfl)]
  reassembly := by rw [h.reassembly, h.reassemblyOffset]

/-- Two fresh parsers fed the same stream, cut in any two ways, make the same callbacks, end with
the same result and, if that is success, hold the same. -/
theorem wsParserFeed_chunking (cfg : WsConfig) (g g' : Memory UInt8) (cs ds : List (List UInt8))
    (hcut : cs.flatten = ds.flatten) :
    (feedChunks (wsParserFeed cfg grantAll) (wsParserFresh g) cs).output =
        (feedChunks (wsParserFeed cfg grantAll) (wsParserFresh g') ds).output ∧
      (feedChunks (wsParserFeed cfg grantAll) (wsParserFresh g) cs).failure =
        (feedChunks (wsParserFeed cfg grantAll) (wsParserFresh g') ds).failure ∧
      ((feedChunks (wsParserFeed cfg grantAll) (wsParserFresh g) cs).failure = none →
        SameParser (feedChunks (wsParserFeed cfg grantAll) (wsParserFresh g) cs).state
          (feedChunks (wsParserFeed cfg grantAll) (wsParserFresh g') ds).state) := by
  have hinc := wsParserFeed_incremental cfg grantAll
  have hrel := agree_wsParserFeed (agree_wsParserFresh cfg true g g') cs.flatten
  rw [hinc.feedChunks_eq, hinc.feedChunks_eq, ← hcut]
  exact ⟨hrel.output, hrel.failure, fun hok => (hrel.state hok).sameParser⟩

/-- A masked frame cut within its key, against the same frame byte by byte. -/
theorem wsParserFeed_chunking_masked :
    (feedChunks (wsParserFeed .default grantAll) (wsParserFresh fun _ => 0)
        [[0x81, 0x82, 1], [2, 3, 4, 5], [6]]).output =
      (feedChunks (wsParserFeed .default grantAll) (wsParserFresh fun _ => 7)
        [[0x81], [0x82], [1], [2], [3], [4], [5], [6]]).output :=
  (wsParserFeed_chunking .default (fun _ => 0) (fun _ => 7) [[0x81, 0x82, 1], [2, 3, 4, 5], [6]]
    [[0x81], [0x82], [1], [2], [3], [4], [5], [6]] rfl).1

end AbstractHttp.WebSocket
