import AbstractHttp.WebSocket.Machine

/-!
# Every access is in bounds

After any calls, those that return an error included, a context is bounded: the
offsets are below what the state reads, and no capacity exceeds what `realloc`
grants.  On such a context no size wraps around, so a call on the machine does
what the parser does, stays in bounds and ends.
-/
namespace AbstractHttp.WebSocket
open Library Outcome

/-- The offsets into the two small arrays, by what the state writes next. -/
def WsOffsetsBounded (extLenOffset maskOffset : ℕ) : WsParserState → Prop
  | .readOpcode => maskOffset = 0
  | .readLen => maskOffset = 0
  | .readExtLen16 => extLenOffset < 2 ∧ maskOffset = 0
  | .readExtLen64 => extLenOffset < 8 ∧ maskOffset = 0
  | .readMask => maskOffset < 4
  | .readPayload => True

/-- The sizes: a length is any 64-bit value, a capacity is one that `realloc` may grant. -/
structure WsSizesBounded (payloadLen payloadCapacity reassemblyOffset reassemblyCapacity : ℕ) :
    Prop where
  payloadLen_lt : payloadLen < 2 ^ 64
  payloadCapacity_lt : payloadCapacity < 2 ^ 48
  reassembly_le : reassemblyOffset ≤ reassemblyCapacity
  reassemblyCapacity_lt : reassemblyCapacity < 2 ^ 48

/-- What holds of a context between two turns of the loop, wherever a call was left. -/
structure WsCtxBounded (ctx : WsParserCtx) : Prop where
  offsets : WsOffsetsBounded ctx.extLenOffset ctx.maskOffset ctx.state
  sizes : WsSizesBounded ctx.currentFrame.payloadLen ctx.payloadCapacity ctx.reassemblyOffset
    ctx.reassemblyCapacity

theorem wsCtxBounded_wsParserFresh (garbage : Memory UInt8) :
    WsCtxBounded (wsParserFresh garbage) :=
  ⟨rfl, by constructor <;> simp [wsParserFresh, WsFrameHeader.zero]⟩

/-- The callbacks among the effects. -/
def callbacksOf (effects : List WsEffect) : List WsCallback :=
  effects.filterMap fun
    | .callback w => some w
    | .access _ => none

@[simp] theorem callbacksOf_nil : callbacksOf [] = [] := rfl

@[simp] theorem callbacksOf_callback (w : WsCallback) (effects : List WsEffect) :
    callbacksOf (.callback w :: effects) = w :: callbacksOf effects := rfl

@[simp] theorem callbacksOf_access (a : WsAccess) (effects : List WsEffect) :
    callbacksOf (.access a :: effects) = callbacksOf effects := rfl

@[simp] theorem callbacksOf_append (effects effects' : List WsEffect) :
    callbacksOf (effects ++ effects') = callbacksOf effects ++ callbacksOf effects' :=
  List.filterMap_append

/-- Every access among the effects is in bounds. -/
def InBoundsAll (effects : List WsEffect) : Prop := ∀ a, .access a ∈ effects → a.InBounds

@[simp] theorem inBoundsAll_nil : InBoundsAll [] := by
  intro a ha
  cases ha

@[simp] theorem inBoundsAll_callback (w : WsCallback) (effects : List WsEffect) :
    InBoundsAll (.callback w :: effects) ↔ InBoundsAll effects := by
  simp [InBoundsAll]

@[simp] theorem inBoundsAll_access (a : WsAccess) (effects : List WsEffect) :
    InBoundsAll (.access a :: effects) ↔ a.InBounds ∧ InBoundsAll effects := by
  simp [InBoundsAll]

@[simp] theorem inBoundsAll_append (effects effects' : List WsEffect) :
    InBoundsAll (effects ++ effects') ↔ InBoundsAll effects ∧ InBoundsAll effects' := by
  simp [InBoundsAll, or_imp, forall_and]

/-- The machine does what the parser does, within bounds, and leaves a bounded context. -/
structure Simulates (o : MachineOutcome) (o' : WsOutcome) : Prop where
  state : o.state = o'.state.machine
  callbacks : callbacksOf o.output = o'.output
  failure : o.failure = o'.failure
  inBounds : InBoundsAll o.output
  bounded : WsCtxBounded o'.state

theorem Simulates.andThen {o : MachineOutcome} {o' : WsOutcome} {k : MachineCtx → MachineOutcome}
    {l : WsParserCtx → WsOutcome} (h : Simulates o o')
    (hk : o'.failure = none → Simulates (k o'.state.machine) (l o'.state)) :
    Simulates (o.andThen k) (o'.andThen l) := by
  cases hf : o'.failure with
  | none =>
    have hnext := hk hf
    rw [andThen_of_none hf, andThen_of_none (h.failure.trans hf), h.state]
    exact ⟨hnext.state, by simp [h.callbacks, hnext.callbacks], hnext.failure,
      inBoundsAll_append _ _ |>.mpr ⟨h.inBounds, hnext.inBounds⟩, hnext.bounded⟩
  | some e =>
    have hne : o'.failure ≠ none := by simp [hf]
    rw [andThen_of_failure hne, andThen_of_failure (h.failure ▸ hne)]
    exact h

/-- A turn of the loop does what the parser does, and leaves the index at `next`
unless it fails. -/
structure SimulatesTurn (t : TurnOutcome) (o' : WsOutcome) (next : ℕ) : Prop where
  simulates : Simulates ⟨t.state.1, t.output, t.failure⟩ o'
  index : o'.failure = none → t.state.2 = next

section Header
variable {cfg : WsConfig} {ctx : WsParserCtx} {chunk : List UInt8} {i : ℕ}

theorem wsSize_succ (hi : i < chunk.length) (hlen : chunk.length < 2 ^ 64) :
    wsSize (i + 1) = i + 1 := Nat.mod_eq_of_lt (by omega)

theorem simulatesTurn_done {m : MachineCtx} {effects : List WsEffect} {next : ℕ}
    (hm : m = ctx.machine) (h : WsCtxBounded ctx) (hcallbacks : callbacksOf effects = [])
    (hin : InBoundsAll effects) : SimulatesTurn ⟨(m, next), effects, none⟩ (done ctx) next :=
  ⟨⟨hm, hcallbacks, rfl, hin, h⟩, fun _ => rfl⟩

theorem simulatesTurn_fail {m : MachineCtx} {effects : List WsEffect} {next : ℕ} {code : ℤ}
    {e : ErrorCode} (hm : m = ctx.machine) (h : WsCtxBounded ctx)
    (hcallbacks : callbacksOf effects = []) (hin : InBoundsAll effects) :
    SimulatesTurn (machineFail (m, next) effects code e) (wsFail ctx code e) next :=
  ⟨⟨hm, by simp [machineFail, wsFail, fail, hcallbacks], rfl, by simp [machineFail, fail, hin],
    h⟩, fun _ => rfl⟩

theorem inBoundsAll_chunkRead (hi : i < chunk.length) (effects : List WsEffect) :
    InBoundsAll (chunkRead chunk i :: effects) ↔ InBoundsAll effects := by
  rw [chunkRead, inBoundsAll_access]
  exact and_iff_right hi

theorem chunkRead_inBounds (hi : i < chunk.length) : InBoundsAll [chunkRead chunk i] :=
  (inBoundsAll_chunkRead hi []).mpr inBoundsAll_nil

theorem simulates_readOpcode (h : WsCtxBounded ctx) (hs : ctx.state = .readOpcode)
    (hi : i < chunk.length) (hlen : chunk.length < 2 ^ 64) :
    SimulatesTurn (machineReadOpcode chunk ctx.machine i) (wsReadOpcode ctx (chunk.getD i 0))
      (i + 1) := by
  have hmask : ctx.maskOffset = 0 := by simpa [hs, WsOffsetsBounded] using h.offsets
  have hin := chunkRead_inBounds hi
  simp only [machineReadOpcode, wsReadOpcode, wsSize_succ hi hlen]
  split
  · exact simulatesTurn_fail rfl ⟨h.offsets, h.sizes⟩ rfl hin
  · split
    · exact simulatesTurn_fail rfl ⟨h.offsets, h.sizes⟩ rfl hin
    · exact simulatesTurn_done rfl ⟨hmask, h.sizes⟩ rfl hin

/-- A length that is known leaves the extended length and starts the mask. -/
theorem wsCtxBounded_lengthKnown
    (hsizes : WsSizesBounded ctx.currentFrame.payloadLen ctx.payloadCapacity ctx.reassemblyOffset
      ctx.reassemblyCapacity)
    (hmask : ctx.maskOffset = 0) {len : ℕ} (hlen : len < 2 ^ 64) :
    WsCtxBounded (wsLengthKnown ctx len) := by
  refine ⟨?_, { hsizes with payloadLen_lt := hlen }⟩
  simp only [wsLengthKnown]
  split
  · exact hmask ▸ Nat.zero_lt_succ 3
  · trivial

theorem simulates_readLen (h : WsCtxBounded ctx) (hs : ctx.state = .readLen)
    (hi : i < chunk.length) (hlen : chunk.length < 2 ^ 64) :
    SimulatesTurn (machineReadLen chunk ctx.machine i) (wsReadLen ctx (chunk.getD i 0))
      (i + 1) := by
  have hmask : ctx.maskOffset = 0 := by simpa [hs, WsOffsetsBounded] using h.offsets
  have hin := chunkRead_inBounds hi
  have hbase := (chunk.getD i 0 &&& 0x7F).toNat_lt
  simp only [machineReadLen, wsReadLen, wsSize_succ hi hlen]
  split
  · exact simulatesTurn_done rfl ⟨⟨by norm_num, hmask⟩, h.sizes⟩ rfl hin
  · split
    · exact simulatesTurn_done rfl ⟨⟨by norm_num, hmask⟩, h.sizes⟩ rfl hin
    · refine simulatesTurn_done rfl ?_ rfl hin
      refine wsCtxBounded_lengthKnown ?_ ?_ (by omega)
      · exact h.sizes
      · exact hmask

/-- Below `2 ^ 8` the offset into a small array does not wrap around. -/
theorem machineStoreExtLen_machine (hoff : ctx.extLenOffset < 8) :
    machineStoreExtLen chunk ctx.machine i =
      (wsStoreExtLen ctx (chunk.getD i 0)).machine := by
  have hsize : wsSize (ctx.extLenOffset + 1) = ctx.extLenOffset + 1 :=
    Nat.mod_eq_of_lt (by omega)
  simp [machineStoreExtLen, wsStoreExtLen, WsParserCtx.machine, hsize]

theorem extLenEffects_inBounds (hi : i < chunk.length) (hoff : ctx.extLenOffset < 8) :
    InBoundsAll (extLenEffects chunk ctx.machine i) :=
  (inBoundsAll_chunkRead hi _).mpr (by simpa [WsAccess.InBounds] using hoff)

theorem mathWsNtohs_lt (p : Memory UInt8) : mathWsNtohs p < 2 ^ 16 := by
  simpa [mathWsNtohs_eq] using ofBigEndian_lt (p.read 0 2)

theorem mathWsNtohll_lt (p : Memory UInt8) : mathWsNtohll p < 2 ^ 64 := by
  simpa [mathWsNtohll_eq] using ofBigEndian_lt (p.read 0 8)

theorem simulates_readExtLen16 (h : WsCtxBounded ctx) (hs : ctx.state = .readExtLen16)
    (hi : i < chunk.length) (hlen : chunk.length < 2 ^ 64) :
    SimulatesTurn (machineReadExtLen16 chunk ctx.machine i)
      (wsReadExtLen16 ctx (chunk.getD i 0)) (i + 1) := by
  obtain ⟨hoff, hmask⟩ : ctx.extLenOffset < 2 ∧ ctx.maskOffset = 0 := by
    simpa [hs, WsOffsetsBounded] using h.offsets
  have hin := extLenEffects_inBounds hi (show ctx.extLenOffset < 8 by omega)
  simp only [machineReadExtLen16, wsReadExtLen16, wsSize_succ hi hlen,
    machineStoreExtLen_machine (show ctx.extLenOffset < 8 by omega)]
  by_cases hlast : (wsStoreExtLen ctx (chunk.getD i 0)).extLenOffset = 2
  · rw [if_pos hlast, if_pos (by exact hlast)]
    have hknown := mathWsNtohs_lt (wsStoreExtLen ctx (chunk.getD i 0)).extLenBuffer
    refine simulatesTurn_done rfl ?_ rfl hin
    refine wsCtxBounded_lengthKnown ?_ ?_ (by omega)
    · exact h.sizes
    · exact hmask
  · rw [if_neg hlast, if_neg (by exact hlast)]
    have hnext : ctx.extLenOffset + 1 < 2 := by
      simp only [wsStoreExtLen] at hlast
      omega
    have hoffsets : WsOffsetsBounded (ctx.extLenOffset + 1) ctx.maskOffset ctx.state := by
      rw [hs]
      exact ⟨hnext, hmask⟩
    exact simulatesTurn_done rfl ⟨hoffsets, h.sizes⟩ rfl hin

theorem simulates_readExtLen64 (h : WsCtxBounded ctx) (hs : ctx.state = .readExtLen64)
    (hi : i < chunk.length) (hlen : chunk.length < 2 ^ 64) :
    SimulatesTurn (machineReadExtLen64 chunk ctx.machine i cfg)
      (wsReadExtLen64 cfg ctx (chunk.getD i 0)) (i + 1) := by
  obtain ⟨hoff, hmask⟩ : ctx.extLenOffset < 8 ∧ ctx.maskOffset = 0 := by
    simpa [hs, WsOffsetsBounded] using h.offsets
  have hin := extLenEffects_inBounds hi hoff
  simp only [machineReadExtLen64, wsReadExtLen64, wsSize_succ hi hlen,
    machineStoreExtLen_machine hoff]
  by_cases hlast : (wsStoreExtLen ctx (chunk.getD i 0)).extLenOffset = 8
  · rw [if_pos hlast, if_pos (by exact hlast)]
    have hbounded : WsCtxBounded (wsLengthKnown (wsStoreExtLen ctx (chunk.getD i 0))
        (mathWsNtohll (wsStoreExtLen ctx (chunk.getD i 0)).extLenBuffer)) := by
      refine wsCtxBounded_lengthKnown ?_ ?_ (mathWsNtohll_lt _)
      · exact h.sizes
      · exact hmask
    by_cases hlimit : mathWsNtohll (wsStoreExtLen ctx (chunk.getD i 0)).extLenBuffer >
        cfg.maxFrameSize
    · -- the state has moved on already when the length is refused
      rw [if_pos (by exact hlimit), if_pos (by exact hlimit)]
      exact simulatesTurn_fail rfl hbounded rfl hin
    · rw [if_neg (by exact hlimit), if_neg (by exact hlimit)]
      exact simulatesTurn_done rfl hbounded rfl hin
  · rw [if_neg hlast, if_neg (by exact hlast)]
    have hnext : ctx.extLenOffset + 1 < 8 := by
      simp only [wsStoreExtLen] at hlast
      omega
    have hoffsets : WsOffsetsBounded (ctx.extLenOffset + 1) ctx.maskOffset ctx.state := by
      rw [hs]
      exact ⟨hnext, hmask⟩
    exact simulatesTurn_done rfl ⟨hoffsets, h.sizes⟩ rfl hin

theorem simulates_readMask (h : WsCtxBounded ctx) (hs : ctx.state = .readMask)
    (hi : i < chunk.length) (hlen : chunk.length < 2 ^ 64) :
    SimulatesTurn (machineReadMask chunk ctx.machine i) (wsReadMask ctx (chunk.getD i 0))
      (i + 1) := by
  have hmask : ctx.maskOffset < 4 := by simpa [hs, WsOffsetsBounded] using h.offsets
  have hin : InBoundsAll [chunkRead chunk i, .access (.maskingKey ctx.maskOffset)] :=
    (inBoundsAll_chunkRead hi _).mpr (by simpa [WsAccess.InBounds] using hmask)
  have hbyte : (ctx.maskOffset + 1) % 2 ^ 8 = ctx.maskOffset + 1 := Nat.mod_eq_of_lt (by omega)
  simp only [machineReadMask, wsReadMask, wsSize_succ hi hlen, WsParserCtx.machine_maskOffset,
    hbyte]
  by_cases hlast : ctx.maskOffset + 1 = 4
  · rw [if_pos hlast, if_pos hlast]
    exact simulatesTurn_done rfl ⟨trivial, h.sizes⟩ rfl hin
  · rw [if_neg hlast, if_neg hlast]
    have hnext : WsOffsetsBounded ctx.extLenOffset (ctx.maskOffset + 1) ctx.state := by
      rw [hs]
      exact (by omega : ctx.maskOffset + 1 < 4)
    exact simulatesTurn_done rfl ⟨hnext, h.sizes⟩ rfl hin

end Header

/-- Doubling that starts at one or more ends, and does not wrap around below half the range. -/
theorem whileFuel_double {need start k fuel : ℕ} (hstart : 0 < start) (hneed : need ≤ 2 ^ 63)
    (hk : need ≤ start * 2 ^ k) (hfuel : k < fuel) :
    whileFuel (fun newCap => decide (newCap < need)) (fun newCap => some (wsSize (newCap * 2)))
      fuel start = some (doubleUntil start need) := by
  obtain ⟨fuel, rfl⟩ := Nat.exists_eq_add_of_le' (Nat.one_le_of_lt hfuel)
  induction k generalizing start fuel with
  | zero =>
    have hcovers : need ≤ start := by simpa using hk
    rw [whileFuel_of_false (by simpa using hcovers), doubleUntil_of_le hcovers]
  | succ k ih =>
    by_cases hlt : start < need
    · have hsize : wsSize (start * 2) = start * 2 := Nat.mod_eq_of_lt (by omega)
      obtain ⟨fuel, rfl⟩ := Nat.exists_eq_add_of_le' (show 1 ≤ fuel by omega)
      rw [whileFuel_of_true (t := start * 2) (by simpa using hlt) (by rw [hsize]),
        doubleUntil_of_lt hstart hlt]
      refine ih (by omega) ?_ fuel (by omega)
      rw [pow_succ] at hk
      linarith
    · rw [whileFuel_of_false (by simpa using hlt), doubleUntil_of_le (not_lt.mp hlt)]

section Payload
variable {cfg : WsConfig} {realloc : WsRealloc} {fuel : ℕ} {ctx : WsParserCtx}

theorem machineNeed_eq (h : WsCtxBounded ctx)
    (hpayload : ctx.currentFrame.payloadLen ≤ ctx.payloadCapacity) :
    machineNeed ctx.machine = ctx.reassemblyOffset + ctx.currentFrame.payloadLen := by
  have hcap := h.sizes.payloadCapacity_lt
  have hle := h.sizes.reassembly_le
  have hreassembly := h.sizes.reassemblyCapacity_lt
  have hsum : ctx.reassemblyOffset + ctx.currentFrame.payloadLen < 2 ^ 64 := by omega
  exact Nat.mod_eq_of_lt hsum

theorem machineDouble_eq (h : WsCtxBounded ctx)
    (hpayload : ctx.currentFrame.payloadLen ≤ ctx.payloadCapacity) (hfuel : 64 ≤ fuel) :
    machineDouble fuel ctx.machine = some (wsDoubledCapacity ctx.reassemblyCapacity
      (ctx.reassemblyOffset + ctx.currentFrame.payloadLen)) := by
  have hcap := h.sizes.payloadCapacity_lt
  have hle := h.sizes.reassembly_le
  have hreassembly := h.sizes.reassemblyCapacity_lt
  have hsize : wsSize (ctx.reassemblyCapacity * 2) = ctx.reassemblyCapacity * 2 :=
    Nat.mod_eq_of_lt (by omega)
  simp only [machineDouble, machineNeed_eq h hpayload, WsParserCtx.machine_reassemblyCapacity,
    hsize, wsDoubledCapacity]
  refine whileFuel_double (k := 49) ?_ (by omega) ?_ (by omega)
  · split <;> omega
  · split <;> omega

/-- A payload that fits behind what has been reassembled is copied in bounds. -/
theorem simulates_appendPayload (h : WsCtxBounded ctx)
    (hpayload : ctx.currentFrame.payloadLen ≤ ctx.payloadCapacity)
    (hfits : ctx.reassemblyOffset + ctx.currentFrame.payloadLen ≤ ctx.reassemblyCapacity) :
    Simulates (machineAppendPayload ctx.machine) (done (wsAppendPayload ctx)) where
  state := by
    simp only [machineAppendPayload, machineNeed_eq h hpayload]
    rfl
  callbacks := rfl
  failure := rfl
  inBounds := by simp [machineAppendPayload, WsAccess.InBounds, hpayload, hfits]
  bounded := ⟨h.offsets, { h.sizes with reassembly_le := hfits }⟩

theorem simulates_fail (h : WsCtxBounded ctx) (code : ℤ) (e : ErrorCode) :
    Simulates (machineFail ctx.machine [] code e) (wsFail ctx code e) :=
  ⟨rfl, rfl, rfl, by simp [machineFail, fail], h⟩

/-- No request of `2 ^ 48` bytes or more is granted. -/
def RefusesHuge (realloc : WsRealloc) : Prop := ∀ block n, 2 ^ 48 ≤ n → realloc block n = false

theorem RefusesHuge.lt (hrealloc : RefusesHuge realloc) {block : WsBlock} {n : ℕ}
    (hgrant : realloc block n = true) : n < 2 ^ 48 := by
  by_contra hhuge
  simp [hrealloc block n (not_lt.mp hhuge)] at hgrant

/-- A block that is large enough, or has grown to an exact fit. -/
theorem RefusesHuge.max_capacity_lt (hrealloc : RefusesHuge realloc) {block : WsBlock}
    {cap need : ℕ} (hcap : cap < 2 ^ 48)
    (hgrant : ¬ (need > cap ∧ realloc block need = false)) : max cap need < 2 ^ 48 := by
  by_cases hgrow : need > cap
  · have hgranted : realloc block need = true := by simpa [hgrow] using hgrant
    exact max_lt hcap (hrealloc.lt hgranted)
  · rwa [max_eq_left (not_lt.mp hgrow)]

/-- The payload joins the message in a reassembly block that has grown. -/
theorem simulates_growReassembly (h : WsCtxBounded ctx)
    (hpayload : ctx.currentFrame.payloadLen ≤ ctx.payloadCapacity) {cap : ℕ}
    (hneed : ctx.reassemblyOffset + ctx.currentFrame.payloadLen ≤ cap) (hcap : cap < 2 ^ 48) :
    Simulates (machineAppendPayload { ctx.machine with reassemblyCapacity := cap })
      (done (wsAppendPayload { ctx with reassemblyCapacity := cap })) := by
  have hle : ctx.reassemblyOffset ≤ cap := by omega
  have hgrown : WsCtxBounded { ctx with reassemblyCapacity := cap } :=
    ⟨h.offsets, { h.sizes with reassembly_le := hle, reassemblyCapacity_lt := hcap }⟩
  exact simulates_appendPayload hgrown hpayload hneed

theorem simulates_storeFragment (cfg : WsConfig) (hrealloc : RefusesHuge realloc)
    (h : WsCtxBounded ctx) (hpayload : ctx.currentFrame.payloadLen ≤ ctx.payloadCapacity)
    (hfuel : 64 ≤ fuel) :
    ∃ o, machineStoreFragment cfg realloc fuel ctx.machine = some o ∧
      Simulates o (wsStoreFragment cfg realloc ctx) := by
  simp only [machineStoreFragment, wsStoreFragment, machineNeed_eq h hpayload,
    machineDouble_eq h hpayload hfuel, Option.map_some, WsParserCtx.machine_reassemblyCapacity,
    WsParserCtx.machine_reassemblyOffset, WsParserCtx.machine_currentFrame]
  split
  · exact ⟨_, rfl, simulates_fail h _ _⟩
  · split
    · refine ⟨_, rfl, ?_⟩
      split
      · exact simulates_fail h _ _
      · split
        · rename_i hgrant
          exact simulates_growReassembly h hpayload (le_wsDoubledCapacity _ _)
            (hrealloc.lt hgrant)
        · exact simulates_fail h _ _
    · rename_i hfits
      exact ⟨_, rfl, simulates_appendPayload h hpayload (not_lt.mp hfits)⟩

theorem simulates_finalFrame (hrealloc : RefusesHuge realloc) (h : WsCtxBounded ctx)
    (hpayload : ctx.currentFrame.payloadLen ≤ ctx.payloadCapacity) :
    Simulates (machineFinalFrame realloc ctx.machine) (wsFinalFrame realloc ctx) := by
  simp only [machineFinalFrame, wsFinalFrame, machineNeed_eq h hpayload,
    WsParserCtx.machine_reassemblyCapacity, WsParserCtx.machine_reassemblyOffset]
  split
  · split
    · exact simulates_fail h _ _
    · rename_i hgrant
      have hexact : (if ctx.reassemblyOffset + ctx.currentFrame.payloadLen >
            ctx.reassemblyCapacity then ctx.reassemblyOffset + ctx.currentFrame.payloadLen
          else ctx.reassemblyCapacity) =
          max ctx.reassemblyCapacity (ctx.reassemblyOffset + ctx.currentFrame.payloadLen) := by
        split <;> omega
      have hcap : max ctx.reassemblyCapacity
          (ctx.reassemblyOffset + ctx.currentFrame.payloadLen) < 2 ^ 48 :=
        hrealloc.max_capacity_lt h.sizes.reassemblyCapacity_lt hgrant
      have happend := simulates_growReassembly h hpayload (le_max_right _ _) hcap
      rw [WsParserCtx.machine_currentFrame, hexact]
      refine happend.andThen (l := fun ctx => ⟨{ ctx with reassemblyOffset := 0 },
        [.onMessage ⟨ctx.currentFrame.opcode,
          ctx.reassemblyBuffer.read 0 ctx.reassemblyOffset, true⟩], none⟩) fun _ => ?_
      have hbounded := happend.bounded
      exact ⟨rfl, rfl, rfl, by simp, hbounded.offsets,
        { hbounded.sizes with reassembly_le := Nat.zero_le _ }⟩
  · exact ⟨rfl, rfl, rfl, by simp, h⟩

theorem simulates_close (h : WsCtxBounded ctx)
    (hpayload : ctx.currentFrame.payloadLen ≤ ctx.payloadCapacity) :
    Simulates (machineClose ctx.machine) ⟨ctx, [.onClose (wsCloseStatus ctx)], none⟩ := by
  simp only [machineClose, wsCloseStatus, WsParserCtx.machine_currentFrame]
  split
  · rename_i hstatus
    exact ⟨rfl, rfl, rfl, by simp [WsAccess.InBounds, hstatus.le.trans hpayload], h⟩
  · exact ⟨rfl, rfl, rfl, by simp, h⟩

theorem simulates_deliver (cfg : WsConfig) (hrealloc : RefusesHuge realloc)
    (h : WsCtxBounded ctx) (hpayload : ctx.currentFrame.payloadLen ≤ ctx.payloadCapacity)
    (hfuel : 64 ≤ fuel) :
    ∃ o, machineDeliver cfg realloc fuel ctx.machine = some o ∧
      Simulates o (wsDeliver cfg realloc ctx) := by
  simp only [machineDeliver, wsDeliver, WsParserCtx.machine_currentFrame]
  split
  · exact ⟨_, rfl, simulates_close h hpayload⟩
  · split
    · exact ⟨_, rfl, rfl, rfl, rfl, by simp, h⟩
    · split
      · exact simulates_storeFragment cfg hrealloc h hpayload hfuel
      · exact ⟨_, rfl, simulates_finalFrame hrealloc h hpayload⟩

theorem simulates_frameComplete (cfg : WsConfig) (hrealloc : RefusesHuge realloc)
    (h : WsCtxBounded ctx) (hpayload : ctx.currentFrame.payloadLen ≤ ctx.payloadCapacity)
    (hfuel : 64 ≤ fuel) :
    ∃ o, machineFrameComplete cfg realloc fuel ctx.machine = some o ∧
      Simulates o (wsFrameComplete cfg realloc ctx) := by
  obtain ⟨o, hdeliver, hsim⟩ := simulates_deliver cfg hrealloc h hpayload hfuel
  refine ⟨_, by rw [machineFrameComplete, hdeliver, Option.map_some], ?_⟩
  refine hsim.andThen fun _ => ?_
  have hsizes := { hsim.bounded.sizes with payloadLen_lt := (by norm_num : 0 < 2 ^ 64) }
  exact ⟨rfl, rfl, rfl, by simp [done], rfl, hsizes⟩

variable {chunk : List UInt8} {i : ℕ}

/-- The payload offset does not exceed the length, so the differences are exact. -/
theorem machineToCopy_eq (ctx : WsParserCtx)
    (hoff : ctx.payloadOffset ≤ ctx.currentFrame.payloadLen)
    (hpayload : ctx.currentFrame.payloadLen < 2 ^ 64) (hi : i < chunk.length)
    (hlen : chunk.length < 2 ^ 64) :
    machineToCopy ctx.machine chunk i = wsToCopy ctx (chunk.drop i).length := by
  have hremaining : wsSizeSub ctx.currentFrame.payloadLen ctx.payloadOffset =
      ctx.currentFrame.payloadLen - ctx.payloadOffset := by
    simp only [wsSizeSub]
    omega
  have havailable : wsSizeSub chunk.length i = chunk.length - i := by
    simp only [wsSizeSub]
    omega
  simp only [machineToCopy, wsToCopy, WsParserCtx.machine_currentFrame,
    WsParserCtx.machine_payloadOffset, hremaining, havailable, List.length_drop]
  split <;> omega

theorem wsSize_add_toCopy (ctx : WsParserCtx) (hi : i < chunk.length)
    (hlen : chunk.length < 2 ^ 64) :
    wsSize (i + wsToCopy ctx (chunk.drop i).length) =
      i + wsToCopy ctx (chunk.drop i).length := by
  have hle : wsToCopy ctx (chunk.drop i).length ≤ (chunk.drop i).length := Nat.min_le_left _ _
  have hdrop := List.length_drop (i := i) (l := chunk)
  exact Nat.mod_eq_of_lt (by omega)

theorem machineGrowPayload_machine (ctx : WsParserCtx) :
    machineGrowPayload ctx.machine = (wsGrowPayload ctx).machine := by
  simp only [machineGrowPayload, wsGrowPayload, WsParserCtx.machine_currentFrame,
    WsParserCtx.machine_payloadCapacity]
  split
  · rename_i hgrow
    rw [max_eq_right hgrow.le]
    rfl
  · rename_i hfits
    rw [max_eq_left (not_lt.mp hfits)]

theorem machineCopyPayload_machine (ctx : WsParserCtx)
    (hoff : ctx.payloadOffset ≤ ctx.currentFrame.payloadLen)
    (hpayload : ctx.currentFrame.payloadLen < 2 ^ 64) (hi : i < chunk.length)
    (hlen : chunk.length < 2 ^ 64) :
    machineCopyPayload ctx.machine chunk i = (wsCopyPayload ctx (chunk.drop i)).machine := by
  have hcopy := machineToCopy_eq ctx hoff hpayload hi hlen
  have hle : wsToCopy ctx (chunk.drop i).length ≤
      ctx.currentFrame.payloadLen - ctx.payloadOffset := Nat.min_le_right _ _
  have hsize : wsSize (ctx.payloadOffset + wsToCopy ctx (chunk.drop i).length) =
      ctx.payloadOffset + wsToCopy ctx (chunk.drop i).length := Nat.mod_eq_of_lt (by omega)
  simp only [machineCopyPayload, hcopy, WsParserCtx.machine_payloadOffset, hsize]
  rfl

theorem copyEffects_inBounds (ctx : WsParserCtx)
    (hoff : ctx.payloadOffset ≤ ctx.currentFrame.payloadLen)
    (hsizes : ctx.currentFrame.payloadLen < 2 ^ 64)
    (hroom : ctx.currentFrame.payloadLen ≤ ctx.payloadCapacity) (hi : i < chunk.length)
    (hlen : chunk.length < 2 ^ 64) : InBoundsAll (copyEffects ctx.machine chunk i) := by
  have hcopy := machineToCopy_eq ctx hoff hsizes hi hlen
  have hle : machineToCopy ctx.machine chunk i ≤ chunk.length - i ∧
      machineToCopy ctx.machine chunk i ≤ ctx.currentFrame.payloadLen - ctx.payloadOffset := by
    rw [hcopy, List.length_drop]
    exact ⟨Nat.min_le_left _ _, Nat.min_le_right _ _⟩
  simp only [copyEffects, inBoundsAll_access, inBoundsAll_nil, WsAccess.InBounds,
    WsParserCtx.machine_payloadOffset, WsParserCtx.machine_currentFrame,
    WsParserCtx.machine_payloadCapacity]
  exact ⟨by omega, ⟨by omega, hroom⟩, trivial⟩

theorem simulates_readPayload (cfg : WsConfig) (hrealloc : RefusesHuge realloc)
    (h : WsCtxBounded ctx) (hs : ctx.state = .readPayload) (hfuel : 64 ≤ fuel)
    (hi : i < chunk.length) (hlen : chunk.length < 2 ^ 64) :
    ∃ t, machineReadPayload cfg realloc fuel ctx.machine chunk i = some t ∧
      SimulatesTurn t (wsReadPayload cfg realloc ctx (chunk.drop i))
        (i + wsToCopy ctx (chunk.drop i).length) := by
  have hoff := ctx.payload_le hs
  simp only [machineReadPayload, wsReadPayload, machineGrowPayload_machine,
    WsParserCtx.machine_currentFrame, WsParserCtx.machine_payloadCapacity]
  split
  · exact ⟨_, rfl, simulates_fail h _ _, fun hok => by cases hok⟩
  · rename_i hgrant
    have hcap : max ctx.payloadCapacity ctx.currentFrame.payloadLen < 2 ^ 48 :=
      hrealloc.max_capacity_lt h.sizes.payloadCapacity_lt hgrant
    have hpayload := h.sizes.payloadLen_lt
    have hroom : ctx.currentFrame.payloadLen ≤ (wsGrowPayload ctx).payloadCapacity :=
      le_max_right _ _
    have hcopy := machineToCopy_eq (wsGrowPayload ctx) hoff hpayload hi hlen
    have hin := copyEffects_inBounds (wsGrowPayload ctx) hoff hpayload hroom hi hlen
    have hbounded : WsCtxBounded (wsCopyPayload (wsGrowPayload ctx) (chunk.drop i)) :=
      ⟨h.offsets, { h.sizes with payloadCapacity_lt := hcap }⟩
    have hnext : wsSize (i + wsToCopy (wsGrowPayload ctx) (chunk.drop i).length) =
        i + wsToCopy ctx (chunk.drop i).length := wsSize_add_toCopy ctx hi hlen
    rw [machineCopyPayload_machine (wsGrowPayload ctx) hoff hpayload hi hlen, hcopy, hnext]
    by_cases hfull : (wsCopyPayload (wsGrowPayload ctx) (chunk.drop i)).payloadOffset =
        (wsCopyPayload (wsGrowPayload ctx) (chunk.drop i)).currentFrame.payloadLen
    · obtain ⟨o, hcomplete, hsim⟩ := simulates_frameComplete cfg hrealloc hbounded hroom hfuel
      rw [if_pos (by exact hfull), if_pos hfull, hcomplete, Option.map_some]
      refine ⟨_, rfl, ⟨hsim.state, ?_, hsim.failure, ?_, hsim.bounded⟩, fun _ => rfl⟩
      · simpa [copyEffects] using hsim.callbacks
      · exact (inBoundsAll_append _ _).mpr ⟨hin, hsim.inBounds⟩
    · rw [if_neg (by exact hfull), if_neg hfull]
      exact ⟨_, rfl, simulatesTurn_done rfl hbounded rfl hin⟩

end Payload

end AbstractHttp.WebSocket
