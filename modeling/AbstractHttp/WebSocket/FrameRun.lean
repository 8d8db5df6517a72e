import AbstractHttp.WebSocket.Agreement

/-!
# The parser frame by frame

On the encoding of a frame the byte machine computes what a machine over whole
frames does in one step. That machine keeps the bytes of the message being
reassembled and the capacity of their block, which is all that later decisions
depend on.
-/
namespace AbstractHttp.WebSocket
open Library Outcome

variable {cfg : WsConfig} {realloc : WsRealloc}

/-- A turn that only moves to a state consumes its byte. -/
theorem wsParserFeed_done {ctx ctx' : WsParserCtx} {b : UInt8} (hs : ctx.state ≠ .readPayload)
    (h : wsParserIterate cfg realloc ctx b [] = done ctx') (rest : List UInt8) :
    wsParserFeed cfg realloc ctx (b :: rest) = wsParserFeed cfg realloc ctx' rest := by
  rw [wsParserFeed_cons, wsParserIterate_header hs, h, done_andThen, wsUnread_header hs]

/-- A turn that fails is the end. -/
theorem wsParserFeed_fail {ctx ctx' : WsParserCtx} {b : UInt8} {code : ℤ} {e : ErrorCode}
    (hs : ctx.state ≠ .readPayload)
    (h : wsParserIterate cfg realloc ctx b [] = wsFail ctx' code e) (rest : List UInt8) :
    wsParserFeed cfg realloc ctx (b :: rest) = wsFail ctx' code e := by
  rw [wsParserFeed_cons, wsParserIterate_header hs, h]
  rfl

/-! ### The two header bytes -/

theorem wsFirstByte_reserved (fin : Bool) (op : WsOpcode) :
    wsFirstByte fin op.value &&& 0x70 = 0 := by
  cases fin <;> cases op <;> rfl

theorem wsFirstByte_fin (fin : Bool) (op : WsOpcode) :
    (wsFirstByte fin op.value >>> 7 &&& 1 == 1) = fin := by
  cases fin <;> cases op <;> rfl

theorem wsFirstByte_opcode (fin : Bool) (op : WsOpcode) :
    wsFirstByte fin op.value &&& 0x0F = op.value := by
  cases fin <;> cases op <;> rfl

theorem wsSecondByte_fields (mask : Bool) {b : UInt8} (h : b.toNat < 128) :
    (wsSecondByte mask b >>> 7 &&& 1 == 1) = mask ∧ wsSecondByte mask b &&& 0x7F = b := by
  have key : ∀ n : Fin 128, (wsSecondByte mask (UInt8.ofNat n) >>> 7 &&& 1 == 1) = mask ∧
      wsSecondByte mask (UInt8.ofNat n) &&& 0x7F = UInt8.ofNat n := by
    cases mask <;> decide +kernel
  have hb := key ⟨b.toNat, h⟩
  rwa [UInt8.ofNat_toNat] at hb

theorem WsOpcode.control_iff (op : WsOpcode) :
    op.value ≥ 0x08 ↔ op ∈ [.close, .ping, .pong] := by
  cases op <;> decide

/-- The parser behind the first byte of a frame. -/
def WsParserCtx.opcodeRead (ctx : WsParserCtx) (f : WsFrame) : WsParserCtx :=
  { ctx with
    currentFrame := { ctx.currentFrame with fin := f.fin, opcode := f.opcode.value }
    state := .readLen
    payload_le := by simp }

theorem wsParserFeed_firstByte {ctx : WsParserCtx} {f : WsFrame} (hs : ctx.state = .readOpcode)
    (hf : f.Readable) (rest : List UInt8) :
    wsParserFeed cfg realloc ctx (wsFirstByte f.fin f.opcode.value :: rest) =
      wsParserFeed cfg realloc (ctx.opcodeRead f) rest := by
  refine wsParserFeed_done (by simp [hs]) ?_ rest
  have hcontrol : ¬ (f.fin = false ∧ f.opcode.value ≥ 0x08) := by
    rintro ⟨hfin, hop⟩
    rw [hf.control_fin (f.opcode.control_iff.mp hop)] at hfin
    cases hfin
  simp only [wsParserIterate, hs, wsReadOpcode, wsFirstByte_fin, wsFirstByte_opcode,
    wsFirstByte_reserved]
  rw [if_neg (by simp), if_neg hcontrol]
  rfl

/-! ### The length field -/

/-- The parser once it has stored the bytes of an extended length. -/
def WsParserCtx.extLenStored (ctx : WsParserCtx) (bs : List UInt8) : WsParserCtx :=
  { ctx with
    extLenBuffer := ctx.extLenBuffer.write ctx.extLenOffset bs
    extLenOffset := ctx.extLenOffset + bs.length }

theorem WsParserCtx.extLenStored_append (ctx : WsParserCtx) (as bs : List UInt8) :
    (ctx.extLenStored as).extLenStored bs = ctx.extLenStored (as ++ bs) := by
  simp only [extLenStored, Memory.write_append, List.length_append, Nat.add_assoc]

/-- While an extended length of `k` bytes is incomplete its bytes are only stored. -/
theorem wsParserFeed_extLenStored {s : WsParserState} {k : ℕ} (hs : s ≠ .readPayload)
    (hstore : ∀ (ctx : WsParserCtx) b, ctx.state = s → ctx.extLenOffset + 1 < k →
      wsParserIterate cfg realloc ctx b [] = done (wsStoreExtLen ctx b))
    {ctx : WsParserCtx} (hctx : ctx.state = s) (bs : List UInt8)
    (hlen : ctx.extLenOffset + bs.length < k) (rest : List UInt8) :
    wsParserFeed cfg realloc ctx (bs ++ rest) =
      wsParserFeed cfg realloc (ctx.extLenStored bs) rest := by
  induction bs generalizing ctx with
  | nil => simp [WsParserCtx.extLenStored]
  | cons b bs ih =>
    rw [List.length_cons] at hlen
    rw [List.cons_append, wsParserFeed_done (hctx ▸ hs) (hstore ctx b hctx (by omega)),
      @ih (wsStoreExtLen ctx b) hctx (by simp only [wsStoreExtLen]; omega),
      ← List.singleton_append, ← WsParserCtx.extLenStored_append]
    rfl

theorem wsParserIterate_extLen16 {ctx : WsParserCtx} (hs : ctx.state = .readExtLen16)
    (b : UInt8) : wsParserIterate cfg realloc ctx b [] = wsReadExtLen16 ctx b := by
  rw [wsParserIterate, hs]

theorem wsParserIterate_extLen64 {ctx : WsParserCtx} (hs : ctx.state = .readExtLen64)
    (b : UInt8) : wsParserIterate cfg realloc ctx b [] = wsReadExtLen64 cfg ctx b := by
  rw [wsParserIterate, hs]

theorem wsReadExtLen16_store {ctx : WsParserCtx} (b : UInt8) (h : ctx.extLenOffset + 1 < 2) :
    wsReadExtLen16 ctx b = done (wsStoreExtLen ctx b) :=
  if_neg (by simp only [wsStoreExtLen]; omega)

theorem wsReadExtLen64_store {ctx : WsParserCtx} (b : UInt8) (h : ctx.extLenOffset + 1 < 8) :
    wsReadExtLen64 cfg ctx b = done (wsStoreExtLen ctx b) :=
  if_neg (by simp only [wsStoreExtLen]; omega)

/-- The parser behind the length field of a frame. -/
def WsParserCtx.lengthRead (ctx : WsParserCtx) (f : WsFrame) (buf : Memory UInt8) (off : ℕ) :
    WsParserCtx :=
  wsLengthKnown { ctx with
    currentFrame := { ctx.currentFrame with mask := f.maskKey.isSome }
    extLenBuffer := buf
    extLenOffset := off } f.payload.length

/-- The parser in front of an extended length. -/
def WsParserCtx.extLenStart (ctx : WsParserCtx) (f : WsFrame) (s : WsParserState)
    (hs : s ≠ .readPayload) : WsParserCtx :=
  { ctx with
    currentFrame := { ctx.currentFrame with mask := f.maskKey.isSome }
    state := s
    extLenOffset := 0
    payload_le := fun h => absurd h hs }

theorem wsParserFeed_lenField_small {ctx : WsParserCtx} {f : WsFrame} (hs : ctx.state = .readLen)
    (hlen : f.payload.length ≤ 125) (rest : List UInt8) :
    wsParserFeed cfg realloc ctx (f.lenField ++ rest) =
      wsParserFeed cfg realloc (ctx.lengthRead f ctx.extLenBuffer ctx.extLenOffset) rest := by
  have hnat : (UInt8.ofNat f.payload.length).toNat = f.payload.length :=
    UInt8.toNat_ofNat_of_lt (by simp only [UInt8.size]; omega)
  have hne {b : UInt8} (hb : 125 < b.toNat) : UInt8.ofNat f.payload.length ≠ b := by
    intro heq
    rw [← heq, hnat] at hb
    omega
  have hfields := wsSecondByte_fields f.maskKey.isSome
    (by omega : (UInt8.ofNat f.payload.length).toNat < 128)
  rw [WsFrame.lenField, if_pos hlen, List.singleton_append]
  refine wsParserFeed_done (by simp [hs]) ?_ rest
  simp only [wsParserIterate, hs, wsReadLen, hfields.1, hfields.2]
  rw [if_neg (hne (by decide)), if_neg (hne (by decide)), hnat]
  rfl

/-- Storing an extended length from its first byte on leaves exactly its bytes. -/
theorem WsParserCtx.extLenStart_value (ctx : WsParserCtx) (f : WsFrame) {s : WsParserState}
    (hs : s ≠ .readPayload) {k n : ℕ} (hn : n < 256 ^ k) :
    ofBigEndian ((((ctx.extLenStart f s hs).extLenStored (toBigEndian k n)).extLenBuffer).read
      0 k) = n := by
  have hread := Memory.read_write_self ctx.extLenBuffer 0 (toBigEndian k n)
  rw [toBigEndian_length] at hread
  change ofBigEndian ((ctx.extLenBuffer.write 0 (toBigEndian k n)).read 0 k) = n
  rw [hread, ofBigEndian_toBigEndian, Nat.mod_eq_of_lt hn]

variable (cfg realloc) in
theorem wsParserFeed_lenField_medium {ctx : WsParserCtx} {f : WsFrame} (hs : ctx.state = .readLen)
    (hlarge : ¬ f.payload.length ≤ 125) (hlen : f.payload.length ≤ 65535) :
    ∃ buf off, ∀ rest, wsParserFeed cfg realloc ctx (f.lenField ++ rest) =
      wsParserFeed cfg realloc (ctx.lengthRead f buf off) rest := by
  let start := ctx.extLenStart f .readExtLen16 (by simp)
  have hmarker : wsParserIterate cfg realloc ctx (wsSecondByte f.maskKey.isSome 126) [] =
      done start := by
    have hfields := wsSecondByte_fields f.maskKey.isSome (b := 126) (by decide)
    simp only [wsParserIterate, hs, wsReadLen, hfields.1, hfields.2]
    rfl
  have hstored : wsStoreExtLen (start.extLenStored (toBigEndian 1 (f.payload.length / 256)))
      (UInt8.ofNat f.payload.length) = start.extLenStored (toBigEndian 2 f.payload.length) :=
    start.extLenStored_append (toBigEndian 1 (f.payload.length / 256)) [_]
  have hvalue : mathWsNtohs (start.extLenStored (toBigEndian 2 f.payload.length)).extLenBuffer =
      f.payload.length := by
    rw [mathWsNtohs_eq]
    exact ctx.extLenStart_value f _ (by omega)
  have hlast : wsParserIterate cfg realloc
      (start.extLenStored (toBigEndian 1 (f.payload.length / 256)))
      (UInt8.ofNat f.payload.length) [] =
      done (wsLengthKnown (start.extLenStored (toBigEndian 2 f.payload.length))
        f.payload.length) := by
    rw [wsParserIterate_extLen16 rfl, wsReadExtLen16]
    simp only [hstored, hvalue]
    exact if_pos rfl
  refine ⟨(start.extLenStored (toBigEndian 2 f.payload.length)).extLenBuffer, 2, fun rest => ?_⟩
  rw [WsFrame.lenField, if_neg hlarge, if_pos hlen, List.cons_append,
    wsParserFeed_done (by simp [hs]) hmarker, toBigEndian, List.append_assoc,
    wsParserFeed_extLenStored (by simp)
      (fun _ b hs => (wsParserIterate_extLen16 hs b).trans ∘ wsReadExtLen16_store b) rfl _
      (by simp [start, WsParserCtx.extLenStart]),
    List.singleton_append, wsParserFeed_done _ hlast]
  · rfl
  · simp [start, WsParserCtx.extLenStart, WsParserCtx.extLenStored]

variable (cfg realloc) in
/-- The last byte of a 64-bit length decides whether the frame is too long. -/
theorem wsParserFeed_lenField_large {ctx : WsParserCtx} {f : WsFrame} (hs : ctx.state = .readLen)
    (hlarge : ¬ f.payload.length ≤ 65535) (hlen : f.payload.length < 2 ^ 64) :
    ∃ buf off, ∀ rest, wsParserFeed cfg realloc ctx (f.lenField ++ rest) =
      if f.payload.length > cfg.maxFrameSize then
        wsFail (ctx.lengthRead f buf off) ErrorCode.msgSize.value .msgSize
      else wsParserFeed cfg realloc (ctx.lengthRead f buf off) rest := by
  let start := ctx.extLenStart f .readExtLen64 (by simp)
  have hmarker : wsParserIterate cfg realloc ctx (wsSecondByte f.maskKey.isSome 127) [] =
      done start := by
    have hfields := wsSecondByte_fields f.maskKey.isSome (b := 127) (by decide)
    simp only [wsParserIterate, hs, wsReadLen, hfields.1, hfields.2]
    rfl
  have hstored : wsStoreExtLen (start.extLenStored (toBigEndian 7 (f.payload.length / 256)))
      (UInt8.ofNat f.payload.length) = start.extLenStored (toBigEndian 8 f.payload.length) :=
    start.extLenStored_append (toBigEndian 7 (f.payload.length / 256)) [_]
  have hvalue : mathWsNtohll (start.extLenStored (toBigEndian 8 f.payload.length)).extLenBuffer =
      f.payload.length := by
    rw [mathWsNtohll_eq]
    exact ctx.extLenStart_value f _ (by omega)
  have hlast : wsParserIterate cfg realloc
      (start.extLenStored (toBigEndian 7 (f.payload.length / 256)))
      (UInt8.ofNat f.payload.length) [] =
      if f.payload.length > cfg.maxFrameSize then
        wsFail (wsLengthKnown (start.extLenStored (toBigEndian 8 f.payload.length))
          f.payload.length) ErrorCode.msgSize.value .msgSize
      else done (wsLengthKnown (start.extLenStored (toBigEndian 8 f.payload.length))
        f.payload.length) := by
    rw [wsParserIterate_extLen64 rfl, wsReadExtLen64_last (by rw [hstored]; rfl), hstored, hvalue]
  have hstate : (start.extLenStored (toBigEndian 7 (f.payload.length / 256))).state ≠
      .readPayload := by simp [start, WsParserCtx.extLenStart, WsParserCtx.extLenStored]
  refine ⟨(start.extLenStored (toBigEndian 8 f.payload.length)).extLenBuffer, 8, fun rest => ?_⟩
  rw [WsFrame.lenField, if_neg (by omega), if_neg hlarge, List.cons_append,
    wsParserFeed_done (by simp [hs]) hmarker, toBigEndian, List.append_assoc,
    wsParserFeed_extLenStored (by simp)
      (fun _ b hs => (wsParserIterate_extLen64 hs b).trans ∘ wsReadExtLen64_store b) rfl _
      (by simp [start, WsParserCtx.extLenStart]),
    List.singleton_append]
  by_cases hmax : f.payload.length > cfg.maxFrameSize
  · rw [if_pos hmax] at hlast ⊢
    rw [wsParserFeed_fail hstate hlast]
    rfl
  · rw [if_neg hmax] at hlast ⊢
    rw [wsParserFeed_done hstate hlast]
    rfl

/-- A frame that announces its length in 64 bits and exceeds the limit. -/
def WsFrame.TooLong (cfg : WsConfig) (f : WsFrame) : Prop :=
  65535 < f.payload.length ∧ cfg.maxFrameSize < f.payload.length

instance (cfg : WsConfig) (f : WsFrame) : Decidable (f.TooLong cfg) := by
  unfold WsFrame.TooLong
  infer_instance

variable (cfg realloc) in
theorem wsParserFeed_lenField {ctx : WsParserCtx} {f : WsFrame} (hs : ctx.state = .readLen)
    (hf : f.Readable) :
    ∃ buf off, ∀ rest, wsParserFeed cfg realloc ctx (f.lenField ++ rest) =
      if f.TooLong cfg then wsFail (ctx.lengthRead f buf off) ErrorCode.msgSize.value .msgSize
      else wsParserFeed cfg realloc (ctx.lengthRead f buf off) rest := by
  have hlength := hf.length
  by_cases hsmall : f.payload.length ≤ 125
  · refine ⟨ctx.extLenBuffer, ctx.extLenOffset, fun rest => ?_⟩
    rw [if_neg (fun h => by have := h.1; omega), wsParserFeed_lenField_small hs hsmall]
  · by_cases hmedium : f.payload.length ≤ 65535
    · obtain ⟨buf, off, h⟩ := wsParserFeed_lenField_medium cfg realloc hs hsmall hmedium
      refine ⟨buf, off, fun rest => ?_⟩
      rw [if_neg (fun h => by have := h.1; omega), h]
    · obtain ⟨buf, off, h⟩ := wsParserFeed_lenField_large cfg realloc hs hmedium (by omega)
      refine ⟨buf, off, fun rest => ?_⟩
      by_cases hmax : f.payload.length > cfg.maxFrameSize
      · rw [h, if_pos hmax, if_pos ⟨by omega, hmax⟩]
      · rw [h, if_neg hmax, if_neg (fun h => hmax h.2)]

/-! ### The masking key -/

/-- The parser once it has stored the bytes of a masking key. -/
def WsParserCtx.maskStored (ctx : WsParserCtx) (bs : List UInt8) : WsParserCtx :=
  { ctx with
    currentFrame := { ctx.currentFrame with
      maskingKey := ctx.currentFrame.maskingKey.write ctx.maskOffset bs }
    maskOffset := ctx.maskOffset + bs.length }

theorem WsParserCtx.maskStored_append (ctx : WsParserCtx) (as bs : List UInt8) :
    (ctx.maskStored as).maskStored bs = ctx.maskStored (as ++ bs) := by
  simp only [maskStored, Memory.write_append, List.length_append, Nat.add_assoc]

/-- The parser in front of a masked payload. -/
def WsParserCtx.payloadStart (ctx : WsParserCtx) : WsParserCtx :=
  { ctx with state := .readPayload, payloadOffset := 0, payload_le := fun _ => Nat.zero_le _ }

theorem wsReadMask_store {ctx : WsParserCtx} (b : UInt8) (h : ctx.maskOffset + 1 < 4) :
    wsReadMask ctx b = done (ctx.maskStored [b]) :=
  if_neg (by change ¬ ctx.maskOffset + 1 = 4; omega)

theorem wsReadMask_last {ctx : WsParserCtx} (b : UInt8) (h : ctx.maskOffset + 1 = 4) :
    wsReadMask ctx b = done (ctx.maskStored [b]).payloadStart := if_pos h

variable (cfg realloc) in
theorem wsParserIterate_mask {ctx : WsParserCtx} (hs : ctx.state = .readMask) (b : UInt8) :
    wsParserIterate cfg realloc ctx b [] = wsReadMask ctx b := by
  rw [wsParserIterate, hs]

theorem wsParserFeed_maskStored {ctx : WsParserCtx} (hs : ctx.state = .readMask)
    (bs : List UInt8) (hlen : ctx.maskOffset + bs.length < 4) (rest : List UInt8) :
    wsParserFeed cfg realloc ctx (bs ++ rest) =
      wsParserFeed cfg realloc (ctx.maskStored bs) rest := by
  induction bs generalizing ctx with
  | nil => simp [WsParserCtx.maskStored]
  | cons b bs ih =>
    rw [List.length_cons] at hlen
    have hstore := (wsParserIterate_mask cfg realloc hs b).trans (wsReadMask_store b (by omega))
    rw [List.cons_append, wsParserFeed_done (by simp [hs]) hstore,
      @ih (ctx.maskStored [b]) hs
        (by change ctx.maskOffset + 1 + bs.length < 4; omega),
      WsParserCtx.maskStored_append, List.singleton_append]

/-- The parser in front of the payload of a frame, with the reassembly as it was before. -/
structure AtPayload (base : WsParserCtx) (f : WsFrame) (ctx : WsParserCtx) : Prop where
  state : ctx.state = .readPayload
  payloadOffset : ctx.payloadOffset = 0
  fin : ctx.currentFrame.fin = f.fin
  opcode : ctx.currentFrame.opcode = f.opcode.value
  payloadLen : ctx.currentFrame.payloadLen = f.payload.length
  mask : ctx.currentFrame.mask = f.maskKey.isSome
  key : ∀ k, f.maskKey = some k → ∀ i < 4, ctx.currentFrame.maskingKey i = k i
  reassemblyBuffer : ctx.reassemblyBuffer = base.reassemblyBuffer
  reassemblyOffset : ctx.reassemblyOffset = base.reassemblyOffset
  reassemblyCapacity : ctx.reassemblyCapacity = base.reassemblyCapacity

variable (cfg realloc) in
theorem wsParserFeed_keyField {base : WsParserCtx} {f : WsFrame} (hmask : base.maskOffset = 0)
    (buf : Memory UInt8) (off : ℕ) :
    ∃ ctx, AtPayload base f ctx ∧ ∀ rest,
      wsParserFeed cfg realloc ((base.opcodeRead f).lengthRead f buf off) (f.keyField ++ rest) =
        wsParserFeed cfg realloc ctx rest := by
  let known := (base.opcodeRead f).lengthRead f buf off
  cases hkey : f.maskKey with
  | none =>
    refine ⟨known, ⟨?_, rfl, rfl, rfl, rfl, rfl, by simp [hkey], rfl, rfl, rfl⟩, fun rest => ?_⟩
    · simp [known, WsParserCtx.lengthRead, wsLengthKnown, hkey]
    · simp [WsFrame.keyField, hkey, known]
  | some key =>
    have hstate : known.state = .readMask := by
      simp [known, WsParserCtx.lengthRead, wsLengthKnown, hkey]
    have hthree : (known.maskStored (key.read 0 3)).state = .readMask := hstate
    have hoff : known.maskOffset = 0 := hmask
    have hkeyBytes : key.read 0 4 = key.read 0 3 ++ [key 3] := Memory.read_succ key 0 3
    have hlast : wsParserIterate cfg realloc (known.maskStored (key.read 0 3)) (key 3) [] =
        done (known.maskStored (key.read 0 4)).payloadStart := by
      rw [wsParserIterate_mask cfg realloc hthree, hkeyBytes, ← WsParserCtx.maskStored_append]
      exact wsReadMask_last _ (by simp [WsParserCtx.maskStored, hoff])
    have hkeys : ∀ i < 4, known.currentFrame.maskingKey.write known.maskOffset (key.read 0 4) i =
        key i := by
      intro i hi
      have hwrite := Memory.write_at known.currentFrame.maskingKey known.maskOffset (key.read 0 4)
        i (by simpa using hi)
      rw [hoff, Nat.zero_add] at hwrite
      rw [hoff, hwrite]
      simp [Memory.read]
    refine ⟨(known.maskStored (key.read 0 4)).payloadStart,
      ⟨rfl, rfl, rfl, rfl, rfl, rfl, ?_, rfl, rfl, rfl⟩, fun rest => ?_⟩
    · rintro k hk i hi
      rw [hkey] at hk
      obtain rfl := Option.some.inj hk
      exact hkeys i hi
    · rw [WsFrame.keyField, hkey]
      simp only
      rw [hkeyBytes, List.append_assoc, wsParserFeed_maskStored hstate _ (by simp [hoff]),
        List.singleton_append, wsParserFeed_done (by simp [hthree]) hlast, ← hkeyBytes]

variable (cfg realloc) in
/-- The header of a frame is refused if it announces too much, and else leads to the payload. -/
theorem wsParserFeed_header {base : WsParserCtx} {f : WsFrame} (hs : base.state = .readOpcode)
    (hmask : base.maskOffset = 0) (hf : f.Readable) :
    ∃ ctx refused, AtPayload base f ctx ∧ ∀ rest,
      wsParserFeed cfg realloc base (f.header ++ rest) =
        if f.TooLong cfg then wsFail refused ErrorCode.msgSize.value .msgSize
        else wsParserFeed cfg realloc ctx rest := by
  obtain ⟨buf, off, hlength⟩ := wsParserFeed_lenField cfg realloc
    (rfl : (base.opcodeRead f).state = .readLen) hf
  obtain ⟨ctx, hctx, hkey⟩ := wsParserFeed_keyField cfg realloc (f := f) hmask buf off
  refine ⟨ctx, (base.opcodeRead f).lengthRead f buf off, hctx, fun rest => ?_⟩
  rw [WsFrame.header, List.cons_append, wsParserFeed_firstByte hs hf, List.append_assoc,
    hlength, hkey]

/-! ### The payload -/

/-- A frame ready to be delivered. -/
structure Loaded (base : WsParserCtx) (f : WsFrame) (ctx : WsParserCtx) : Prop where
  fin : ctx.currentFrame.fin = f.fin
  opcode : ctx.currentFrame.opcode = f.opcode.value
  payloadLen : ctx.currentFrame.payloadLen = f.payload.length
  payload : ctx.payloadBuffer.read 0 f.payload.length = f.payload
  reassemblyBuffer : ctx.reassemblyBuffer = base.reassemblyBuffer
  reassemblyOffset : ctx.reassemblyOffset = base.reassemblyOffset
  reassemblyCapacity : ctx.reassemblyCapacity = base.reassemblyCapacity

theorem AtPayload.loaded {base ctx : WsParserCtx} {f : WsFrame} (h : AtPayload base f ctx) :
    Loaded base f (wsCopyPayload (wsGrowPayload ctx) f.body) := by
  have hcopy : wsToCopy (wsGrowPayload ctx) f.body.length = f.payload.length := by
    change min f.body.length (ctx.currentFrame.payloadLen - ctx.payloadOffset) = _
    rw [f.body_length, h.payloadLen, h.payloadOffset]
    omega
  have hpiece : wsPiece (wsGrowPayload ctx) f.body = f.payload := by
    rw [wsPiece, hcopy, ← f.body_length, List.take_length]
    change (if ctx.currentFrame.mask = true then
      xorMask ctx.currentFrame.maskingKey ctx.payloadOffset f.body else f.body) = _
    rw [h.mask, h.payloadOffset, WsFrame.body]
    cases hkey : f.maskKey with
    | none => rfl
    | some key => exact (xorMask_congr (h.key key hkey) _ _).trans (xorMask_xorMask _ _ _)
  have hread := wsCopyPayload_read (wsGrowPayload ctx) f.body
  have hoff : (wsCopyPayload (wsGrowPayload ctx) f.body).payloadOffset = f.payload.length := by
    change ctx.payloadOffset + wsToCopy (wsGrowPayload ctx) _ = _
    rw [h.payloadOffset, hcopy, Nat.zero_add]
  have hnone : (wsGrowPayload ctx).payloadOffset = 0 := h.payloadOffset
  rw [hoff, hpiece, hnone, Memory.read_zero, List.nil_append] at hread
  exact ⟨h.fin, h.opcode, h.payloadLen, hread, h.reassemblyBuffer, h.reassemblyOffset,
    h.reassemblyCapacity⟩

/-- The payload state takes the whole payload, unless it is not entered again. -/
theorem AtPayload.feed {base ctx : WsParserCtx} {f : WsFrame} (h : AtPayload base f ctx)
    (rest : List UInt8) (hne : f.body ++ rest ≠ []) :
    wsParserFeed cfg grantAll ctx (f.body ++ rest) =
      (wsFrameComplete cfg grantAll (wsCopyPayload (wsGrowPayload ctx) f.body)).andThen
        (wsParserFeed cfg grantAll · rest) := by
  have hcopy : wsToCopy ctx f.body.length = f.body.length := by
    rw [wsToCopy, f.body_length, h.payloadLen, h.payloadOffset]
    omega
  obtain ⟨hlen, hread⟩ := wsReadPayload_full cfg grantAll f.body rest
    (by rw [h.payloadLen, h.payloadOffset, f.body_length]; omega)
  have hdone : wsReadPayload cfg grantAll ctx f.body =
      wsFrameComplete cfg grantAll (wsCopyPayload (wsGrowPayload ctx) f.body) := by
    rw [wsReadPayload_grant, if_pos]
    change ctx.payloadOffset + wsToCopy ctx _ = _
    rw [hcopy, h.payloadOffset, h.payloadLen, f.body_length, Nat.zero_add]
  obtain ⟨b, bs, hcons⟩ := List.exists_cons_of_ne_nil hne
  have hunread : wsUnread ctx b bs = rest := by
    rw [wsUnread, if_pos h.state, ← List.length_cons (a := b), ← hcons, hlen, hcopy,
      List.drop_left]
  rw [hcons, wsParserFeed_cons, wsParserIterate_payload h.state, ← hcons, hread, hdone, hunread]

/-! ### The machine over frames -/

/-- The message being reassembled, and the capacity of its block. -/
structure WsAssembly where
  buffered : List UInt8
  capacity : ℕ
  deriving DecidableEq, Repr

/-- A fresh parser has nothing buffered and no block. -/
def WsAssembly.fresh : WsAssembly := ⟨[], 0⟩

/-- The status that the payload of a CLOSE frame carries. -/
def wsCloseCode (payload : List UInt8) : ℕ :=
  if 2 ≤ payload.length then ofBigEndian (payload.take 2) else 1005

/-- A data frame without FIN. -/
def wsFrameFragment (cfg : WsConfig) (a : WsAssembly) (f : WsFrame) :
    Outcome WsAssembly WsCallback ErrorCode :=
  if f.opcode ≠ .continuation ∧ a.buffered ≠ [] then
    fail a [.onError ErrorCode.wsFraming.value] .wsFraming
  else match wsFragmentCapacity cfg a.capacity (a.buffered.length + f.payload.length) with
    | none => fail a [.onError ErrorCode.msgSize.value] .msgSize
    | some cap => done ⟨a.buffered ++ f.payload, cap⟩

/-- The assembly once a data frame with FIN has been delivered. -/
def WsAssembly.emptied (a : WsAssembly) (f : WsFrame) : WsAssembly :=
  if a.buffered = [] then a else ⟨[], max a.capacity (a.buffered.length + f.payload.length)⟩

/-- A data frame with FIN. -/
def wsFrameFinal (a : WsAssembly) (f : WsFrame) : Outcome WsAssembly WsCallback ErrorCode :=
  ⟨a.emptied f, [.onMessage ⟨f.opcode.value, a.buffered ++ f.payload, true⟩], none⟩

/-- What the parser does with a whole frame. -/
def wsFrameStep (cfg : WsConfig) (a : WsAssembly) (f : WsFrame) :
    Outcome WsAssembly WsCallback ErrorCode :=
  if f.TooLong cfg then fail a [.onError ErrorCode.msgSize.value] .msgSize
  else if f.opcode = .close then ⟨a, [.onClose (wsCloseCode f.payload)], none⟩
  else if f.opcode = .ping ∨ f.opcode = .pong then
    ⟨a, [.onMessage ⟨f.opcode.value, f.payload, f.fin⟩], none⟩
  else if f.fin = false then wsFrameFragment cfg a f
  else wsFrameFinal a f

theorem wsFrameStep_of_tooLong {a : WsAssembly} {f : WsFrame} (h : f.TooLong cfg) :
    wsFrameStep cfg a f = fail a [.onError ErrorCode.msgSize.value] .msgSize := if_pos h

theorem wsFrameStep_of_data {a : WsAssembly} {f : WsFrame} (h : ¬ f.TooLong cfg)
    (hdata : f.isControl = false) :
    wsFrameStep cfg a f = if f.fin = false then wsFrameFragment cfg a f else wsFrameFinal a f := by
  have hop : f.opcode ≠ .close ∧ ¬ (f.opcode = .ping ∨ f.opcode = .pong) := by
    simpa [WsFrame.isControl] using hdata
  rw [wsFrameStep, if_neg h, if_neg hop.1, if_neg hop.2]

/-- A final continuation that is not too long is an event with the opcode of a continuation. -/
theorem wsFrameStep_event {a : WsAssembly} {f : WsFrame} (hop : f.opcode = .continuation)
    (hfin : f.fin = true) (hshort : ¬ f.TooLong cfg) :
    (wsFrameStep cfg a f).output =
      [.onMessage ⟨WsOpcode.continuation.value, a.buffered ++ f.payload, true⟩] := by
  rw [wsFrameStep_of_data hshort (by simp [WsFrame.isControl, hop]), if_neg (by simp [hfin]),
    wsFrameFinal, hop]

/-- A control frame passes without a trace. -/
theorem wsFrameStep_of_control {a : WsAssembly} {f : WsFrame} (h : ¬ f.TooLong cfg)
    (hcontrol : f.isControl = true) :
    (wsFrameStep cfg a f).state = a ∧ (wsFrameStep cfg a f).failure = none := by
  have hop : f.opcode = .close ∨ f.opcode = .ping ∨ f.opcode = .pong := by
    simpa [WsFrame.isControl] using hcontrol
  rw [wsFrameStep, if_neg h]
  rcases hop with hop | hop | hop <;> simp [hop]

def wsFrameRun (cfg : WsConfig) (a : WsAssembly) : List WsFrame →
    Outcome WsAssembly WsCallback ErrorCode
  | [] => done a
  | f :: fs => (wsFrameStep cfg a f).andThen (wsFrameRun cfg · fs)

theorem wsFrameRun_append (a : WsAssembly) (fs gs : List WsFrame) :
    wsFrameRun cfg a (fs ++ gs) = (wsFrameRun cfg a fs).andThen (wsFrameRun cfg · gs) := by
  induction fs generalizing a with
  | nil => rfl
  | cons f fs ih =>
    rw [List.cons_append, wsFrameRun, wsFrameRun, andThen_assoc]
    exact andThen_congr fun _ => ih _

/-- A parser between two frames that holds this assembly. -/
structure Holds (ctx : WsParserCtx) (a : WsAssembly) : Prop where
  state : ctx.state = .readOpcode
  maskOffset : ctx.maskOffset = 0
  offset : ctx.reassemblyOffset = a.buffered.length
  buffered : ctx.reassemblyBuffer.read 0 a.buffered.length = a.buffered
  capacity : ctx.reassemblyCapacity = a.capacity

theorem holds_wsParserFresh (g : Memory UInt8) : Holds (wsParserFresh g) .fresh :=
  ⟨rfl, rfl, rfl, rfl, rfl⟩

variable {base ctx : WsParserCtx} {a : WsAssembly} {f : WsFrame}

theorem Loaded.offset (h : Loaded base f ctx) (hbase : Holds base a) :
    ctx.reassemblyOffset = a.buffered.length := h.reassemblyOffset.trans hbase.offset

theorem Loaded.buffered (h : Loaded base f ctx) (hbase : Holds base a) :
    ctx.reassemblyBuffer.read 0 ctx.reassemblyOffset = a.buffered := by
  rw [h.reassemblyBuffer, h.offset hbase, hbase.buffered]

theorem Loaded.capacity (h : Loaded base f ctx) (hbase : Holds base a) :
    ctx.reassemblyCapacity = a.capacity := h.reassemblyCapacity.trans hbase.capacity

theorem Loaded.closeStatus (h : Loaded base f ctx) : wsCloseStatus ctx = wsCloseCode f.payload := by
  rw [wsCloseStatus, wsCloseCode, h.payloadLen]
  split
  · rename_i hlen
    rw [mathWsNtohs_eq, ← Memory.read_take _ _ hlen, h.payload]
  · rfl

/-- A parser left as it is by the delivery holds the assembly as before. -/
theorem Loaded.holds_reset (h : Loaded base f ctx) (hbase : Holds base a) :
    Holds (wsResetFrame ctx) a where
  state := rfl
  maskOffset := rfl
  offset := h.offset hbase
  buffered := by rw [← h.offset hbase]; exact h.buffered hbase
  capacity := h.capacity hbase

/-- The buffered bytes once the payload has joined them. -/
theorem Loaded.appended (h : Loaded base f ctx) (hbase : Holds base a) :
    (ctx.reassemblyBuffer.write ctx.reassemblyOffset
      (ctx.payloadBuffer.read 0 ctx.currentFrame.payloadLen)).read 0
        (a.buffered.length + f.payload.length) = a.buffered ++ f.payload := by
  have hext := Memory.read_write_extend ctx.reassemblyBuffer ctx.reassemblyOffset f.payload
  rw [h.buffered hbase, h.offset hbase] at hext
  rw [h.payloadLen, h.payload, h.offset hbase, hext]

theorem Loaded.fragment (h : Loaded base f ctx) (hbase : Holds base a) :
    Related Holds ((wsStoreFragment cfg grantAll ctx).andThen fun ctx => done (wsResetFrame ctx))
      (wsFrameFragment cfg a f) := by
  have hinter : ctx.Interloper ↔ f.opcode ≠ .continuation ∧ a.buffered ≠ [] := by
    rw [WsParserCtx.Interloper, h.opcode, h.offset hbase, WsOpcode.value_injective.ne_iff]
    exact and_congr_right fun _ => List.length_pos_iff
  have hcap : wsFragmentCapacity cfg ctx.reassemblyCapacity
      (ctx.reassemblyOffset + ctx.currentFrame.payloadLen) =
      wsFragmentCapacity cfg a.capacity (a.buffered.length + f.payload.length) := by
    rw [h.capacity hbase, h.offset hbase, h.payloadLen]
  rw [wsStoreFragment_eq, wsFrameFragment, hcap]
  by_cases hi : ctx.Interloper
  · rw [if_pos hi, if_pos (hinter.mp hi)]
    exact related_fail _ _ _ _ _
  · rw [if_neg hi, if_neg (mt hinter.mpr hi)]
    cases wsFragmentCapacity cfg a.capacity (a.buffered.length + f.payload.length) with
    | none => exact related_fail _ _ _ _ _
    | some cap =>
      refine related_done ⟨rfl, rfl, ?_, ?_, rfl⟩
      · change ctx.reassemblyOffset + ctx.currentFrame.payloadLen = (a.buffered ++ f.payload).length
        rw [h.offset hbase, h.payloadLen, List.length_append]
      · rw [List.length_append]
        exact h.appended hbase

theorem Loaded.final (h : Loaded base f ctx) (hbase : Holds base a) :
    Related Holds ((wsFinalFrame grantAll ctx).andThen fun ctx => done (wsResetFrame ctx))
      (wsFrameFinal a f) := by
  rw [wsFinalFrame_eq, wsFrameFinal, andThen_of_none rfl]
  refine ⟨?_, rfl, fun _ => ?_⟩
  · simp only [done, List.append_nil, h.buffered hbase, h.opcode, h.payloadLen, h.payload]
  · have hpos : ctx.reassemblyOffset > 0 ↔ a.buffered ≠ [] := by
      rw [h.offset hbase]
      exact List.length_pos_iff
    by_cases hb : a.buffered = []
    · simp only [WsAssembly.emptied, if_pos hb, if_neg (mt hpos.mp (not_not.mpr hb)), done]
      exact h.holds_reset hbase
    · simp only [WsAssembly.emptied, if_neg hb, if_pos (hpos.mpr hb), done]
      refine ⟨rfl, rfl, rfl, rfl, ?_⟩
      change max ctx.reassemblyCapacity (ctx.reassemblyOffset + ctx.currentFrame.payloadLen) = _
      rw [h.capacity hbase, h.offset hbase, h.payloadLen]

/-- Completing a loaded frame is one step of the frame machine. -/
theorem Loaded.complete (h : Loaded base f ctx) (hbase : Holds base a) (hlen : ¬ f.TooLong cfg) :
    Related Holds (wsFrameComplete cfg grantAll ctx) (wsFrameStep cfg a f) := by
  rw [wsFrameStep, if_neg hlen, wsFrameComplete, wsDeliver, h.opcode, h.fin, h.payloadLen,
    h.payload, h.closeStatus]
  simp only [WsOpcode.value_injective.eq_iff]
  split
  · exact ⟨rfl, rfl, fun _ => h.holds_reset hbase⟩
  · split
    · exact ⟨rfl, rfl, fun _ => h.holds_reset hbase⟩
    · split
      · exact h.fragment hbase
      · exact h.final hbase

theorem WsFrame.encode_ne_nil (f : WsFrame) : f.encode ≠ [] := by
  simp [WsFrame.encode, WsFrame.header]

variable (cfg) in
/-- The bytes of a frame are one step of the frame machine, once the loop runs again. -/
theorem wsParserFeed_encode (hbase : Holds base a) (hf : f.Readable) (rest : List UInt8)
    (hne : f.body ++ rest ≠ []) :
    ∃ o, Related Holds o (wsFrameStep cfg a f) ∧
      wsParserFeed cfg grantAll base (f.encode ++ rest) =
        o.andThen (wsParserFeed cfg grantAll · rest) := by
  obtain ⟨ctx, refused, hctx, hheader⟩ := wsParserFeed_header cfg grantAll hbase.state
    hbase.maskOffset hf
  rw [WsFrame.encode, List.append_assoc, hheader]
  by_cases hlong : f.TooLong cfg
  · rw [if_pos hlong, wsFrameStep, if_pos hlong]
    exact ⟨_, related_fail _ _ _ _ _, rfl⟩
  · rw [if_neg hlong, hctx.feed rest hne]
    exact ⟨_, hctx.loaded.complete hbase hlong, rfl⟩

variable (cfg) in
/-- An empty frame at the end of a chunk is not delivered: the loop has no byte left to run on. -/
theorem wsParserFeed_pending (hbase : Holds base a) (hf : f.Readable) (hempty : f.payload = []) :
    ∃ ctx, AtPayload base f ctx ∧ wsParserFeed cfg grantAll base f.encode = done ctx := by
  obtain ⟨ctx, refused, hctx, hheader⟩ := wsParserFeed_header cfg grantAll hbase.state
    hbase.maskOffset hf
  have hbody : f.body = [] := by
    rw [← List.length_eq_zero_iff, f.body_length, hempty, List.length_nil]
  have hshort : ¬ f.TooLong cfg := fun hlong => by simpa [hempty] using hlong.1
  refine ⟨ctx, hctx, ?_⟩
  rw [WsFrame.encode, hbody, hheader, if_neg hshort, wsParserFeed_nil]

/-- What follows the header of the last frame, if anything does. -/
def WsTail (fs : List WsFrame) (rest : List UInt8) : Prop :=
  rest ≠ [] ∨ ∀ f, fs.getLast? = some f → f.payload ≠ []

variable (cfg) in
/-- The bytes of a list of frames are a run of the frame machine. -/
theorem wsParserFeed_encodeAll (hbase : Holds base a) {fs : List WsFrame}
    (hfs : ∀ f ∈ fs, f.Readable) (rest : List UInt8) (htail : WsTail fs rest) :
    ∃ o, Related Holds o (wsFrameRun cfg a fs) ∧
      wsParserFeed cfg grantAll base (wsEncodeAll fs ++ rest) =
        o.andThen (wsParserFeed cfg grantAll · rest) := by
  induction fs generalizing base a with
  | nil => exact ⟨done base, related_done hbase, rfl⟩
  | cons f fs ih =>
    have htail' : WsTail fs rest := by
      refine htail.imp_right fun hlast g hg => hlast g ?_
      cases fs with
      | nil => cases hg
      | cons _ _ => exact hg
    have hne : f.body ++ (wsEncodeAll fs ++ rest) ≠ [] := by
      rcases htail with hrest | hlast
      · simp [hrest]
      · cases fs with
        | nil => simp [WsFrame.body_ne_nil (hlast f rfl)]
        | cons g gs => simp [g.encode_ne_nil]
    obtain ⟨o, ho, hfeed⟩ := wsParserFeed_encode cfg hbase (hfs f (by simp)) _ hne
    rw [wsEncodeAll_cons, List.append_assoc, hfeed, wsFrameRun]
    cases hfail : o.failure with
    | some e =>
      refine ⟨o, ?_, ?_⟩
      · rw [andThen_of_failure (by rw [← ho.failure, hfail]; simp)]
        exact ho
      · rw [andThen_of_failure (by simp [hfail]), andThen_of_failure (by simp [hfail])]
    | none =>
      obtain ⟨o', ho', hfeed'⟩ := ih (ho.state hfail) (fun g hg => hfs g (by simp [hg])) htail'
      refine ⟨o.andThen fun _ => o', ho.andThen fun _ _ => ho', ?_⟩
      rw [andThen_assoc]
      exact andThen_congr fun _ => hfeed'

variable (cfg) in
/-- A stream whose last frame is not empty is run to its end. -/
theorem wsParserFeed_encodeAll_complete (hbase : Holds base a) {fs : List WsFrame}
    (hfs : ∀ f ∈ fs, f.Readable) (hlast : ∀ f, fs.getLast? = some f → f.payload ≠ []) :
    Related Holds (wsParserFeed cfg grantAll base (wsEncodeAll fs)) (wsFrameRun cfg a fs) := by
  obtain ⟨o, ho, hfeed⟩ := wsParserFeed_encodeAll cfg hbase hfs [] (Or.inr hlast)
  rw [List.append_nil, (wsParserFeed_incremental cfg grantAll).andThen_nil] at hfeed
  rwa [hfeed]

variable (cfg) in
/-- A stream whose last frame is empty is run up to that frame. -/
theorem wsParserFeed_encodeAll_pending (hbase : Holds base a) {fs : List WsFrame}
    (hfs : ∀ f ∈ fs, f.Readable) (hf : f.Readable) (hempty : f.payload = []) :
    (wsParserFeed cfg grantAll base (wsEncodeAll (fs ++ [f]))).output =
        (wsFrameRun cfg a fs).output ∧
      (wsParserFeed cfg grantAll base (wsEncodeAll (fs ++ [f]))).failure =
        (wsFrameRun cfg a fs).failure := by
  obtain ⟨o, ho, hfeed⟩ := wsParserFeed_encodeAll cfg hbase hfs f.encode
    (Or.inl f.encode_ne_nil)
  rw [wsEncodeAll_append, wsEncodeAll_cons, wsEncodeAll_nil, List.append_nil, hfeed, ← ho.output,
    ← ho.failure]
  cases hfail : o.failure with
  | some e => rw [andThen_of_failure (by simp [hfail]), hfail]; exact ⟨rfl, rfl⟩
  | none =>
    obtain ⟨ctx, -, hpending⟩ := wsParserFeed_pending cfg (ho.state hfail) hf hempty
    rw [andThen_of_none hfail, hpending]
    exact ⟨List.append_nil _, rfl⟩

end AbstractHttp.WebSocket
