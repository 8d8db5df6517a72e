import AbstractHttp.ErrorCode
import AbstractHttp.Library.Bytes

/-!
# WebSocket frames on the wire

The packers of `http_ws.c` and the frames they write.  A network-order integer
is given by its bytes in memory order, which is all that the code copies.
-/
namespace AbstractHttp.WebSocket
open Library

/-- The opcodes the library names. A parsed header holds any four-bit value. -/
inductive WsOpcode where
  | continuation
  | text
  | binary
  | close
  | ping
  | pong
  deriving DecidableEq, Repr

def WsOpcode.value : WsOpcode → UInt8
  | .continuation => 0x0
  | .text => 0x1
  | .binary => 0x2
  | .close => 0x8
  | .ping => 0x9
  | .pong => 0xA

theorem WsOpcode.value_injective : Function.Injective WsOpcode.value := by
  intro a b h
  cases a <;> cases b <;> first | rfl | cases h

def mathWsHtons (hostshort : ℕ) : List UInt8 :=
  [UInt8.ofNat (hostshort >>> 8), UInt8.ofNat (hostshort &&& 0xFF)]

def mathWsHtonll (hostqword : ℕ) : List UInt8 :=
  [UInt8.ofNat (hostqword >>> 56 &&& 0xFF), UInt8.ofNat (hostqword >>> 48 &&& 0xFF),
    UInt8.ofNat (hostqword >>> 40 &&& 0xFF), UInt8.ofNat (hostqword >>> 32 &&& 0xFF),
    UInt8.ofNat (hostqword >>> 24 &&& 0xFF), UInt8.ofNat (hostqword >>> 16 &&& 0xFF),
    UInt8.ofNat (hostqword >>> 8 &&& 0xFF), UInt8.ofNat (hostqword &&& 0xFF)]

def mathWsNtohs (p : Memory UInt8) : ℕ := (p 0).toNat <<< 8 ||| (p 1).toNat

def mathWsNtohll (p : Memory UInt8) : ℕ :=
  (p 0).toNat <<< 56 ||| (p 1).toNat <<< 48 ||| (p 2).toNat <<< 40 ||| (p 3).toNat <<< 32 |||
    (p 4).toNat <<< 24 ||| (p 5).toNat <<< 16 ||| (p 6).toNat <<< 8 ||| (p 7).toNat

theorem and_255 (b : UInt8) : b &&& 255 = b := UInt8.and_neg_one

theorem mathWsHtons_eq (n : ℕ) : mathWsHtons n = toBigEndian 2 n := by
  simp [mathWsHtons, toBigEndian, and_255, Nat.shiftRight_eq_div_pow]

theorem mathWsHtonll_eq (n : ℕ) : mathWsHtonll n = toBigEndian 8 n := by
  simp [mathWsHtonll, toBigEndian, and_255, Nat.shiftRight_eq_div_pow, Nat.div_div_eq_div_mul]

theorem mathWsNtohs_eq (p : Memory UInt8) : mathWsNtohs p = ofBigEndian (p.read 0 2) := by
  have h1 := (p 1).toNat_lt
  rw [mathWsNtohs, shiftLeft_or h1]
  simp [ofBigEndian, Memory.read, List.range_succ]

/-- The chain of shifts is the big-endian value, since each byte stays below the next shift. -/
theorem mathWsNtohll_eq (p : Memory UInt8) : mathWsNtohll p = ofBigEndian (p.read 0 8) := by
  have h (i : ℕ) : (p i).toNat < 256 := (p i).toNat_lt
  have h1 := h 1; have h2 := h 2; have h3 := h 3; have h4 := h 4
  have h5 := h 5; have h6 := h 6; have h7 := h 7
  simp only [mathWsNtohll, Nat.or_assoc]
  rw [shiftLeft_or (k := 8) (b := (p 7).toNat) (by omega),
    shiftLeft_or (k := 16) (by omega), shiftLeft_or (k := 24) (by omega),
    shiftLeft_or (k := 32) (by omega), shiftLeft_or (k := 40) (by omega),
    shiftLeft_or (k := 48) (by omega), shiftLeft_or (k := 56) (by omega)]
  simp only [ofBigEndian, Memory.read, List.range_succ, List.range_zero, List.nil_append,
    List.map_append, List.map_cons, List.map_nil, List.foldl_append, List.foldl_cons,
    List.foldl_nil, Nat.zero_add]
  ring

/-- `ws_apply_mask` on a payload and a four-byte key. -/
def wsApplyMask (payload : List UInt8) (maskKey : Memory UInt8) : List UInt8 :=
  xorMask maskKey 0 payload

/-- First header byte: the FIN bit and the low four bits of the opcode. -/
def wsFirstByte (fin : Bool) (opcode : UInt8) : UInt8 :=
  (if fin then 0x80 else 0x00) ||| (opcode &&& 0x0F)

/-- Second header byte: the mask bit and a seven-bit length or length form. -/
def wsSecondByte (mask : Bool) (len7 : UInt8) : UInt8 := (if mask then 0x80 else 0x00) ||| len7

def wsPackHeaderSmall (fin : Bool) (opcode : UInt8) (mask : Bool) (len : ℕ) :
    Except ErrorCode (List UInt8) :=
  if len > 125 then .error .inval
  else .ok [wsFirstByte fin opcode, wsSecondByte mask (UInt8.ofNat (len &&& 0x7F))]

def wsPackHeaderMedium (fin : Bool) (opcode : UInt8) (mask : Bool) (len : ℕ) :
    Except ErrorCode (List UInt8) :=
  if len ≤ 125 ∨ len > 65535 then .error .inval
  else .ok ([wsFirstByte fin opcode, wsSecondByte mask 126] ++ mathWsHtons len)

def wsPackHeaderLarge (fin : Bool) (opcode : UInt8) (mask : Bool) (len : ℕ) :
    Except ErrorCode (List UInt8) :=
  if len ≤ 65535 then .error .inval
  else .ok ([wsFirstByte fin opcode, wsSecondByte mask 127] ++ mathWsHtonll len)

/-- The packer that `c_abstract_http_ws_send` picks for a length. -/
def wsPackHeader (fin : Bool) (opcode : UInt8) (mask : Bool) (len : ℕ) :
    Except ErrorCode (List UInt8) :=
  if len ≤ 125 then wsPackHeaderSmall fin opcode mask len
  else if len ≤ 65535 then wsPackHeaderMedium fin opcode mask len
  else wsPackHeaderLarge fin opcode mask len

/-- A frame as RFC 6455 sees it: masked when it has a masking key. -/
structure WsFrame where
  fin : Bool
  opcode : WsOpcode
  maskKey : Option (Memory UInt8)
  payload : List UInt8

namespace WsFrame

/-- The length field: seven bits, or one of the two extended forms behind its marker. -/
def lenField (f : WsFrame) : List UInt8 :=
  if f.payload.length ≤ 125 then [wsSecondByte f.maskKey.isSome (UInt8.ofNat f.payload.length)]
  else if f.payload.length ≤ 65535 then
    wsSecondByte f.maskKey.isSome 126 :: toBigEndian 2 f.payload.length
  else wsSecondByte f.maskKey.isSome 127 :: toBigEndian 8 f.payload.length

/-- The masking key, if there is one. -/
def keyField (f : WsFrame) : List UInt8 :=
  match f.maskKey with
  | none => []
  | some key => key.read 0 4

/-- The payload as it travels. -/
def body (f : WsFrame) : List UInt8 :=
  match f.maskKey with
  | none => f.payload
  | some key => xorMask key 0 f.payload

/-- Everything in front of the payload. -/
def header (f : WsFrame) : List UInt8 :=
  wsFirstByte f.fin f.opcode.value :: (f.lenField ++ f.keyField)

def encode (f : WsFrame) : List UInt8 := f.header ++ f.body

@[simp] theorem body_length (f : WsFrame) : f.body.length = f.payload.length := by
  unfold body
  split <;> simp

theorem body_ne_nil {f : WsFrame} (h : f.payload ≠ []) : f.body ≠ [] := by
  rw [← List.length_pos_iff] at h ⊢
  rwa [body_length]

def isControl (f : WsFrame) : Bool := f.opcode ∈ [.close, .ping, .pong]

/-- A control frame is not fragmented, and no length reaches bit 63. -/
@[mk_iff] structure Readable (f : WsFrame) : Prop where
  control_fin : f.opcode ∈ [.close, .ping, .pong] → f.fin = true
  length : f.payload.length < 2 ^ 63

/-- A control frame is not long either. -/
@[mk_iff] structure WellFormed (f : WsFrame) : Prop extends f.Readable where
  control_length : f.opcode ∈ [.close, .ping, .pong] → f.payload.length ≤ 125

end WsFrame

/-- The wire form of a list of frames. -/
def wsEncodeAll (fs : List WsFrame) : List UInt8 := fs.flatMap WsFrame.encode

@[simp] theorem wsEncodeAll_nil : wsEncodeAll [] = [] := rfl

@[simp] theorem wsEncodeAll_cons (f : WsFrame) (fs : List WsFrame) :
    wsEncodeAll (f :: fs) = f.encode ++ wsEncodeAll fs := rfl

@[simp] theorem wsEncodeAll_append (fs gs : List WsFrame) :
    wsEncodeAll (fs ++ gs) = wsEncodeAll fs ++ wsEncodeAll gs := List.flatMap_append

/-- Each length is in the range that the picked packer checks, so packing never fails. -/
theorem wsPackHeader_eq (f : WsFrame) :
    wsPackHeader f.fin f.opcode.value f.maskKey.isSome f.payload.length =
      .ok (wsFirstByte f.fin f.opcode.value :: f.lenField) := by
  unfold wsPackHeader WsFrame.lenField
  by_cases hsmall : f.payload.length ≤ 125
  · have hand : f.payload.length &&& 0x7F = f.payload.length := by
      rw [show 0x7F = 2 ^ 7 - 1 from rfl, Nat.and_two_pow_sub_one_eq_mod]
      exact Nat.mod_eq_of_lt (by omega)
    rw [if_pos hsmall, if_pos hsmall, wsPackHeaderSmall, if_neg (by omega), hand]
  · by_cases hmedium : f.payload.length ≤ 65535
    · rw [if_neg hsmall, if_pos hmedium, if_neg hsmall, if_pos hmedium, wsPackHeaderMedium,
        if_neg (by omega), mathWsHtons_eq]
      rfl
    · rw [if_neg hsmall, if_neg hmedium, if_neg hsmall, if_neg hmedium, wsPackHeaderLarge,
        if_neg hmedium, mathWsHtonll_eq]
      rfl

/-- Header, key and masked payload, as a sender has them when it takes the lock. -/
structure WsPrepared where
  header : List UInt8
  maskKey : List UInt8
  maskedPayload : List UInt8
  maskKey_length : maskKey.length = 4

def WsPrepared.bytes (p : WsPrepared) : List UInt8 := p.header ++ p.maskKey ++ p.maskedPayload

/-- `c_abstract_http_ws_send` up to the lock: the masking key is the one generated, the copy of
the payload is masked, and the header announces a final masked frame. -/
def wsSendPrepare (opcode : WsOpcode) (payload : List UInt8) (maskKey : Memory UInt8) :
    Except ErrorCode WsPrepared := do
  let masked := if payload.length > 0 then wsApplyMask payload maskKey else []
  let header ← wsPackHeader true opcode.value true payload.length
  return ⟨header, maskKey.read 0 4, masked, Memory.read_length maskKey 0 4⟩

/-- The frame that a send puts on the wire. -/
def wsSentFrame (opcode : WsOpcode) (payload : List UInt8) (maskKey : Memory UInt8) : WsFrame :=
  ⟨true, opcode, some maskKey, payload⟩

/-- A sender prepares exactly the encoding of a final masked frame. -/
theorem wsSendPrepare_eq (opcode : WsOpcode) (payload : List UInt8) (maskKey : Memory UInt8) :
    ∃ p, wsSendPrepare opcode payload maskKey = .ok p ∧
      p.bytes = (wsSentFrame opcode payload maskKey).encode := by
  have hheader := wsPackHeader_eq (wsSentFrame opcode payload maskKey)
  simp only [wsSentFrame, Option.isSome_some] at hheader
  have hbody : (if payload.length > 0 then wsApplyMask payload maskKey else []) =
      xorMask maskKey 0 payload := by
    cases payload <;> rfl
  refine ⟨_, by rw [wsSendPrepare, hheader]; rfl, ?_⟩
  simp [WsPrepared.bytes, WsFrame.encode, WsFrame.header, WsFrame.keyField, WsFrame.body,
    wsSentFrame, hbody]

end AbstractHttp.WebSocket
