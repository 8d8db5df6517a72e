import AbstractHttp.Library.While
import AbstractHttp.WebSocket.Parser

/-!
# The parser on machine integers

`ws_parser_feed` once more, statement by statement: sizes are cut to 64 bits, the
loops run with fuel and nothing is known of the fields of a context.  Every access
to an array is recorded beside the callbacks, with the offsets and lengths that it
uses and the size of the array at that moment.
-/
namespace AbstractHttp.WebSocket
open Library Outcome

/-- The value of a sum or product of type `size_t`. -/
def wsSize (n : ℕ) : ℕ := n % 2 ^ 64

/-- The difference of two values of type `size_t`. -/
def wsSizeSub (a b : ℕ) : ℕ := (a + (2 ^ 64 - b)) % 2 ^ 64

/-- `struct ws_parser_ctx`, of which nothing is known. -/
structure MachineCtx where
  state : WsParserState
  currentFrame : WsFrameHeader
  payloadBuffer : Memory UInt8
  payloadCapacity : ℕ
  payloadOffset : ℕ
  extLenOffset : ℕ
  extLenBuffer : Memory UInt8
  maskOffset : ℕ
  reassemblyBuffer : Memory UInt8
  reassemblyCapacity : ℕ
  reassemblyOffset : ℕ

/-- The arrays of the parser, and where and how far they are read or written. A copy of payload is
given with the length of the frame and the size of the block. -/
inductive WsAccess where
  | chunk (start count len : ℕ)
  | extLenBuffer (offset : ℕ)
  | maskingKey (offset : ℕ)
  | payloadCopy (offset toCopy payloadLen capacity : ℕ)
  | payloadRead (count capacity : ℕ)
  | reassemblyCopy (offset count capacity : ℕ)
  deriving DecidableEq, Repr

/-- The access stays in its array, and a copy of payload in its frame. -/
def WsAccess.InBounds : WsAccess → Prop
  | .chunk start count len => start + count ≤ len
  | .extLenBuffer offset => offset < 8
  | .maskingKey offset => offset < 4
  | .payloadCopy offset toCopy payloadLen capacity =>
    offset + toCopy ≤ payloadLen ∧ payloadLen ≤ capacity
  | .payloadRead count capacity => count ≤ capacity
  | .reassemblyCopy offset count capacity => offset + count ≤ capacity

inductive WsEffect where
  | callback (w : WsCallback)
  | access (a : WsAccess)
  deriving DecidableEq, Repr

abbrev MachineOutcome := Outcome MachineCtx WsEffect ErrorCode

/-- What a turn of the loop leaves: the context and the index `i` into the chunk. -/
abbrev TurnOutcome := Outcome (MachineCtx × ℕ) WsEffect ErrorCode

/-- Report an error through `on_error` and return it. -/
def machineFail {σ : Type} (s : σ) (effects : List WsEffect) (code : ℤ) (e : ErrorCode) :
    Outcome σ WsEffect ErrorCode :=
  Outcome.fail s (effects ++ [.callback (.onError code)]) e

section Header
variable (chunk : List UInt8) (m : MachineCtx) (i : ℕ)

/-- The read of `chunk[i]`. -/
def chunkRead : WsEffect := .access (.chunk i 1 chunk.length)

def machineReadOpcode : TurnOutcome :=
  let b := chunk.getD i 0
  let m := { m with
    currentFrame := { m.currentFrame with fin := (b >>> 7) &&& 1 == 1, opcode := b &&& 0x0F } }
  if b &&& 0x70 ≠ 0 then
    machineFail (m, wsSize (i + 1)) [chunkRead chunk i] ErrorCode.wsFraming.value .wsFraming
  else if m.currentFrame.fin = false ∧ m.currentFrame.opcode ≥ 0x08 then
    machineFail (m, wsSize (i + 1)) [chunkRead chunk i] ErrorCode.wsFraming.value .wsFraming
  else ⟨({ m with state := .readLen }, wsSize (i + 1)), [chunkRead chunk i], none⟩

/-- The length is known: the mask or the payload comes next. -/
def machineLengthKnown (len : ℕ) : MachineCtx :=
  { m with
    currentFrame := { m.currentFrame with payloadLen := len }
    state := if m.currentFrame.mask then .readMask else .readPayload
    payloadOffset := 0 }

def machineReadLen : TurnOutcome :=
  let b := chunk.getD i 0
  let baseLen := b &&& 0x7F
  let m := { m with currentFrame := { m.currentFrame with mask := (b >>> 7) &&& 1 == 1 } }
  let m :=
    if baseLen = 126 then { m with state := .readExtLen16, extLenOffset := 0 }
    else if baseLen = 127 then { m with state := .readExtLen64, extLenOffset := 0 }
    else machineLengthKnown m baseLen.toNat
  ⟨(m, wsSize (i + 1)), [chunkRead chunk i], none⟩

/-- Store one byte of an extended length. -/
def machineStoreExtLen : MachineCtx :=
  { m with
    extLenBuffer := m.extLenBuffer.write m.extLenOffset [chunk.getD i 0]
    extLenOffset := wsSize (m.extLenOffset + 1) }

/-- The read of the byte and its store. -/
def extLenEffects : List WsEffect := [chunkRead chunk i, .access (.extLenBuffer m.extLenOffset)]

def machineReadExtLen16 : TurnOutcome :=
  let stored := machineStoreExtLen chunk m i
  let known :=
    if stored.extLenOffset = 2 then machineLengthKnown stored (mathWsNtohs stored.extLenBuffer)
    else stored
  ⟨(known, wsSize (i + 1)), extLenEffects chunk m i, none⟩

def machineReadExtLen64 (cfg : WsConfig) : TurnOutcome :=
  let stored := machineStoreExtLen chunk m i
  if stored.extLenOffset = 8 then
    let known := machineLengthKnown stored (mathWsNtohll stored.extLenBuffer)
    if known.currentFrame.payloadLen > cfg.maxFrameSize then
      machineFail (known, wsSize (i + 1)) (extLenEffects chunk m i) ErrorCode.msgSize.value
        .msgSize
    else ⟨(known, wsSize (i + 1)), extLenEffects chunk m i, none⟩
  else ⟨(stored, wsSize (i + 1)), extLenEffects chunk m i, none⟩

/-- `mask_offset` is one byte wide. -/
def machineReadMask : TurnOutcome :=
  let key := m.currentFrame.maskingKey.write m.maskOffset [chunk.getD i 0]
  let stored := { m with
    currentFrame := { m.currentFrame with maskingKey := key }
    maskOffset := (m.maskOffset + 1) % 2 ^ 8 }
  let next :=
    if stored.maskOffset = 4 then { stored with state := .readPayload, payloadOffset := 0 }
    else stored
  ⟨(next, wsSize (i + 1)), [chunkRead chunk i, .access (.maskingKey m.maskOffset)], none⟩

end Header

section Payload
variable (cfg : WsConfig) (realloc : WsRealloc) (fuel : ℕ) (m : MachineCtx)

/-- `reassembly_offset + payload_len`. -/
def machineNeed : ℕ := wsSize (m.reassemblyOffset + m.currentFrame.payloadLen)

/-- The doubling of `new_cap` until it covers the need, which may not end. -/
def machineDouble : Option ℕ :=
  whileFuel (fun newCap => decide (newCap < machineNeed m))
    (fun newCap => some (wsSize (newCap * 2))) fuel
    (if m.reassemblyCapacity = 0 then 4096 else wsSize (m.reassemblyCapacity * 2))

/-- Copy the payload behind what has been reassembled. -/
def machineAppendPayload : MachineOutcome :=
  let len := m.currentFrame.payloadLen
  ⟨{ m with
      reassemblyBuffer := m.reassemblyBuffer.write m.reassemblyOffset
        (m.payloadBuffer.read 0 len)
      reassemblyOffset := machineNeed m },
    [.access (.payloadRead len m.payloadCapacity),
      .access (.reassemblyCopy m.reassemblyOffset len m.reassemblyCapacity)], none⟩

def machineStoreFragment : Option MachineOutcome :=
  if m.currentFrame.opcode ≠ WsOpcode.continuation.value ∧ m.reassemblyOffset > 0 then
    some (machineFail m [] ErrorCode.wsFraming.value .wsFraming)
  else if machineNeed m > m.reassemblyCapacity then
    (machineDouble fuel m).map fun newCap =>
      if newCap > cfg.maxFrameSize then machineFail m [] ErrorCode.msgSize.value .msgSize
      else if realloc .reassembly newCap then
        machineAppendPayload { m with reassemblyCapacity := newCap }
      else machineFail m [] enomem .nomem
  else some (machineAppendPayload m)

def machineFinalFrame : MachineOutcome :=
  if m.reassemblyOffset > 0 then
    if machineNeed m > m.reassemblyCapacity ∧ realloc .reassembly (machineNeed m) = false then
      machineFail m [] enomem .nomem
    else
      (machineAppendPayload { m with
        reassemblyCapacity :=
          if machineNeed m > m.reassemblyCapacity then machineNeed m
          else m.reassemblyCapacity }).andThen fun m =>
        ⟨{ m with reassemblyOffset := 0 },
          [.callback (.onMessage ⟨m.currentFrame.opcode,
            m.reassemblyBuffer.read 0 m.reassemblyOffset, true⟩)], none⟩
  else
    ⟨m, [.callback (.onMessage ⟨m.currentFrame.opcode,
      m.payloadBuffer.read 0 m.currentFrame.payloadLen, true⟩)], none⟩

/-- The status of a CLOSE frame is read from its payload if that has two bytes. -/
def machineClose : MachineOutcome :=
  if m.currentFrame.payloadLen ≥ 2 then
    ⟨m, [.access (.payloadRead 2 m.payloadCapacity),
      .callback (.onClose (mathWsNtohs m.payloadBuffer))], none⟩
  else ⟨m, [.callback (.onClose 1005)], none⟩

def machineDeliver : Option MachineOutcome :=
  if m.currentFrame.opcode = WsOpcode.close.value then some (machineClose m)
  else if m.currentFrame.opcode = WsOpcode.ping.value ∨
      m.currentFrame.opcode = WsOpcode.pong.value then
    some ⟨m, [.callback (.onMessage ⟨m.currentFrame.opcode,
      m.payloadBuffer.read 0 m.currentFrame.payloadLen, m.currentFrame.fin⟩)], none⟩
  else if m.currentFrame.fin = false then machineStoreFragment cfg realloc fuel m
  else some (machineFinalFrame realloc m)

/-- Reset for the next frame. -/
def machineResetFrame : MachineCtx :=
  { m with state := .readOpcode, maskOffset := 0, extLenOffset := 0, currentFrame := .zero }

def machineFrameComplete : Option MachineOutcome :=
  (machineDeliver cfg realloc fuel m).map fun o => o.andThen fun m => done (machineResetFrame m)

variable (chunk : List UInt8) (i : ℕ)

/-- `to_copy`: what is left of the chunk or of the payload, whichever is less. -/
def machineToCopy : ℕ :=
  let remaining := wsSizeSub m.currentFrame.payloadLen m.payloadOffset
  let available := wsSizeSub chunk.length i
  if available < remaining then available else remaining

/-- Room for the whole payload of the frame. -/
def machineGrowPayload : MachineCtx :=
  if m.currentFrame.payloadLen > m.payloadCapacity then
    { m with payloadCapacity := m.currentFrame.payloadLen }
  else m

/-- The copy into the payload block and the unmasking in place. -/
def machineCopyPayload : MachineCtx :=
  let piece := (chunk.drop i).take (machineToCopy m chunk i)
  { m with
    payloadBuffer := m.payloadBuffer.write m.payloadOffset
      (if m.currentFrame.mask then xorMask m.currentFrame.maskingKey m.payloadOffset piece
        else piece)
    payloadOffset := wsSize (m.payloadOffset + machineToCopy m chunk i) }

/-- What the copy reads and writes; the unmasking stays in the cells that it has written. -/
def copyEffects : List WsEffect :=
  [.access (.chunk i (machineToCopy m chunk i) chunk.length),
    .access (.payloadCopy m.payloadOffset (machineToCopy m chunk i) m.currentFrame.payloadLen
      m.payloadCapacity)]

def machineReadPayload : Option TurnOutcome :=
  if m.currentFrame.payloadLen > m.payloadCapacity ∧
      realloc .payload m.currentFrame.payloadLen = false then
    some (machineFail (m, i) [] enomem .nomem)
  else
    let grown := machineGrowPayload m
    let copied := machineCopyPayload grown chunk i
    let next := wsSize (i + machineToCopy grown chunk i)
    let effects := copyEffects grown chunk i
    if copied.payloadOffset = copied.currentFrame.payloadLen then
      (machineFrameComplete cfg realloc fuel copied).map fun o =>
        ⟨(o.state, next), effects ++ o.output, o.failure⟩
    else some ⟨(copied, next), effects, none⟩

end Payload

section Calls
variable (cfg : WsConfig) (realloc : WsRealloc) (fuel : ℕ) (chunk : List UInt8)

/-- One turn of the loop around the switch. -/
def machineTurn (s : MachineCtx × ℕ) : Option TurnOutcome :=
  match s.1.state with
  | .readOpcode => some (machineReadOpcode chunk s.1 s.2)
  | .readLen => some (machineReadLen chunk s.1 s.2)
  | .readExtLen16 => some (machineReadExtLen16 chunk s.1 s.2)
  | .readExtLen64 => some (machineReadExtLen64 chunk s.1 s.2 cfg)
  | .readMask => some (machineReadMask chunk s.1 s.2)
  | .readPayload => machineReadPayload cfg realloc fuel s.1 chunk s.2

/-- The loop, which an error leaves. -/
def machineLoop (m : MachineCtx) : Option TurnOutcome :=
  whileFuel (fun o => o.failure.isNone && decide (o.state.2 < chunk.length))
    (fun o => (machineTurn cfg realloc fuel chunk o.state).map fun t => o.andThen fun _ => t)
    fuel (done (m, 0))

end Calls

/-- A call of `ws_parser_feed` with a chunk, or with NULL and a positive length. During the call
`realloc` may refuse any request, and it refuses those of `2 ^ 48` bytes or more. -/
structure WsFeedCall where
  chunk : Option (List UInt8)
  length_lt : ∀ bs ∈ chunk, bs.length < 2 ^ 64
  realloc : WsRealloc
  refuses : ∀ block n, 2 ^ 48 ≤ n → realloc block n = false

/-- `ws_parser_feed`; `none` when the fuel is used up. -/
def machineFeed (cfg : WsConfig) (fuel : ℕ) (call : WsFeedCall) (m : MachineCtx) :
    Option MachineOutcome :=
  match call.chunk with
  | none => some (Outcome.fail m [] .inval)
  | some chunk =>
    (machineLoop cfg call.realloc fuel chunk m).map fun o => ⟨o.state.1, o.output, o.failure⟩

/-- Successive calls on one parser, which go on after calls that return an error. -/
def machineCalls (cfg : WsConfig) (fuel : ℕ) :
    MachineCtx → List WsFeedCall → Option (MachineCtx × List WsEffect)
  | m, [] => some (m, [])
  | m, call :: calls =>
    (machineFeed cfg fuel call m).bind fun o =>
      (machineCalls cfg fuel o.state calls).map fun run => (run.1, o.output ++ run.2)

/-- A context as the machine holds it. -/
@[simps] def WsParserCtx.machine (ctx : WsParserCtx) : MachineCtx where
  state := ctx.state
  currentFrame := ctx.currentFrame
  payloadBuffer := ctx.payloadBuffer
  payloadCapacity := ctx.payloadCapacity
  payloadOffset := ctx.payloadOffset
  extLenOffset := ctx.extLenOffset
  extLenBuffer := ctx.extLenBuffer
  maskOffset := ctx.maskOffset
  reassemblyBuffer := ctx.reassemblyBuffer
  reassemblyCapacity := ctx.reassemblyCapacity
  reassemblyOffset := ctx.reassemblyOffset

end AbstractHttp.WebSocket
