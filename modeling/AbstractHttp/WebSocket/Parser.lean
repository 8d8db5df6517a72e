import AbstractHttp.Library.Outcome
import AbstractHttp.WebSocket.Frame

/-!
# The WebSocket frame parser

`ws_parser_feed` is a loop around a switch on the parser state. Every state but
one consumes one byte; the payload state consumes as much of the chunk as the
frame still lacks, which is nothing for an empty payload.
-/
namespace AbstractHttp.WebSocket
open Library Outcome

/-- The build-time limit. It is far below `2 ^ 64`, so that no sum of lengths that the parser
forms wraps around. -/
structure WsConfig where
  maxFrameSize : ℕ
  maxFrameSize_lt : maxFrameSize < 2 ^ 62

/-- `C_ABSTRACT_HTTP_WS_MAX_FRAME_SIZE` as the build sets it. -/
def WsConfig.default : WsConfig := ⟨1048576, by norm_num⟩

/-- The two blocks that the parser reallocates. -/
inductive WsBlock where
  | payload
  | reassembly
  deriving DecidableEq, Repr

/-- Which requests `realloc` grants during a call, by block and new size. -/
abbrev WsRealloc := WsBlock → ℕ → Bool

/-- Reallocation that always succeeds. -/
def grantAll : WsRealloc := fun _ _ => true

inductive WsParserState where
  | readOpcode
  | readLen
  | readExtLen16
  | readExtLen64
  | readMask
  | readPayload
  deriving DecidableEq, Repr

structure WsFrameHeader where
  fin : Bool
  opcode : UInt8
  mask : Bool
  payloadLen : ℕ
  maskingKey : Memory UInt8

/-- The header after `memset`. -/
def WsFrameHeader.zero : WsFrameHeader := ⟨false, 0, false, 0, fun _ => 0⟩

/-- `struct ws_parser_ctx` without its callbacks, whose calls are the outputs. While a payload is
read, its offset stays within the announced length. -/
@[ext] structure WsParserCtx where
  state : WsParserState
  currentFrame : WsFrameHeader
  payloadBuffer : Memory UInt8
  payloadCapacity : ℕ
  payloadOffset : ℕ
  extLenOffset : ℕ
  extLenBuffer : Memory UInt8
  maskOffset : ℕ
  reassemblyBuffer : Memory UInt8
  reassemblyCapacity : ℕ
  reassemblyOffset : ℕ
  payload_le : state = .readPayload → payloadOffset ≤ currentFrame.payloadLen

/-- What `on_message` is given. -/
structure WsEvent where
  opcode : UInt8
  payload : List UInt8
  isFin : Bool
  deriving DecidableEq, Repr

inductive WsCallback where
  | onMessage (ev : WsEvent)
  | onError (code : ℤ)
  | onClose (status : ℕ)
  deriving DecidableEq, Repr

abbrev WsOutcome := Outcome WsParserCtx WsCallback ErrorCode

/-- A fresh parser; `garbage` is what the allocated block happens to hold. -/
def wsParserFresh (garbage : Memory UInt8) : WsParserCtx where
  state := .readOpcode
  currentFrame := .zero
  payloadBuffer := garbage
  payloadCapacity := 4096
  payloadOffset := 0
  extLenOffset := 0
  extLenBuffer := fun _ => 0
  maskOffset := 0
  reassemblyBuffer := garbage
  reassemblyCapacity := 0
  reassemblyOffset := 0
  payload_le := by simp

/-- `ws_parser_init`, which fails when the payload block is refused. -/
def wsParserInit (granted : Bool) (garbage : Memory UInt8) : Except ErrorCode WsParserCtx :=
  if granted then .ok (wsParserFresh garbage) else .error .nomem

/-- Report an error through `on_error` and return it. -/
def wsFail (ctx : WsParserCtx) (code : ℤ) (e : ErrorCode) : WsOutcome :=
  Outcome.fail ctx [.onError code] e

def wsReadOpcode (ctx : WsParserCtx) (b : UInt8) : WsOutcome :=
  let ctx := { ctx with
    currentFrame := { ctx.currentFrame with fin := (b >>> 7) &&& 1 == 1, opcode := b &&& 0x0F } }
  if b &&& 0x70 ≠ 0 then wsFail ctx ErrorCode.wsFraming.value .wsFraming
  else if ctx.currentFrame.fin = false ∧ ctx.currentFrame.opcode ≥ 0x08 then
    wsFail ctx ErrorCode.wsFraming.value .wsFraming
  else done { ctx with state := .readLen, payload_le := by simp }

/-- The length is known: the mask or the payload comes next. -/
def wsLengthKnown (ctx : WsParserCtx) (len : ℕ) : WsParserCtx :=
  { ctx with
    currentFrame := { ctx.currentFrame with payloadLen := len }
    state := if ctx.currentFrame.mask then .readMask else .readPayload
    payloadOffset := 0
    payload_le := fun _ => Nat.zero_le _ }

def wsReadLen (ctx : WsParserCtx) (b : UInt8) : WsOutcome :=
  let baseLen := b &&& 0x7F
  let ctx := { ctx with currentFrame := { ctx.currentFrame with mask := (b >>> 7) &&& 1 == 1 } }
  if baseLen = 126 then
    done { ctx with state := .readExtLen16, extLenOffset := 0, payload_le := by simp }
  else if baseLen = 127 then
    done { ctx with state := .readExtLen64, extLenOffset := 0, payload_le := by simp }
  else done (wsLengthKnown ctx baseLen.toNat)

/-- Store one byte of an extended length. -/
def wsStoreExtLen (ctx : WsParserCtx) (b : UInt8) : WsParserCtx :=
  { ctx with
    extLenBuffer := ctx.extLenBuffer.write ctx.extLenOffset [b]
    extLenOffset := ctx.extLenOffset + 1 }

def wsReadExtLen16 (ctx : WsParserCtx) (b : UInt8) : WsOutcome :=
  let ctx := wsStoreExtLen ctx b
  if ctx.extLenOffset = 2 then done (wsLengthKnown ctx (mathWsNtohs ctx.extLenBuffer))
  else done ctx

def wsReadExtLen64 (cfg : WsConfig) (ctx : WsParserCtx) (b : UInt8) : WsOutcome :=
  let ctx := wsStoreExtLen ctx b
  if ctx.extLenOffset = 8 then
    let ctx := wsLengthKnown ctx (mathWsNtohll ctx.extLenBuffer)
    if ctx.currentFrame.payloadLen > cfg.maxFrameSize then
      wsFail ctx ErrorCode.msgSize.value .msgSize
    else done ctx
  else done ctx

def wsReadMask (ctx : WsParserCtx) (b : UInt8) : WsOutcome :=
  let key := ctx.currentFrame.maskingKey.write ctx.maskOffset [b]
  let ctx := { ctx with
    currentFrame := { ctx.currentFrame with maskingKey := key }, maskOffset := ctx.maskOffset + 1 }
  if ctx.maskOffset = 4 then
    done { ctx with
      state := .readPayload, payloadOffset := 0, payload_le := fun _ => Nat.zero_le _ }
  else done ctx

/-- Copy the payload behind what has been reassembled. -/
def wsAppendPayload (ctx : WsParserCtx) : WsParserCtx :=
  { ctx with
    reassemblyBuffer := ctx.reassemblyBuffer.write ctx.reassemblyOffset
      (ctx.payloadBuffer.read 0 ctx.currentFrame.payloadLen)
    reassemblyOffset := ctx.reassemblyOffset + ctx.currentFrame.payloadLen }

/-- The next capacity of the reassembly block, doubled until it covers the need. -/
def wsDoubledCapacity (cap need : ℕ) : ℕ :=
  doubleUntil (if cap = 0 then 4096 else cap * 2) need

theorem le_wsDoubledCapacity (cap need : ℕ) : need ≤ wsDoubledCapacity cap need :=
  le_doubleUntil need (by split <;> omega)

theorem wsDoubledCapacity_zero (need : ℕ) : wsDoubledCapacity 0 need = doubleUntil 4096 need := by
  rw [wsDoubledCapacity, if_pos rfl]

theorem wsDoubledCapacity_pos {cap : ℕ} (h : 0 < cap) (need : ℕ) :
    wsDoubledCapacity cap need = doubleUntil (cap * 2) need := by
  rw [wsDoubledCapacity, if_neg (by omega)]

/-- A data frame without FIN joins the message being reassembled. -/
def wsStoreFragment (cfg : WsConfig) (realloc : WsRealloc) (ctx : WsParserCtx) : WsOutcome :=
  let need := ctx.reassemblyOffset + ctx.currentFrame.payloadLen
  if ctx.currentFrame.opcode ≠ WsOpcode.continuation.value ∧ ctx.reassemblyOffset > 0 then
    wsFail ctx ErrorCode.wsFraming.value .wsFraming
  else if need > ctx.reassemblyCapacity then
    let newCap := wsDoubledCapacity ctx.reassemblyCapacity need
    -- the limit is compared with the doubled capacity, not with what is needed
    if newCap > cfg.maxFrameSize then wsFail ctx ErrorCode.msgSize.value .msgSize
    else if realloc .reassembly newCap then
      done (wsAppendPayload { ctx with reassemblyCapacity := newCap })
    else wsFail ctx enomem .nomem
  else done (wsAppendPayload ctx)

/-- A fragment is refused, or stored in the block there is, or in one that has grown. -/
theorem wsStoreFragment_cases (cfg : WsConfig) (realloc : WsRealloc) (ctx : WsParserCtx) :
    (∃ code e, wsStoreFragment cfg realloc ctx = wsFail ctx code e) ∨
    (ctx.reassemblyOffset + ctx.currentFrame.payloadLen ≤ ctx.reassemblyCapacity ∧
      wsStoreFragment cfg realloc ctx = done (wsAppendPayload ctx)) ∨
    (∃ cap, cap = wsDoubledCapacity ctx.reassemblyCapacity
        (ctx.reassemblyOffset + ctx.currentFrame.payloadLen) ∧
      ctx.reassemblyCapacity < ctx.reassemblyOffset + ctx.currentFrame.payloadLen ∧
      cap ≤ cfg.maxFrameSize ∧
      wsStoreFragment cfg realloc ctx =
        done (wsAppendPayload { ctx with reassemblyCapacity := cap })) := by
  simp only [wsStoreFragment]
  split
  · exact Or.inl ⟨_, _, rfl⟩
  · split
    · rename_i hgrow
      split
      · exact Or.inl ⟨_, _, rfl⟩
      · rename_i hlimit
        split
        · exact Or.inr (Or.inr ⟨_, rfl, hgrow, not_lt.mp hlimit, rfl⟩)
        · exact Or.inl ⟨_, _, rfl⟩
    · rename_i hfits
      exact Or.inr (Or.inl ⟨not_lt.mp hfits, rfl⟩)

/-- A data frame with FIN ends the message being reassembled, or is one by itself. -/
def wsFinalFrame (realloc : WsRealloc) (ctx : WsParserCtx) : WsOutcome :=
  if ctx.reassemblyOffset > 0 then
    let need := ctx.reassemblyOffset + ctx.currentFrame.payloadLen
    if need > ctx.reassemblyCapacity ∧ realloc .reassembly need = false then
      wsFail ctx enomem .nomem
    else
      -- grows to an exact fit, without any limit
      let ctx := wsAppendPayload
        { ctx with reassemblyCapacity := max ctx.reassemblyCapacity need }
      ⟨{ ctx with reassemblyOffset := 0 },
        [.onMessage ⟨ctx.currentFrame.opcode,
          ctx.reassemblyBuffer.read 0 ctx.reassemblyOffset, true⟩], none⟩
  else
    ⟨ctx, [.onMessage ⟨ctx.currentFrame.opcode,
      ctx.payloadBuffer.read 0 ctx.currentFrame.payloadLen, true⟩], none⟩

/-- Status of a CLOSE frame: its first two payload bytes, or 1005. -/
def wsCloseStatus (ctx : WsParserCtx) : ℕ :=
  if ctx.currentFrame.payloadLen ≥ 2 then mathWsNtohs ctx.payloadBuffer else 1005

/-- What a complete frame does before the parser is reset for the next one. -/
def wsDeliver (cfg : WsConfig) (realloc : WsRealloc) (ctx : WsParserCtx) : WsOutcome :=
  if ctx.currentFrame.opcode = WsOpcode.close.value then
    ⟨ctx, [.onClose (wsCloseStatus ctx)], none⟩
  else if ctx.currentFrame.opcode = WsOpcode.ping.value ∨
      ctx.currentFrame.opcode = WsOpcode.pong.value then
    ⟨ctx, [.onMessage ⟨ctx.currentFrame.opcode,
      ctx.payloadBuffer.read 0 ctx.currentFrame.payloadLen, ctx.currentFrame.fin⟩], none⟩
  else if ctx.currentFrame.fin = false then wsStoreFragment cfg realloc ctx
  else wsFinalFrame realloc ctx

/-- Reset for the next frame. -/
def wsResetFrame (ctx : WsParserCtx) : WsParserCtx :=
  { ctx with
    state := .readOpcode
    maskOffset := 0
    extLenOffset := 0
    currentFrame := .zero
    payload_le := by simp }

def wsFrameComplete (cfg : WsConfig) (realloc : WsRealloc) (ctx : WsParserCtx) : WsOutcome :=
  (wsDeliver cfg realloc ctx).andThen fun ctx => done (wsResetFrame ctx)

/-- How many bytes of a chunk the payload state takes. -/
def wsToCopy (ctx : WsParserCtx) (available : ℕ) : ℕ :=
  min available (ctx.currentFrame.payloadLen - ctx.payloadOffset)

/-- Room for the whole payload of the frame. -/
def wsGrowPayload (ctx : WsParserCtx) : WsParserCtx :=
  { ctx with payloadCapacity := max ctx.payloadCapacity ctx.currentFrame.payloadLen }

/-- These bytes, unmasked where the frame is masked. -/
def wsPiece (ctx : WsParserCtx) (chunk : List UInt8) : List UInt8 :=
  let piece := chunk.take (wsToCopy ctx chunk.length)
  if ctx.currentFrame.mask then xorMask ctx.currentFrame.maskingKey ctx.payloadOffset piece
  else piece

/-- Copy a piece of the payload and take its mask off. -/
def wsCopyPayload (ctx : WsParserCtx) (chunk : List UInt8) : WsParserCtx :=
  { ctx with
    payloadBuffer := ctx.payloadBuffer.write ctx.payloadOffset (wsPiece ctx chunk)
    payloadOffset := ctx.payloadOffset + wsToCopy ctx chunk.length
    payload_le := fun h => by
      have hle := ctx.payload_le h
      simp only [wsToCopy]
      omega }

@[simp] theorem wsPiece_length (ctx : WsParserCtx) (chunk : List UInt8) :
    (wsPiece ctx chunk).length = wsToCopy ctx chunk.length := by
  have hle : wsToCopy ctx chunk.length ≤ chunk.length := Nat.min_le_left _ _
  unfold wsPiece
  split <;> simp [hle]

/-- The buffered payload grows by the piece. -/
theorem wsCopyPayload_read (ctx : WsParserCtx) (chunk : List UInt8) :
    (wsCopyPayload ctx chunk).payloadBuffer.read 0 (wsCopyPayload ctx chunk).payloadOffset =
      ctx.payloadBuffer.read 0 ctx.payloadOffset ++ wsPiece ctx chunk := by
  have h := Memory.read_write_extend ctx.payloadBuffer ctx.payloadOffset (wsPiece ctx chunk)
  rwa [wsPiece_length] at h

def wsReadPayload (cfg : WsConfig) (realloc : WsRealloc) (ctx : WsParserCtx)
    (chunk : List UInt8) : WsOutcome :=
  if ctx.currentFrame.payloadLen > ctx.payloadCapacity ∧
      realloc .payload ctx.currentFrame.payloadLen = false then wsFail ctx enomem .nomem
  else
    let ctx := wsCopyPayload (wsGrowPayload ctx) chunk
    if ctx.payloadOffset = ctx.currentFrame.payloadLen then wsFrameComplete cfg realloc ctx
    else done ctx

/-- One turn of the loop, with the bytes of the chunk that are still unread. -/
def wsParserIterate (cfg : WsConfig) (realloc : WsRealloc) (ctx : WsParserCtx) (b : UInt8)
    (bs : List UInt8) : WsOutcome :=
  match ctx.state with
  | .readOpcode => wsReadOpcode ctx b
  | .readLen => wsReadLen ctx b
  | .readExtLen16 => wsReadExtLen16 ctx b
  | .readExtLen64 => wsReadExtLen64 cfg ctx b
  | .readMask => wsReadMask ctx b
  | .readPayload => wsReadPayload cfg realloc ctx (b :: bs)

theorem wsParserIterate_payload {cfg : WsConfig} {realloc : WsRealloc} {ctx : WsParserCtx}
    (h : ctx.state = .readPayload) (b : UInt8) (bs : List UInt8) :
    wsParserIterate cfg realloc ctx b bs = wsReadPayload cfg realloc ctx (b :: bs) := by
  rw [wsParserIterate, h]

/-- What one turn of the loop leaves unread. -/
def wsUnread (ctx : WsParserCtx) (b : UInt8) (bs : List UInt8) : List UInt8 :=
  if ctx.state = .readPayload then (b :: bs).drop (wsToCopy ctx (bs.length + 1)) else bs

/-- Unread bytes weigh two, a payload state one: completing an empty payload is progress too. -/
def wsMeasure (ctx : WsParserCtx) (chunk : List UInt8) : ℕ :=
  2 * chunk.length + if ctx.state = .readPayload then 1 else 0

theorem wsFrameComplete_state {cfg : WsConfig} {realloc : WsRealloc} {ctx : WsParserCtx}
    (h : (wsFrameComplete cfg realloc ctx).failure = none) :
    (wsFrameComplete cfg realloc ctx).state.state = .readOpcode := by
  rw [wsFrameComplete, andThen_failure_none] at h
  rw [wsFrameComplete, andThen_of_none h.1]
  rfl

/-- With nothing to copy, a payload turn completes the frame. -/
theorem wsReadPayload_state_of_full {cfg : WsConfig} {realloc : WsRealloc} {ctx : WsParserCtx}
    {chunk : List UInt8}
    (hfull : ctx.payloadOffset + wsToCopy ctx chunk.length = ctx.currentFrame.payloadLen)
    (hok : (wsReadPayload cfg realloc ctx chunk).failure = none) :
    (wsReadPayload cfg realloc ctx chunk).state.state = .readOpcode := by
  unfold wsReadPayload at hok ⊢
  split at hok
  · cases hok
  · rename_i hgrant
    have hoff : (wsCopyPayload (wsGrowPayload ctx) chunk).payloadOffset =
        (wsCopyPayload (wsGrowPayload ctx) chunk).currentFrame.payloadLen := hfull
    rw [if_pos hoff] at hok
    rw [if_neg hgrant, if_pos hoff]
    exact wsFrameComplete_state hok

/-- Every turn of the loop that does not fail makes progress. -/
theorem wsParserIterate_progress (cfg : WsConfig) (realloc : WsRealloc) (ctx : WsParserCtx)
    (b : UInt8) (bs : List UInt8)
    (hok : (wsParserIterate cfg realloc ctx b bs).failure = none) :
    wsMeasure (wsParserIterate cfg realloc ctx b bs).state (wsUnread ctx b bs) <
      wsMeasure ctx (b :: bs) := by
  by_cases hs : ctx.state = .readPayload
  · have hle := ctx.payload_le hs
    rw [wsParserIterate_payload hs] at hok ⊢
    simp only [wsMeasure, wsUnread, if_pos hs, List.length_drop, List.length_cons]
    by_cases hzero : wsToCopy ctx (bs.length + 1) = 0
    · -- the payload is empty, so the frame is complete and the state moves on
      have hfull : ctx.payloadOffset + wsToCopy ctx (b :: bs).length =
          ctx.currentFrame.payloadLen := by
        rw [List.length_cons, hzero]
        simp only [wsToCopy] at hzero
        omega
      rw [hzero, wsReadPayload_state_of_full hfull hok]
      simp
    · split <;> omega
  · simp only [wsMeasure, wsUnread, if_neg hs, List.length_cons]
    split <;> omega

/-- `ws_parser_feed` on the bytes of a chunk. -/
def wsParserFeed (cfg : WsConfig) (realloc : WsRealloc) (ctx : WsParserCtx) :
    List UInt8 → WsOutcome
  | [] => done ctx
  | b :: bs =>
    match _hok : (wsParserIterate cfg realloc ctx b bs).failure with
    | some _ => wsParserIterate cfg realloc ctx b bs
    | none =>
      let rest := wsParserFeed cfg realloc (wsParserIterate cfg realloc ctx b bs).state
        (wsUnread ctx b bs)
      ⟨rest.state, (wsParserIterate cfg realloc ctx b bs).output ++ rest.output, rest.failure⟩
termination_by chunk => wsMeasure ctx chunk
decreasing_by exact wsParserIterate_progress cfg realloc ctx b bs _hok

theorem wsParserFeed_nil (cfg : WsConfig) (realloc : WsRealloc) (ctx : WsParserCtx) :
    wsParserFeed cfg realloc ctx [] = done ctx := by
  rw [wsParserFeed]

theorem wsParserFeed_cons (cfg : WsConfig) (realloc : WsRealloc) (ctx : WsParserCtx) (b : UInt8)
    (bs : List UInt8) :
    wsParserFeed cfg realloc ctx (b :: bs) = (wsParserIterate cfg realloc ctx b bs).andThen
      fun ctx' => wsParserFeed cfg realloc ctx' (wsUnread ctx b bs) := by
  rw [wsParserFeed]
  split
  · rename_i e hfail
    rw [andThen_of_failure (by simp [hfail])]
  · rename_i hok
    rw [andThen_of_none hok]

/-- What every turn of the loop preserves unless it fails, a call preserves unless it fails. -/
theorem wsParserFeed_induction {cfg : WsConfig} {realloc : WsRealloc} {P : WsParserCtx → Prop}
    (hstep : ∀ ctx b bs, P ctx → (wsParserIterate cfg realloc ctx b bs).failure = none →
      P (wsParserIterate cfg realloc ctx b bs).state)
    {ctx : WsParserCtx} (h : P ctx) {chunk : List UInt8}
    (hok : (wsParserFeed cfg realloc ctx chunk).failure = none) :
    P (wsParserFeed cfg realloc ctx chunk).state := by
  induction hm : wsMeasure ctx chunk using Nat.strong_induction_on generalizing ctx chunk with
  | _ m ih =>
    subst hm
    match chunk with
    | [] => rwa [wsParserFeed_nil]
    | b :: bs =>
      rw [wsParserFeed_cons, andThen_failure_none] at hok
      rw [wsParserFeed_cons, andThen_of_none hok.1]
      exact ih _ (wsParserIterate_progress cfg realloc ctx b bs hok.1) (hstep ctx b bs h hok.1)
        hok.2 rfl

end AbstractHttp.WebSocket
