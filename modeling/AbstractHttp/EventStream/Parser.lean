import AbstractHttp.ErrorCode
import AbstractHttp.EventStream.Format
import AbstractHttp.Library.Memory
import AbstractHttp.Library.Outcome

/-!
# The event stream parser

`sse_parser_feed` reads bytes into a line buffer and hands every line that LF
ends to `sse_process_line`; CR is dropped wherever it stands. The stores into the
two growing blocks are outputs, and one that falls outside its block is lost.
-/
namespace AbstractHttp.EventStream
open Library Outcome

/-- The build-time limit. It is far below `2 ^ 64`, so that no sum of lengths that the parser
forms wraps around. -/
structure SseBuild where
  maxLineSize : ℕ
  maxLineSize_lt : maxLineSize < 2 ^ 62

/-- `C_ABSTRACT_HTTP_SSE_MAX_LINE_SIZE` as the build sets it. -/
def SseBuild.default : SseBuild := ⟨32768, by norm_num⟩

/-- What the parser allocates. -/
inductive SseBlock where
  | line
  | data
  | event
  | id
  deriving DecidableEq, Repr

/-- Which requests `malloc` and `realloc` grant during a call, by block and size. -/
abbrev SseAlloc := SseBlock → ℕ → Bool

/-- Allocation that always succeeds. -/
def grantAll : SseAlloc := fun _ _ => true

def messageType : List UInt8 := asciiBytes ['m', 'e', 's', 's', 'a', 'g', 'e']

/-- The C string in a block: its bytes up to the first NUL. -/
def cString (bytes : List UInt8) : List UInt8 := bytes.takeWhile (· ≠ 0)

/-- `struct c_abstract_http_sse_config`. -/
structure SseConfig where
  lastEventId : Option (List UInt8)
  retryTimeoutMs : ℤ

/-- `struct sse_parser_ctx` without its callbacks, whose calls are outputs. The event type and the
id are given by the bytes of their blocks before the NUL at the end, and by `none` for NULL. -/
structure SseParserCtx where
  lineBuffer : Memory UInt8
  lineCapacity : ℕ
  lineOffset : ℕ
  currentEvent : Option (List UInt8)
  currentData : Memory UInt8
  dataCapacity : ℕ
  dataOffset : ℕ
  lastEventId : Option (List UInt8)
  retryMs : ℤ

/-- What `on_event` is given: two C strings and `data_len` bytes. -/
structure SseEvent where
  id : Option (List UInt8)
  event : Option (List UInt8)
  data : List UInt8
  deriving DecidableEq, Repr

inductive SseEffect where
  | onEvent (ev : SseEvent)
  | onError (code : ℤ)
  | stored (block : SseBlock) (extent : Extent)
  deriving DecidableEq, Repr

abbrev SseOutcome := Outcome SseParserCtx SseEffect ErrorCode

/-- A fresh parser; `garbage` is what an allocated block happens to hold. -/
def sseParserFresh (config : Option SseConfig) (garbage : SseBlock → Memory UInt8) :
    SseParserCtx where
  lineBuffer := garbage .line
  lineCapacity := 1024
  lineOffset := 0
  currentEvent := some messageType
  currentData := garbage .data
  dataCapacity := 4096
  dataOffset := 0
  lastEventId := (config.bind SseConfig.lastEventId).map cString
  retryMs := match config with
    | some config => if config.retryTimeoutMs > 0 then config.retryTimeoutMs else 3000
    | none => 3000

/-- `sse_parser_init`, which fails when one of its blocks is refused. -/
def sseParserInit (alloc : SseAlloc) (config : Option SseConfig)
    (garbage : SseBlock → Memory UInt8) : Except ErrorCode SseParserCtx :=
  if alloc .line 1024 = false then .error .nomem
  else if alloc .data 4096 = false then .error .nomem
  else if alloc .event (messageType.length + 1) = false then .error .nomem
  else match config.bind SseConfig.lastEventId with
    | none => .ok (sseParserFresh config garbage)
    | some id =>
      if alloc .id ((cString id).length + 1) then .ok (sseParserFresh config garbage)
      else .error .nomem

theorem sseParserInit_grantAll (config : Option SseConfig) (garbage : SseBlock → Memory UInt8) :
    sseParserInit grantAll config garbage = .ok (sseParserFresh config garbage) := by
  simp only [sseParserInit, grantAll, Bool.true_eq_false, if_false, if_true]
  split <;> rfl

/-- Store bytes in the line buffer. -/
def sseStoreLine (ctx : SseParserCtx) (off : ℕ) (bytes : List UInt8) : SseOutcome :=
  ⟨{ ctx with lineBuffer := ctx.lineBuffer.writeIn ctx.lineCapacity off bytes },
    [.stored .line ⟨off, bytes.length, ctx.lineCapacity⟩], none⟩

/-- Store bytes in the data buffer. -/
def sseStoreData (ctx : SseParserCtx) (off : ℕ) (bytes : List UInt8) : SseOutcome :=
  ⟨{ ctx with currentData := ctx.currentData.writeIn ctx.dataCapacity off bytes },
    [.stored .data ⟨off, bytes.length, ctx.dataCapacity⟩], none⟩

/-- Hand the event to `on_event`, with the LF behind its data replaced by a NUL. -/
def sseFireEvent (ctx : SseParserCtx) : SseOutcome :=
  (sseStoreData ctx (ctx.dataOffset - 1) [0]).andThen fun ctx =>
    let ctx := { ctx with dataOffset := ctx.dataOffset - 1 }
    ⟨ctx, [.onEvent ⟨ctx.lastEventId.map cString, ctx.currentEvent.map cString,
      ctx.currentData.read 0 ctx.dataOffset⟩], none⟩

/-- Reset the type and the data for the next event. -/
def sseResetEvent (alloc : SseAlloc) (ctx : SseParserCtx) : SseOutcome :=
  if alloc .event (messageType.length + 1) then
    sseStoreData { ctx with currentEvent := some messageType, dataOffset := 0 } 0 [0]
  else Outcome.fail { ctx with currentEvent := none } [] .nomem

/-- What an empty line does. -/
def sseDispatch (alloc : SseAlloc) (ctx : SseParserCtx) : SseOutcome :=
  (if ctx.dataOffset > 0 then sseFireEvent ctx else done ctx).andThen (sseResetEvent alloc)

/-- Name and value of the field in a line: the value begins behind the first colon and one space,
and is empty when there is no colon. -/
def sseSplitField (line : List UInt8) : List UInt8 × List UInt8 :=
  let fieldLen := line.idxOf colon
  if fieldLen < line.length then
    let value := line.drop (fieldLen + 1)
    (line.take fieldLen, if value.head? = some space then value.drop 1 else value)
  else (line, [])

/-- Keep the value of an `event` field as the type of the event. -/
def sseSetEvent (alloc : SseAlloc) (ctx : SseParserCtx) (value : List UInt8) : SseOutcome :=
  if alloc .event (value.length + 1) then done { ctx with currentEvent := some value }
  else Outcome.fail { ctx with currentEvent := none } [] .nomem

/-- Keep the value of an `id` field. -/
def sseSetId (alloc : SseAlloc) (ctx : SseParserCtx) (value : List UInt8) : SseOutcome :=
  if alloc .id (value.length + 1) then done { ctx with lastEventId := some value }
  else Outcome.fail { ctx with lastEventId := none } [] .nomem

/-- Room in the data block for a value. The test leaves out the NUL behind the LF, the new size
takes it in. -/
def sseGrowData (build : SseBuild) (alloc : SseAlloc) (ctx : SseParserCtx)
    (value : List UInt8) : SseOutcome :=
  if ctx.dataOffset + value.length + 1 > ctx.dataCapacity then
    let newCap := doubleUntil (ctx.dataCapacity * 2) (ctx.dataOffset + value.length + 2)
    if newCap > build.maxLineSize then
      Outcome.fail ctx [.onError ErrorCode.msgSize.value] .msgSize
    else if alloc .data newCap then done { ctx with dataCapacity := newCap }
    else Outcome.fail ctx [] .nomem
  else done ctx

/-- Store at the end of the data and move the end behind it. -/
def sseAppendData (ctx : SseParserCtx) (bytes : List UInt8) : SseOutcome :=
  (sseStoreData ctx ctx.dataOffset bytes).andThen fun ctx =>
    done { ctx with dataOffset := ctx.dataOffset + bytes.length }

/-- Append the value of a `data` field, an LF and a NUL that the next value overwrites. -/
def sseAddData (build : SseBuild) (alloc : SseAlloc) (ctx : SseParserCtx)
    (value : List UInt8) : SseOutcome :=
  (sseGrowData build alloc ctx value).andThen fun ctx =>
    (sseAppendData ctx value).andThen fun ctx =>
      (sseAppendData ctx [lf]).andThen fun ctx => sseStoreData ctx ctx.dataOffset [0]

def isSpaceByte (b : UInt8) : Bool := b = space ∨ (0x09 ≤ b ∧ b ≤ 0x0D)

def isDigitByte (b : UInt8) : Bool := 0x30 ≤ b ∧ b ≤ 0x39

/-- `atoi`. The value of more digits than an `int` holds is left open by the language; here it is
the `long` nearest to it, cut to an `int`. -/
def atoi (bytes : List UInt8) : ℤ :=
  let bytes := bytes.dropWhile isSpaceByte
  let negative := bytes.head? = some 0x2D
  let digits := if negative ∨ bytes.head? = some 0x2B then bytes.drop 1 else bytes
  let magnitude : ℤ :=
    (digits.takeWhile isDigitByte).foldl (fun n b => n * 10 + (b.toNat - 0x30 : ℤ)) 0
  let value := if negative then -magnitude else magnitude
  Int.bmod (max (-2 ^ 63) (min value (2 ^ 63 - 1))) (2 ^ 32)

/-- Keep the value of a `retry` field, of which at most 31 bytes are looked at. -/
def sseSetRetry (ctx : SseParserCtx) (value : List UInt8) : SseOutcome :=
  done { ctx with retryMs := atoi (cString (value.take 31)) }

def sseProcessLine (build : SseBuild) (alloc : SseAlloc) (ctx : SseParserCtx)
    (line : List UInt8) : SseOutcome :=
  if line.length = 0 then sseDispatch alloc ctx
  else if line.head? = some colon then done ctx
  else
    let (field, value) := sseSplitField line
    if field = eventField then sseSetEvent alloc ctx value
    else if field = dataField then sseAddData build alloc ctx value
    else if field = idField then sseSetId alloc ctx value
    else if field = retryField then sseSetRetry ctx value
    else done ctx

/-- Room in the line buffer for one more byte and a NUL. -/
def sseGrowLine (build : SseBuild) (alloc : SseAlloc) (ctx : SseParserCtx) : SseOutcome :=
  if ctx.lineOffset + 1 ≥ ctx.lineCapacity then
    let newCap := ctx.lineCapacity * 2
    if newCap > build.maxLineSize then Outcome.fail ctx [.onError enomem] .nomem
    else if alloc .line newCap then done { ctx with lineCapacity := newCap }
    else Outcome.fail ctx [] .nomem
  else done ctx

/-- The line that has been read. -/
def SseParserCtx.line (ctx : SseParserCtx) : List UInt8 := ctx.lineBuffer.read 0 ctx.lineOffset

/-- One turn of the loop. A line that fails to be processed is not taken out of the buffer. -/
def sseFeedByte (build : SseBuild) (alloc : SseAlloc) (ctx : SseParserCtx) (c : UInt8) :
    SseOutcome :=
  (if c = cr ∨ c = lf then sseStoreLine ctx ctx.lineOffset [0] else done ctx).andThen fun ctx =>
    if c = cr then done ctx
    else if c = lf then
      (sseProcessLine build alloc ctx ctx.line).andThen fun ctx => done { ctx with lineOffset := 0 }
    else
      (sseGrowLine build alloc ctx).andThen fun ctx =>
        (sseStoreLine ctx ctx.lineOffset [c]).andThen fun ctx =>
          done { ctx with lineOffset := ctx.lineOffset + 1 }

/-- `sse_parser_feed` on the bytes of a chunk. -/
def sseParserFeed (build : SseBuild) (alloc : SseAlloc) (ctx : SseParserCtx) :
    List UInt8 → SseOutcome
  | [] => done ctx
  | c :: cs => (sseFeedByte build alloc ctx c).andThen fun ctx => sseParserFeed build alloc ctx cs

/-- The parser has no state but its context, so it reads a chunk byte by byte. -/
theorem sseParserFeed_incremental (build : SseBuild) (alloc : SseAlloc) :
    Incremental (sseParserFeed build alloc) where
  nil _ := rfl
  append ctx a b := by
    induction a generalizing ctx with
    | nil => rfl
    | cons c cs ih =>
      rw [List.cons_append, sseParserFeed, sseParserFeed, andThen_assoc]
      exact andThen_congr fun _ => ih _

theorem sseParserFeed_singleton (build : SseBuild) (alloc : SseAlloc) (ctx : SseParserCtx)
    (c : UInt8) : sseParserFeed build alloc ctx [c] = sseFeedByte build alloc ctx c :=
  andThen_done _

end AbstractHttp.EventStream
