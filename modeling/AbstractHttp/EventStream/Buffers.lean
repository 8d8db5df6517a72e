import AbstractHttp.EventStream.Parser

/-!
# The line buffer and the data buffer

What one byte, one data field and one blank line do to the two growing blocks.
-/
namespace AbstractHttp.EventStream
open Library Outcome

variable {build : SseBuild} {alloc : SseAlloc} {ctx : SseParserCtx} {c : UInt8}
  {value : List UInt8}

/-- Nothing but reports of errors. -/
def OnlyErrors (out : List SseEffect) : Prop := ∀ w ∈ out, ∃ code, w = .onError code

/-- There is always room for the NUL that ends the line; the data may fill its block. -/
structure SseRoom (ctx : SseParserCtx) : Prop where
  line : ctx.lineOffset < ctx.lineCapacity
  capacity : 0 < ctx.dataCapacity
  data : ctx.dataOffset ≤ ctx.dataCapacity

theorem sseRoom_fresh (config : Option SseConfig) (garbage : SseBlock → Memory UInt8) :
    SseRoom (sseParserFresh config garbage) := by
  constructor <;> simp [sseParserFresh]

/-- The line buffer is refused room for another byte, or has room for it and a NUL. -/
theorem sseGrowLine_cases (build : SseBuild) (alloc : SseAlloc) (h : SseRoom ctx) :
    (∃ out e, sseGrowLine build alloc ctx = Outcome.fail ctx out e ∧ OnlyErrors out) ∨
    (∃ cap, sseGrowLine build alloc ctx = done { ctx with lineCapacity := cap } ∧
      ctx.lineOffset + 1 < cap) := by
  have hline := h.line
  simp only [sseGrowLine]
  split
  · split
    · exact Or.inl ⟨_, _, rfl, by simp [OnlyErrors]⟩
    · split
      · exact Or.inr ⟨_, rfl, by omega⟩
      · exact Or.inl ⟨_, _, rfl, by simp [OnlyErrors]⟩
  · rename_i hroom
    exact Or.inr ⟨ctx.lineCapacity, rfl, by omega⟩

/-- The context after another byte of a line, in a buffer of `cap` bytes. -/
def ssePushByte (ctx : SseParserCtx) (cap : ℕ) (c : UInt8) : SseParserCtx :=
  { ctx with
    lineBuffer := ctx.lineBuffer.writeIn cap ctx.lineOffset [c]
    lineCapacity := cap
    lineOffset := ctx.lineOffset + 1 }

theorem sseFeedByte_of_ne (hcr : c ≠ cr) (hlf : c ≠ lf) : sseFeedByte build alloc ctx c =
    (sseGrowLine build alloc ctx).andThen fun ctx =>
      (sseStoreLine ctx ctx.lineOffset [c]).andThen fun ctx =>
        done { ctx with lineOffset := ctx.lineOffset + 1 } := by
  rw [sseFeedByte, if_neg (by simp [hcr, hlf]), done_andThen, if_neg hcr, if_neg hlf]

/-- A byte inside a line is refused, or stored in the buffer. -/
theorem sseFeedByte_cases (build : SseBuild) (alloc : SseAlloc) (h : SseRoom ctx)
    (hcr : c ≠ cr) (hlf : c ≠ lf) :
    (∃ out e, sseFeedByte build alloc ctx c = Outcome.fail ctx out e ∧ OnlyErrors out) ∨
    (∃ cap, ctx.lineOffset + 1 < cap ∧ sseFeedByte build alloc ctx c =
      ⟨ssePushByte ctx cap c, [.stored .line ⟨ctx.lineOffset, 1, cap⟩], none⟩) := by
  rw [sseFeedByte_of_ne hcr hlf]
  rcases sseGrowLine_cases build alloc h with ⟨out, e, hgrow, hout⟩ | ⟨cap, hgrow, hcap⟩
  · exact Or.inl ⟨out, e, by rw [hgrow]; rfl, hout⟩
  · exact Or.inr ⟨cap, hcap, by rw [hgrow]; rfl⟩

/-- The context with a NUL behind the line. -/
def sseEndLine (ctx : SseParserCtx) : SseParserCtx :=
  { ctx with lineBuffer := ctx.lineBuffer.writeIn ctx.lineCapacity ctx.lineOffset [0] }

@[simp] theorem sseEndLine_line (ctx : SseParserCtx) : (sseEndLine ctx).line = ctx.line :=
  Memory.read_writeIn_before ctx.lineBuffer [0] (Nat.zero_add _).le

/-- A CR does nothing but end the line with a NUL, which the next byte overwrites. -/
theorem sseFeedByte_cr : sseFeedByte build alloc ctx cr =
    ⟨sseEndLine ctx, [.stored .line ⟨ctx.lineOffset, 1, ctx.lineCapacity⟩], none⟩ := rfl

/-- An LF ends the line with a NUL and processes it. -/
theorem sseFeedByte_lf : sseFeedByte build alloc ctx lf =
    Outcome.andThen ⟨sseEndLine ctx, [.stored .line ⟨ctx.lineOffset, 1, ctx.lineCapacity⟩], none⟩
      fun ctx => (sseProcessLine build alloc ctx ctx.line).andThen fun ctx =>
        done { ctx with lineOffset := 0 } := rfl

/-- The data block is refused room, or has room for the value and its LF, and where it has grown
for the NUL too. -/
theorem sseGrowData_cases (build : SseBuild) (alloc : SseAlloc) (h : SseRoom ctx) :
    (∃ out e, sseGrowData build alloc ctx value = Outcome.fail ctx out e ∧ OnlyErrors out ∧
      ctx.dataCapacity < ctx.dataOffset + value.length + 1) ∨
    (∃ cap, sseGrowData build alloc ctx value = done { ctx with dataCapacity := cap } ∧
      ((cap = ctx.dataCapacity ∧ ctx.dataOffset + value.length + 1 ≤ cap) ∨
        (ctx.dataCapacity < ctx.dataOffset + value.length + 1 ∧
          ctx.dataOffset + value.length + 2 ≤ cap))) := by
  have hpos := h.capacity
  simp only [sseGrowData]
  split
  · rename_i hgrow
    split
    · exact Or.inl ⟨_, _, rfl, by simp [OnlyErrors], hgrow⟩
    · split
      · exact Or.inr ⟨_, rfl, Or.inr ⟨hgrow, le_doubleUntil _ (by omega)⟩⟩
      · exact Or.inl ⟨_, _, rfl, by simp [OnlyErrors], hgrow⟩
  · rename_i hroom
    exact Or.inr ⟨ctx.dataCapacity, rfl, Or.inl ⟨rfl, not_lt.mp hroom⟩⟩

/-- The context after a data field, in a block of `cap` bytes. -/
def ssePushData (ctx : SseParserCtx) (cap : ℕ) (value : List UInt8) : SseParserCtx :=
  { ctx with
    currentData := ((ctx.currentData.writeIn cap ctx.dataOffset value).writeIn cap
      (ctx.dataOffset + value.length) [lf]).writeIn cap (ctx.dataOffset + value.length + 1) [0]
    dataCapacity := cap
    dataOffset := ctx.dataOffset + value.length + 1 }

/-- A data field in a block that has got its room makes three stores. -/
theorem sseAddData_of_grow {cap : ℕ}
    (h : sseGrowData build alloc ctx value = done { ctx with dataCapacity := cap }) :
    sseAddData build alloc ctx value =
      ⟨ssePushData ctx cap value,
        [.stored .data ⟨ctx.dataOffset, value.length, cap⟩,
          .stored .data ⟨ctx.dataOffset + value.length, 1, cap⟩,
          .stored .data ⟨ctx.dataOffset + value.length + 1, 1, cap⟩], none⟩ := by
  rw [sseAddData, h]
  rfl

theorem sseAddData_of_fail {out : List SseEffect} {e : ErrorCode}
    (h : sseGrowData build alloc ctx value = Outcome.fail ctx out e) :
    sseAddData build alloc ctx value = Outcome.fail ctx out e := by
  rw [sseAddData, h, fail_andThen]

theorem sseProcessLine_nil :
    sseProcessLine build alloc ctx [] = sseDispatch alloc ctx := rfl

/-- The name of a comment is empty, so that a comment is a field that is not known. -/
theorem sseProcessLine_field {line : List UInt8} (hline : line ≠ []) :
    sseProcessLine build alloc ctx line =
      if (sseSplitField line).1 = eventField then sseSetEvent alloc ctx (sseSplitField line).2
      else if (sseSplitField line).1 = dataField then
        sseAddData build alloc ctx (sseSplitField line).2
      else if (sseSplitField line).1 = idField then sseSetId alloc ctx (sseSplitField line).2
      else if (sseSplitField line).1 = retryField then sseSetRetry ctx (sseSplitField line).2
      else done ctx := by
  rw [sseProcessLine, if_neg (by simpa using hline)]
  split
  · rename_i hcomment
    obtain ⟨rest, rfl⟩ : ∃ rest, line = colon :: rest := by
      cases line with
      | nil => cases hcomment
      | cons b rest => exact ⟨rest, by rw [Option.some.inj hcomment]⟩
    have hname : (sseSplitField (colon :: rest)).1 = [] := by simp [sseSplitField]
    rw [hname]
    rfl
  · rfl

theorem sseProcessLine_data {line : List UInt8} (h : (sseSplitField line).1 = dataField) :
    sseProcessLine build alloc ctx line = sseAddData build alloc ctx (sseSplitField line).2 := by
  have hline : line ≠ [] := by
    rintro rfl
    cases h
  have hother : dataField ≠ eventField := by decide
  rw [sseProcessLine_field hline, h, if_neg hother, if_pos rfl]

/-- A line that is not empty and no data field leaves both buffers alone. -/
theorem sseProcessLine_quiet (build : SseBuild) (alloc : SseAlloc) (ctx : SseParserCtx)
    {line : List UInt8} (hline : line ≠ []) (hdata : (sseSplitField line).1 ≠ dataField) :
    ∃ ev id retry e, sseProcessLine build alloc ctx line =
      ⟨{ ctx with currentEvent := ev, lastEventId := id, retryMs := retry }, [], e⟩ ∧
      (alloc = grantAll → e = none ∧
        id = if (sseSplitField line).1 = idField then some (sseSplitField line).2
          else ctx.lastEventId) := by
  rw [sseProcessLine_field hline, if_neg hdata]
  by_cases hevent : (sseSplitField line).1 = eventField
  · have hid : eventField ≠ idField := by decide
    rw [if_pos hevent, sseSetEvent, hevent, if_neg hid]
    split
    · exact ⟨_, _, _, _, rfl, fun _ => ⟨rfl, rfl⟩⟩
    · rename_i hrefused
      exact ⟨_, _, _, _, rfl, fun h => absurd (by rw [h]; rfl) hrefused⟩
  · rw [if_neg hevent]
    by_cases hid : (sseSplitField line).1 = idField
    · rw [if_pos hid, if_pos hid, sseSetId]
      split
      · exact ⟨_, _, _, _, rfl, fun _ => ⟨rfl, rfl⟩⟩
      · rename_i hrefused
        exact ⟨_, _, _, _, rfl, fun h => absurd (by rw [h]; rfl) hrefused⟩
    · rw [if_neg hid, if_neg hid]
      split
      · exact ⟨_, _, _, _, rfl, fun _ => ⟨rfl, rfl⟩⟩
      · exact ⟨_, _, _, _, rfl, fun _ => ⟨rfl, rfl⟩⟩

/-- The event that `on_event` is given has the data without its last byte. -/
theorem sseFireEvent_eq : sseFireEvent ctx =
    ⟨{ ctx with
        currentData := ctx.currentData.writeIn ctx.dataCapacity (ctx.dataOffset - 1) [0]
        dataOffset := ctx.dataOffset - 1 },
      [.stored .data ⟨ctx.dataOffset - 1, 1, ctx.dataCapacity⟩,
        .onEvent ⟨ctx.lastEventId.map cString, ctx.currentEvent.map cString,
          ctx.currentData.read 0 (ctx.dataOffset - 1)⟩], none⟩ := by
  have hread : (ctx.currentData.writeIn ctx.dataCapacity (ctx.dataOffset - 1) [0]).read 0
      (ctx.dataOffset - 1) = ctx.currentData.read 0 (ctx.dataOffset - 1) :=
    Memory.read_writeIn_before ctx.currentData [0] (Nat.zero_add _).le
  rw [← hread]
  rfl

/-- The context behind a blank line. -/
def sseBlank (ctx : SseParserCtx) : SseParserCtx :=
  { ctx with
    currentEvent := some messageType
    currentData := ctx.currentData.writeIn ctx.dataCapacity 0 [0]
    dataOffset := 0 }

theorem sseResetEvent_cases (alloc : SseAlloc) (ctx : SseParserCtx) :
    sseResetEvent alloc ctx = ⟨sseBlank ctx, [.stored .data ⟨0, 1, ctx.dataCapacity⟩], none⟩ ∨
    (alloc ≠ grantAll ∧
      sseResetEvent alloc ctx = Outcome.fail { ctx with currentEvent := none } [] .nomem) := by
  rw [sseResetEvent]
  split
  · exact Or.inl rfl
  · rename_i hrefused
    exact Or.inr ⟨fun h => absurd (by rw [h]; rfl) hrefused, rfl⟩

end AbstractHttp.EventStream
