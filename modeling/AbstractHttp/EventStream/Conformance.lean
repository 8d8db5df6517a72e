import AbstractHttp.EventStream.Bounds
import Mathlib.Data.List.TakeWhile

/-!
# The parser and the interpretation of event streams

Between two bytes the line buffer holds what has been read of the line, the data
buffer holds the data of the block so far, and the id is the latest. With these
three facts every LF does to the parser what a line end does to the
interpretation, as long as no line and no event is too long.
-/
namespace AbstractHttp.EventStream
open Library Outcome

variable {ctx : SseParserCtx} {data value line cur : List UInt8}

/-- The events among the effects of a call. -/
def firedEvents (out : List SseEffect) : List SseEvent :=
  out.filterMap fun
    | .onEvent ev => some ev
    | _ => none

theorem firedEvents_append (out out' : List SseEffect) :
    firedEvents (out ++ out') = firedEvents out ++ firedEvents out' := List.filterMap_append

/-- Data and id of the events among the effects of a call. -/
def eventPairs (out : List SseEffect) : List (List UInt8 × Option (List UInt8)) :=
  out.filterMap fun
    | .onEvent ev => some (ev.data, ev.id)
    | _ => none

theorem eventPairs_eq (out : List SseEffect) :
    eventPairs out = (firedEvents out).map fun ev => (ev.data, ev.id) := by
  rw [eventPairs, firedEvents, List.map_filterMap]
  congr 1
  funext w
  cases w <;> rfl

theorem cString_eq_self_iff {bytes : List UInt8} : cString bytes = bytes ↔ 0 ∉ bytes := by
  rw [cString, List.takeWhile_eq_self_iff]
  constructor
  · intro h hmem
    simpa using h 0 hmem
  · intro h b hb
    rw [decide_eq_true_iff]
    rintro rfl
    exact h hb

/-- Outside comments, the parser finds the field that a line has. -/
theorem fieldOf_eq (hcomment : line.head? ≠ some colon) :
    fieldOf line = some (sseSplitField line) := by
  rw [fieldOf, if_neg hcomment]
  by_cases hcolon : colon ∈ line
  · obtain ⟨name, rest, rfl, hname⟩ := List.eq_append_cons_of_mem hcolon
    have hall : ∀ b ∈ name, decide (b ≠ colon) = true := by
      intro b hb
      rw [decide_eq_true_iff]
      rintro rfl
      exact hname hb
    rw [if_pos hcolon, sseSplitField_append hname, List.takeWhile_append_of_pos hall,
      List.dropWhile_append_of_pos hall]
    simp
  · rw [if_neg hcolon, sseSplitField_of_notMem hcolon]

/-- A comment is a field without a name. -/
theorem sseSplitField_comment (hcomment : line.head? = some colon) :
    (sseSplitField line).1 = [] := by
  cases line with
  | nil => rfl
  | cons b rest =>
    rw [Option.some.inj hcomment, ← List.nil_append (colon :: rest),
      sseSplitField_append List.not_mem_nil]

theorem fieldOf_of_name (hname : (sseSplitField line).1 ≠ []) :
    fieldOf line = some (sseSplitField line) :=
  fieldOf_eq fun hcomment => hname (sseSplitField_comment hcomment)

theorem fieldValue_eq {name : List UInt8} (hname : name ≠ []) (line : List UInt8) :
    fieldValue name line =
      if (sseSplitField line).1 = name then some (sseSplitField line).2 else none := by
  by_cases hcomment : line.head? = some colon
  · rw [fieldValue, fieldOf, if_pos hcomment, sseSplitField_comment hcomment, if_neg hname.symm]
  · rw [fieldValue, fieldOf_eq hcomment]

theorem dataValue_eq (line : List UInt8) : dataValue line =
    if (sseSplitField line).1 = dataField then some (sseSplitField line).2 else none :=
  fieldValue_eq (by decide) line

theorem idValue_eq (line : List UInt8) : idValue line =
    if (sseSplitField line).1 = idField ∧ 0 ∉ (sseSplitField line).2
      then some (sseSplitField line).2 else none := by
  by_cases hcomment : line.head? = some colon
  · have hname : ([] : List UInt8) ≠ idField := by decide
    rw [idValue, fieldOf, if_pos hcomment, sseSplitField_comment hcomment]
    simp [hname]
  · rw [idValue, fieldOf_eq hcomment]

/-- The data buffer holds the data so far; its size is the first one, doubled. -/
structure SseGathers (ctx : SseParserCtx) (data : List UInt8) : Prop where
  data : ctx.currentData.read 0 ctx.dataOffset = data
  dataCapacity : ∃ i ≤ 3, ctx.dataCapacity = 4096 * 2 ^ i

theorem SseGathers.dataOffset_eq (h : SseGathers ctx data) : ctx.dataOffset = data.length := by
  rw [← h.data, Memory.read_length]

/-- Up to 32767 bytes the data buffer is never refused room. -/
theorem SseGathers.grow (h : SseGathers ctx data) (hlen : data.length + value.length < 32767) :
    ∃ cap, sseGrowData .default grantAll ctx value = done { ctx with dataCapacity := cap } ∧
      ctx.dataOffset + value.length + 1 ≤ cap ∧ ∃ i ≤ 3, cap = 4096 * 2 ^ i := by
  obtain ⟨i, hi, hcap⟩ := h.dataCapacity
  have hoff := h.dataOffset_eq
  simp only [sseGrowData]
  split
  · rename_i hgrow
    have hbelow : 4096 * 2 ^ i < 4096 * 2 ^ 3 := by omega
    obtain ⟨hexp, hdouble, -⟩ := double_pow hbelow
    rw [← hcap] at hdouble
    have hneed : ctx.dataOffset + value.length + 2 ≤ 4096 * 2 ^ 3 := by omega
    obtain ⟨j, hj, hnew⟩ := doubleUntil_pow (show 0 < 4096 by norm_num) hexp hneed
    have hcovers := le_doubleUntil (ctx.dataOffset + value.length + 2)
      (show 0 < ctx.dataCapacity * 2 by rw [hdouble]; positivity)
    have hlimit : 4096 * 2 ^ j ≤ 4096 * 2 ^ 3 :=
      Nat.mul_le_mul_left _ (Nat.pow_le_pow_right (by norm_num) hj)
    rw [if_neg (by rw [hdouble, hnew]; simp only [SseBuild.default]; omega)]
    exact ⟨_, rfl, (Nat.le_succ _).trans hcovers, j, hj, by rw [hdouble, hnew]⟩
  · exact ⟨ctx.dataCapacity, rfl, by omega, i, hi, hcap⟩

/-- A data field appends its value and an LF to the data. -/
theorem SseGathers.addData (h : SseGathers ctx data)
    (hlen : data.length + value.length < 32767) :
    ∃ cap out, sseAddData .default grantAll ctx value = ⟨ssePushData ctx cap value, out, none⟩ ∧
      firedEvents out = [] ∧ SseGathers (ssePushData ctx cap value) (data ++ (value ++ [lf])) := by
  obtain ⟨cap, hgrow, hroom, hcap⟩ := h.grow hlen
  refine ⟨cap, _, sseAddData_of_grow hgrow, rfl, ?_, hcap⟩
  have hvalue : ctx.dataOffset + value.length ≤ cap := by omega
  have hlast : ctx.dataOffset + value.length + [lf].length ≤ cap := hroom
  have hnul : 0 + (ctx.dataOffset + value.length + 1) ≤ ctx.dataOffset + value.length + 1 := by
    omega
  calc
    _ = (((ctx.currentData.write ctx.dataOffset value).write (ctx.dataOffset + value.length)
          [lf]).read 0 (ctx.dataOffset + value.length + [lf].length)) := by
      simp only [ssePushData]
      rw [Memory.read_writeIn_before _ _ hnul, Memory.writeIn_of_le _ _ hvalue,
        Memory.writeIn_of_le _ _ hlast]
      rfl
    _ = data ++ (value ++ [lf]) := by
      rw [Memory.read_write_extend, Memory.read_write_extend, h.data, List.append_assoc]

/-- Beyond 32768 bytes the data buffer is refused room, and the call fails. -/
theorem SseGathers.overflow (h : SseGathers ctx data) (hlen : 32768 ≤ data.length + value.length) :
    (sseAddData .default grantAll ctx value).failure = some .msgSize := by
  obtain ⟨i, hi, hcap⟩ := h.dataCapacity
  have hoff := h.dataOffset_eq
  have hlimit : 4096 * 2 ^ i ≤ 4096 * 2 ^ 3 :=
    Nat.mul_le_mul_left _ (Nat.pow_le_pow_right (by norm_num) hi)
  have hpos : 0 < ctx.dataCapacity * 2 := by
    rw [hcap]
    positivity
  have hcovers := le_doubleUntil (ctx.dataOffset + value.length + 2) hpos
  have hgrow : sseGrowData .default grantAll ctx value =
      Outcome.fail ctx [.onError ErrorCode.msgSize.value] .msgSize := by
    simp only [sseGrowData]
    rw [if_pos (by omega), if_pos (by simp only [SseBuild.default]; omega)]
  rw [sseAddData_of_fail hgrow]
  rfl

/-- A block has data exactly when it has a data field. -/
theorem dataOf_eq_nil {block : List (List UInt8)} : dataOf block = [] ↔ dataValues block = [] := by
  rw [dataOf]
  cases dataValues block <;> simp

/-- The data of a block without its last byte is what its event is given. -/
theorem SseGathers.event_data {block : List (List UInt8)} (h : SseGathers ctx (dataOf block))
    (hvalues : dataValues block ≠ []) :
    ctx.currentData.read 0 (ctx.dataOffset - 1) = List.intercalate [lf] (dataValues block) := by
  have hdata := h.data
  rw [dataOf, ← intercalate_lf hvalues] at hdata
  rw [← Memory.read_take _ _ (Nat.sub_le ctx.dataOffset 1), hdata, h.dataOffset_eq, dataOf,
    ← intercalate_lf hvalues]
  simp

/-- The event that the parser fires behind a block. -/
def heldEvents (ctx : SseParserCtx) (block : List (List UInt8)) : List SseEvent :=
  if dataValues block = [] then []
  else [⟨ctx.lastEventId.map cString, ctx.currentEvent.map cString,
    List.intercalate [lf] (dataValues block)⟩]

/-- A blank line fires the event of the block and resets its type and its data. -/
theorem SseGathers.blank {block : List (List UInt8)} (h : SseGathers ctx (dataOf block)) :
    ∃ out buffer, sseProcessLine .default grantAll ctx [] =
        ⟨{ ctx with currentEvent := some messageType, currentData := buffer, dataOffset := 0 },
          out, none⟩ ∧
      firedEvents out = heldEvents ctx block := by
  have hreset (ctx : SseParserCtx) : sseResetEvent grantAll ctx =
      ⟨sseBlank ctx, [.stored .data ⟨0, 1, ctx.dataCapacity⟩], none⟩ :=
    (sseResetEvent_cases grantAll ctx).resolve_right fun hrefused => hrefused.1 rfl
  rw [sseProcessLine_nil, sseDispatch, heldEvents]
  by_cases hvalues : dataValues block = []
  · have hzero : ¬ ctx.dataOffset > 0 := by
      rw [h.dataOffset_eq, dataOf_eq_nil.mpr hvalues]
      simp
    rw [if_neg hzero, done_andThen, hreset, if_pos hvalues]
    exact ⟨_, _, rfl, rfl⟩
  · have hpos : ctx.dataOffset > 0 := by
      rw [h.dataOffset_eq]
      exact List.length_pos_iff.mpr (mt dataOf_eq_nil.mp hvalues)
    rw [if_pos hpos, sseFireEvent_eq, andThen_of_none rfl, hreset, if_neg hvalues,
      h.event_data hvalues]
    exact ⟨_, _, rfl, rfl⟩

theorem dataOf_append_data {block : List (List UInt8)}
    (hname : (sseSplitField line).1 = dataField) :
    dataOf (block ++ [line]) = dataOf block ++ ((sseSplitField line).2 ++ [lf]) := by
  rw [dataOf_append]
  simp [dataOf, dataValues, dataValue_eq, hname]

theorem dataOf_append_other {block : List (List UInt8)}
    (hname : (sseSplitField line).1 ≠ dataField) :
    dataOf (block ++ [line]) = dataOf block := by
  rw [dataOf_append]
  simp [dataOf, dataValues, dataValue_eq, hname]

/-- A data field joins the data of its block. -/
theorem SseGathers.processData {block : List (List UInt8)} (h : SseGathers ctx (dataOf block))
    (hname : (sseSplitField line).1 = dataField)
    (hdata : (dataOf (block ++ [line])).length ≤ 32767) :
    ∃ cap out, sseProcessLine .default grantAll ctx line =
        ⟨ssePushData ctx cap (sseSplitField line).2, out, none⟩ ∧
      firedEvents out = [] ∧
      SseGathers (ssePushData ctx cap (sseSplitField line).2) (dataOf (block ++ [line])) := by
  rw [dataOf_append_data hname] at hdata ⊢
  simp only [List.length_append, List.length_singleton] at hdata
  rw [sseProcessLine_data hname]
  exact h.addData (show _ + (sseSplitField line).2.length < 32767 by omega)

/-- What the parser holds between two bytes: the line so far, the data of the block so far and
the latest id, which is a C string without loss. -/
structure SseHolds (ctx : SseParserCtx) (cur : List UInt8) (id : Option (List UInt8))
    (block : List (List UInt8)) : Prop extends SseReads ctx cur, SseGathers ctx (dataOf block) where
  id : ctx.lastEventId = latestId id block
  id_text : ∀ v, ctx.lastEventId = some v → 0 ∉ v

section
variable {id : Option (List UInt8)} {block : List (List UInt8)}

theorem sseHolds_fresh (garbage : SseBlock → Memory UInt8) :
    SseHolds (sseParserFresh none garbage) [] none [] where
  toSseReads := sseReads_fresh none garbage
  data := rfl
  dataCapacity := ⟨0, by norm_num, rfl⟩
  id := rfl
  id_text v h := by cases h

theorem SseHolds.endLine (h : SseHolds ctx cur id block) :
    SseHolds (sseEndLine ctx) cur id block where
  toSseReads := h.toSseReads.endLine
  data := h.data
  dataCapacity := h.dataCapacity
  id := h.id
  id_text := h.id_text

theorem SseHolds.restart (h : SseHolds ctx cur id block) :
    SseHolds { ctx with lineOffset := 0 } [] id block where
  toSseReads := h.toSseReads.restart
  data := h.data
  dataCapacity := h.dataCapacity
  id := h.id
  id_text := h.id_text

theorem SseHolds.event_id (h : SseHolds ctx cur id block) :
    ctx.lastEventId.map cString = latestId id block := by
  rw [← h.id]
  cases hid : ctx.lastEventId with
  | none => rfl
  | some v => rw [Option.map_some, cString_eq_self_iff.mpr (h.id_text v hid)]

/-- A blank line gives the event of the block and begins another. -/
theorem SseHolds.blank (h : SseHolds ctx cur id block) :
    ∃ ctx' out, sseProcessLine .default grantAll ctx [] = ⟨ctx', out, none⟩ ∧
      eventPairs out = eventOf id block ∧ SseHolds ctx' cur (latestId id block) [] := by
  obtain ⟨out, buffer, hprocess, hout⟩ := h.toSseGathers.blank
  refine ⟨_, out, hprocess, ?_, ⟨h.line, h.capacity, h.room⟩, ⟨rfl, h.dataCapacity⟩, h.id,
    h.id_text⟩
  rw [eventPairs_eq, hout, heldEvents, eventOf, h.event_id]
  split <;> rfl

theorem latestId_append_other (hname : (sseSplitField line).1 ≠ idField) :
    latestId id (block ++ [line]) = latestId id block := by
  rw [latestId_append, idValue_eq, if_neg fun hboth => hname hboth.1]
  rfl

theorem latestId_append_id (hname : (sseSplitField line).1 = idField)
    (htext : 0 ∉ (sseSplitField line).2) :
    latestId id (block ++ [line]) = some (sseSplitField line).2 := by
  rw [latestId_append, idValue_eq, if_pos ⟨hname, htext⟩]
  rfl

/-- A data field joins the block. -/
theorem SseHolds.processData (h : SseHolds ctx cur id block)
    (hname : (sseSplitField line).1 = dataField)
    (hdata : (dataOf (block ++ [line])).length ≤ 32767) :
    ∃ ctx' out, sseProcessLine .default grantAll ctx line = ⟨ctx', out, none⟩ ∧
      eventPairs out = [] ∧ SseHolds ctx' cur id (block ++ [line]) := by
  have hother : (sseSplitField line).1 ≠ idField := by
    rw [hname]
    decide
  obtain ⟨cap, out, hprocess, hout, hgathers⟩ := h.toSseGathers.processData hname hdata
  refine ⟨_, out, hprocess, ?_, ⟨h.line, h.capacity, h.room⟩, hgathers, ?_, h.id_text⟩
  · rw [eventPairs_eq, hout]
    rfl
  · rw [latestId_append_other hother]
    exact h.id

/-- Any other line that is not empty joins the block. -/
theorem SseHolds.processOther (h : SseHolds ctx cur id block) (hline : line ≠ [])
    (hname : (sseSplitField line).1 ≠ dataField)
    (hid : (sseSplitField line).1 = idField → 0 ∉ (sseSplitField line).2) :
    ∃ ctx', sseProcessLine .default grantAll ctx line = ⟨ctx', [], none⟩ ∧
      SseHolds ctx' cur id (block ++ [line]) := by
  obtain ⟨ev, newId, retry, e, hprocess, hgranted⟩ :=
    sseProcessLine_quiet .default grantAll ctx hline hname
  obtain ⟨rfl, hnewId⟩ := hgranted rfl
  have hgathers : SseGathers ctx (dataOf (block ++ [line])) := by
    rw [dataOf_append_other hname]
    exact h.toSseGathers
  have hlatest : newId = latestId id (block ++ [line]) ∧ ∀ v, newId = some v → 0 ∉ v := by
    by_cases hidName : (sseSplitField line).1 = idField
    · rw [if_pos hidName] at hnewId
      rw [hnewId, latestId_append_id hidName (hid hidName)]
      exact ⟨rfl, fun v hv => Option.some.inj hv ▸ hid hidName⟩
    · rw [if_neg hidName] at hnewId
      rw [hnewId, latestId_append_other hidName]
      exact ⟨h.id, h.id_text⟩
  exact ⟨_, hprocess, ⟨h.line, h.capacity, h.room⟩, ⟨hgathers.data, hgathers.dataCapacity⟩,
    hlatest.1, hlatest.2⟩

/-- A line that is not empty joins the block. -/
theorem SseHolds.process (h : SseHolds ctx cur id block) (hline : line ≠ [])
    (hdata : (dataOf (block ++ [line])).length ≤ 32767)
    (hid : ∀ v, fieldOf line = some (idField, v) → 0 ∉ v) :
    ∃ ctx' out, sseProcessLine .default grantAll ctx line = ⟨ctx', out, none⟩ ∧
      eventPairs out = [] ∧ SseHolds ctx' cur id (block ++ [line]) := by
  by_cases hname : (sseSplitField line).1 = dataField
  · exact h.processData hname hdata
  · have htext : (sseSplitField line).1 = idField → 0 ∉ (sseSplitField line).2 := by
      intro hidName
      apply hid
      rw [fieldOf_of_name (by rw [hidName]; decide), ← hidName]
    obtain ⟨ctx', hprocess, hholds⟩ := h.processOther hline hname htext
    exact ⟨ctx', [], hprocess, rfl, hholds⟩

/-- An LF takes the line, which has been processed, out of the buffer. -/
theorem sseFeedByte_lf_of_process {ctx' : SseParserCtx} {out : List SseEffect}
    (hline : ctx.line = line)
    (hprocess : sseProcessLine .default grantAll (sseEndLine ctx) line = ⟨ctx', out, none⟩) :
    sseFeedByte .default grantAll ctx lf =
      ⟨{ ctx' with lineOffset := 0 },
        .stored .line ⟨ctx.lineOffset, 1, ctx.lineCapacity⟩ :: out, none⟩ := by
  rw [sseFeedByte_lf, andThen_of_none rfl, sseEndLine_line, hline, hprocess, andThen_of_none rfl]
  simp [done]

theorem SseHolds.feedBlank (h : SseHolds ctx [] id block) :
    ∃ ctx' out, sseFeedByte .default grantAll ctx lf = ⟨ctx', out, none⟩ ∧
      eventPairs out = eventOf id block ∧ SseHolds ctx' [] (latestId id block) [] := by
  obtain ⟨ctx', out, hprocess, hout, hholds⟩ := h.endLine.blank
  exact ⟨_, _, sseFeedByte_lf_of_process h.line hprocess, hout, hholds.restart⟩

theorem SseHolds.feedLine (h : SseHolds ctx cur id block) (hcur : cur ≠ [])
    (hdata : (dataOf (block ++ [cur])).length ≤ 32767)
    (hid : ∀ v, fieldOf cur = some (idField, v) → 0 ∉ v) :
    ∃ ctx' out, sseFeedByte .default grantAll ctx lf = ⟨ctx', out, none⟩ ∧
      eventPairs out = [] ∧ SseHolds ctx' [] id (block ++ [cur]) := by
  obtain ⟨ctx', out, hprocess, hout, hholds⟩ := h.endLine.process hcur hdata hid
  exact ⟨_, _, sseFeedByte_lf_of_process h.line hprocess, hout, hholds.restart⟩

theorem SseHolds.feedByte (h : SseHolds ctx cur id block) {c : UInt8} (hlen : cur.length < 32767)
    (hcr : c ≠ cr) (hlf : c ≠ lf) :
    ∃ ctx' out, sseFeedByte .default grantAll ctx c = ⟨ctx', out, none⟩ ∧
      eventPairs out = [] ∧ SseHolds ctx' (cur ++ [c]) id block := by
  obtain ⟨cap, hfeed, hreads⟩ := h.toSseReads.feedByte hlen hcr hlf
  exact ⟨_, _, hfeed, rfl, hreads, ⟨h.data, h.dataCapacity⟩, h.id, h.id_text⟩

/-- Text without line ends joins the line. -/
theorem SseHolds.feedText (h : SseHolds ctx cur id block) {text : List UInt8}
    (hlen : cur.length + text.length ≤ 32767) (htext : ∀ c ∈ text, c ≠ cr ∧ c ≠ lf) :
    ∃ ctx', (sseParserFeed .default grantAll ctx text).failure = none ∧
      (sseParserFeed .default grantAll ctx text).state = ctx' ∧
      SseHolds ctx' (cur ++ text) id block := by
  obtain ⟨buffer, cap, off, hok, hstate, hreads⟩ := h.toSseReads.feed hlen htext
  exact ⟨_, hok, hstate, hreads, ⟨h.data, h.dataCapacity⟩, h.id, h.id_text⟩

/-- Every CR is immediately followed by an LF. -/
inductive CrBeforeLf : List UInt8 → Prop where
  | nil : CrBeforeLf []
  | cons {b : UInt8} {bs : List UInt8} (hb : b ≠ cr) (h : CrBeforeLf bs) : CrBeforeLf (b :: bs)
  | crlf {bs : List UInt8} (h : CrBeforeLf (lf :: bs)) : CrBeforeLf (cr :: lf :: bs)

theorem crBeforeLf_of_forall {stream : List UInt8}
    (h : ∀ i < stream.length, stream[i]? = some cr → stream[i + 1]? = some lf) :
    CrBeforeLf stream := by
  induction stream with
  | nil => exact .nil
  | cons b bs ih =>
    have hrest := ih fun i hi hcr => by
      simpa using h (i + 1) (by simpa using hi) (by simpa using hcr)
    by_cases hb : b = cr
    · have hnext : bs[0]? = some lf := by
        simpa using h 0 (by simp) (by simp [hb])
      cases bs with
      | nil => simp at hnext
      | cons c bs =>
        obtain rfl : c = lf := by simpa using hnext
        rw [hb]
        exact .crlf hrest
    · exact .cons hb hrest

/-- The rest of a stream, from a point inside a block: no line and no event is too long. -/
structure Fitting (lns : List (List UInt8)) (block : List (List UInt8)) : Prop where
  line : ∀ l ∈ lns, l.length ≤ 32767
  data : ∀ b ∈ blocksFrom block lns.dropLast, (dataOf b).length ≤ 32767

section Fitting

variable {lns : List (List UInt8)}

theorem Fitting.blank (h : Fitting ([] :: lns) block) (hlns : lns ≠ []) : Fitting lns [] := by
  obtain ⟨hline, hdata⟩ := h
  rw [List.dropLast_cons_of_ne_nil hlns, blocksFrom_blank] at hdata
  exact ⟨fun l hl => hline l (List.mem_cons_of_mem _ hl),
    fun b hb => hdata b (List.mem_cons_of_mem _ hb)⟩

theorem Fitting.next (h : Fitting (line :: lns) block) (hlns : lns ≠ []) (hnext : line ≠ []) :
    Fitting lns (block ++ [line]) := by
  obtain ⟨hline, hdata⟩ := h
  rw [List.dropLast_cons_of_ne_nil hlns, blocksFrom_line hnext] at hdata
  exact ⟨fun l hl => hline l (List.mem_cons_of_mem _ hl), hdata⟩

/-- The data so far is the beginning of the data of an event. -/
theorem Fitting.data_le (h : Fitting lns block) : (dataOf block).length ≤ 32767 := by
  obtain ⟨rest, hrest⟩ := exists_mem_blocksFrom block lns.dropLast
  have hdata := h.data _ hrest
  rw [dataOf_append, List.length_append] at hdata
  omega

/-- What has been read of a line has room for another of its bytes. -/
theorem Fitting.length_lt {b : UInt8} {bs : List UInt8}
    (h : Fitting (linesFrom false (cur ++ [b]) bs) block) : cur.length < 32767 := by
  obtain ⟨rest, hrest⟩ := exists_mem_linesFrom false (cur ++ [b]) bs
  have hline := h.line _ hrest
  simp only [List.length_append, List.length_singleton] at hline
  omega

end Fitting

/-- The rest of a stream, from a point inside a block: no line and no event is too long, and no
id has a NUL. -/
structure Moderate (lns : List (List UInt8)) (block : List (List UInt8)) : Prop where
  line : ∀ l ∈ lns, l.length ≤ 32767
  data : ∀ b ∈ blocksFrom block lns.dropLast, (dataOf b).length ≤ 32767
  id : ∀ l ∈ lns.dropLast, ∀ v, fieldOf l = some (idField, v) → 0 ∉ v

section Moderate

variable {lns : List (List UInt8)}

theorem Moderate.fitting (h : Moderate lns block) : Fitting lns block := ⟨h.line, h.data⟩

theorem Moderate.id_tail (h : Moderate (line :: lns) block) (hlns : lns ≠ []) :
    ∀ l ∈ lns.dropLast, ∀ v, fieldOf l = some (idField, v) → 0 ∉ v := by
  have hid := h.id
  rw [List.dropLast_cons_of_ne_nil hlns] at hid
  exact fun l hl => hid l (List.mem_cons_of_mem _ hl)

theorem Moderate.blank (h : Moderate ([] :: lns) block) (hlns : lns ≠ []) : Moderate lns [] :=
  have hrest := h.fitting.blank hlns
  ⟨hrest.line, hrest.data, h.id_tail hlns⟩

theorem Moderate.next (h : Moderate (line :: lns) block) (hlns : lns ≠ []) (hnext : line ≠ []) :
    Moderate lns (block ++ [line]) :=
  have hrest := h.fitting.next hlns hnext
  ⟨hrest.line, hrest.data, h.id_tail hlns⟩

end Moderate

/-- Behind a byte that does not fail, a chunk is fed from its second byte on. -/
theorem sseParserFeed_cons {ctx' : SseParserCtx} {out : List SseEffect} {c : UInt8}
    (hfeed : sseFeedByte .default grantAll ctx c = ⟨ctx', out, none⟩) (bs : List UInt8) :
    (sseParserFeed .default grantAll ctx (c :: bs)).failure =
        (sseParserFeed .default grantAll ctx' bs).failure ∧
      (sseParserFeed .default grantAll ctx (c :: bs)).state =
        (sseParserFeed .default grantAll ctx' bs).state ∧
      firedEvents (sseParserFeed .default grantAll ctx (c :: bs)).output =
        firedEvents out ++ firedEvents (sseParserFeed .default grantAll ctx' bs).output := by
  rw [sseParserFeed, hfeed, andThen_of_none rfl]
  exact ⟨rfl, rfl, firedEvents_append _ _⟩

/-- The events of a chunk are those of its first byte and those of the rest. -/
theorem eventPairs_feed {ctx' : SseParserCtx} {out : List SseEffect} {c : UInt8}
    (hfeed : sseFeedByte .default grantAll ctx c = ⟨ctx', out, none⟩) (bs : List UInt8) :
    (sseParserFeed .default grantAll ctx (c :: bs)).failure =
        (sseParserFeed .default grantAll ctx' bs).failure ∧
      eventPairs (sseParserFeed .default grantAll ctx (c :: bs)).output =
        eventPairs out ++ eventPairs (sseParserFeed .default grantAll ctx' bs).output := by
  obtain ⟨hfailure, -, hfired⟩ := sseParserFeed_cons hfeed bs
  rw [eventPairs_eq, eventPairs_eq, eventPairs_eq, hfired, List.map_append]
  exact ⟨hfailure, rfl⟩

/-- An LF does to what the parser holds what a line end does to the blocks. -/
theorem SseHolds.feedLf {lns : List (List UInt8)} (h : SseHolds ctx cur id block)
    (hlns : lns ≠ []) (hmoderate : Moderate (cur :: lns) block) :
    ∃ ctx' out id' block', sseFeedByte .default grantAll ctx lf = ⟨ctx', out, none⟩ ∧
      SseHolds ctx' [] id' block' ∧ Moderate lns block' ∧
      eventPairs out ++ eventsOf id' (blocksFrom block' lns.dropLast).dropLast =
        eventsOf id (blocksFrom block (cur :: lns).dropLast).dropLast := by
  rw [List.dropLast_cons_of_ne_nil hlns]
  by_cases hcur : cur = []
  · subst hcur
    obtain ⟨ctx', out, hfeed, hout, hholds⟩ := h.feedBlank
    refine ⟨ctx', out, _, _, hfeed, hholds, hmoderate.blank hlns, ?_⟩
    rw [hout, blocksFrom_blank, List.dropLast_cons_of_ne_nil (blocksFrom_ne_nil _ _)]
    rfl
  · have hid : ∀ v, fieldOf cur = some (idField, v) → 0 ∉ v :=
      hmoderate.id cur (by rw [List.dropLast_cons_of_ne_nil hlns]; exact List.mem_cons_self)
    have hnext := hmoderate.next hlns hcur
    obtain ⟨ctx', out, hfeed, hout, hholds⟩ := h.feedLine hcur hnext.fitting.data_le hid
    refine ⟨ctx', out, _, _, hfeed, hholds, hnext, ?_⟩
    rw [hout, blocksFrom_line hcur]
    rfl

/-- From any point between two bytes on, the parser does what the interpretation says. -/
theorem SseHolds.feed {stream : List UInt8} (hstream : CrBeforeLf stream)
    (h : SseHolds ctx cur id block) (hmoderate : Moderate (linesFrom false cur stream) block) :
    (sseParserFeed .default grantAll ctx stream).failure = none ∧
      eventPairs (sseParserFeed .default grantAll ctx stream).output =
        eventsOf id (blocksFrom block (linesFrom false cur stream).dropLast).dropLast := by
  induction hstream generalizing ctx cur id block with
  | nil => exact ⟨rfl, rfl⟩
  | @cons b bs hb hbs ih =>
    by_cases hlf : b = lf
    · rw [hlf, linesFrom_lf] at hmoderate ⊢
      obtain ⟨ctx', out, id', block', hfeed, hholds, hnext, hend⟩ :=
        h.feedLf (linesFrom_ne_nil false [] bs) hmoderate
      obtain ⟨hok, hevents⟩ := eventPairs_feed hfeed bs
      obtain ⟨ihok, ihevents⟩ := ih hholds hnext
      rw [hok, hevents, ihevents]
      exact ⟨ihok, hend⟩
    · rw [linesFrom_byte hb hlf] at hmoderate ⊢
      obtain ⟨ctx', out, hfeed, hout, hholds⟩ := h.feedByte hmoderate.fitting.length_lt hb hlf
      obtain ⟨hok, hevents⟩ := eventPairs_feed hfeed bs
      obtain ⟨ihok, ihevents⟩ := ih hholds hmoderate
      rw [hok, hevents, hout, ihevents]
      exact ⟨ihok, rfl⟩
  | @crlf bs hbs ih =>
    rw [linesFrom_crlf, ← linesFrom_lf] at hmoderate ⊢
    obtain ⟨hok, hout⟩ := ih h.endLine hmoderate
    rw [sseParserFeed, sseFeedByte_cr, andThen_of_none rfl]
    exact ⟨hok, hout⟩

end

/-- A stream without a byte order mark in which every CR is immediately followed by an LF, no
line is longer than 32767 bytes, no event has more than 32767 bytes of data with their LFs, and no
id has a NUL. -/
structure Regular (stream : List UInt8) : Prop where
  crlf : ∀ i < stream.length, stream[i]? = some cr → stream[i + 1]? = some lf
  noBom : ¬ byteOrderMark <+: stream
  line : ∀ l ∈ lines stream, l.length ≤ 32767
  data : ∀ b ∈ (blocks (lines stream).dropLast).dropLast, (dataOf b).length ≤ 32767
  id : ∀ l ∈ (lines stream).dropLast, ∀ v, fieldOf l = some (idField, v) → 0 ∉ v

/-- A regular stream in which the block that the stream breaks off has no more data than an event,
either. -/
structure Ordinary (stream : List UInt8) : Prop extends Regular stream where
  brokenOff : ∀ b ∈ (blocks (lines stream).dropLast).getLast?, (dataOf b).length ≤ 32767

theorem Ordinary.moderate {stream : List UInt8} (h : Ordinary stream) :
    Moderate (lines stream) [] := by
  refine ⟨h.line, fun b hb => ?_, h.id⟩
  change b ∈ blocks (lines stream).dropLast at hb
  have hne : blocks (lines stream).dropLast ≠ [] := blocksFrom_ne_nil _ _
  rw [← List.dropLast_append_getLast hne, List.mem_append, List.mem_singleton] at hb
  rcases hb with hended | rfl
  · exact h.data b hended
  · exact h.brokenOff _ (List.getLast?_eq_some_getLast hne)

/-- An ordinary stream in which no data field fills the data block of the parser exactly. -/
structure Roomy (garbage : SseBlock → Memory UInt8) (stream : List UInt8) : Prop
    extends Ordinary stream where
  apart : Incremental.NoneBad (sseParserFeed .default grantAll) SseExactFit
    (sseParserFresh none garbage) stream

/-- However a stream is cut into chunks, no call fails or stores outside a block, and `on_event` is
given data and id of the events of the stream. -/
theorem sseParserFeed_interprets {garbage : SseBlock → Memory UInt8} {chunks : List (List UInt8)}
    (roomy : Roomy garbage chunks.flatten) :
    (feedChunks (sseParserFeed .default grantAll) (sseParserFresh none garbage) chunks).failure =
        none ∧
      (∀ w ∈ (feedChunks (sseParserFeed .default grantAll) (sseParserFresh none garbage)
        chunks).output, w.InBounds) ∧
      eventPairs (feedChunks (sseParserFeed .default grantAll) (sseParserFresh none garbage)
        chunks).output = interpret chunks.flatten := by
  have hlines : lines chunks.flatten = linesFrom false [] chunks.flatten := by
    rw [lines, stripBom, if_neg roomy.noBom]
  have hmoderate : Moderate (linesFrom false [] chunks.flatten) [] := by
    rw [← hlines]
    exact roomy.moderate
  rw [(sseParserFeed_incremental .default grantAll).feedChunks_eq, interpret, hlines]
  obtain ⟨hok, hevents⟩ :=
    (sseHolds_fresh garbage).feed (crBeforeLf_of_forall roomy.crlf) hmoderate
  exact ⟨hok, (sseFeed_inBounds_iff _ _ (sseRoom_fresh none garbage) _).mpr roomy.apart, hevents⟩

/-- A data field and an id field with CRLF line ends, cut inside the first. -/
def sseNote : List (List UInt8) :=
  [asciiBytes ['d', 'a', 't', 'a', ':', ' ', 'H', 'i', '\r'],
    asciiBytes ['\n', 'i', 'd', ':', '7', '\r', '\n', '\r', '\n']]

theorem sseNote_interprets :
    (feedChunks (sseParserFeed .default grantAll) (sseParserFresh none fun _ _ => 0)
        sseNote).failure = none ∧
      eventPairs (feedChunks (sseParserFeed .default grantAll) (sseParserFresh none fun _ _ => 0)
        sseNote).output = [([0x48, 0x69], some [0x37])] := by
  have hordinary : Ordinary sseNote.flatten := by
    refine ⟨⟨by decide, by decide, by decide, by decide, ?_⟩, by decide⟩
    have hlines : (lines sseNote.flatten).dropLast =
        [asciiBytes ['d', 'a', 't', 'a', ':', ' ', 'H', 'i'],
          asciiBytes ['i', 'd', ':', '7'], []] := by
      decide
    have hfields : ∀ l ∈ (lines sseNote.flatten).dropLast, ∀ f ∈ fieldOf l, 0 ∉ f.2 := by
      rw [hlines]
      decide
    exact fun l hl v hv => hfields l hl (idField, v) hv
  have hroomy : Roomy (fun _ _ => 0) sseNote.flatten :=
    ⟨hordinary, (sseFeed_inBounds_iff _ _ (sseRoom_fresh _ _) _).mp (by decide)⟩
  obtain ⟨hok, -, hevents⟩ := sseParserFeed_interprets hroomy
  exact ⟨hok, hevents.trans (by decide)⟩

/-- Two data fields without a blank line behind them. -/
def sseBrokenOff (n m : ℕ) : List UInt8 := sseDataLine n ++ (lf :: (sseDataLine m ++ [lf]))

theorem sseBrokenOff_noBom (n m : ℕ) : ¬ byteOrderMark <+: sseBrokenOff n m := by
  rintro ⟨rest, hrest⟩
  have hhead := congrArg List.head? hrest
  simp [byteOrderMark, sseBrokenOff, sseDataLine, dataField, asciiBytes] at hhead

theorem lines_sseBrokenOff (n m : ℕ) :
    lines (sseBrokenOff n m) = [sseDataLine n, sseDataLine m, []] := by
  rw [lines, stripBom, if_neg (sseBrokenOff_noBom n m), sseBrokenOff,
    linesFrom_text (sseDataLine_bytes n), List.nil_append, linesFrom_lf,
    linesFrom_text (sseDataLine_bytes m), List.nil_append, linesFrom_lf]
  rfl

theorem blocks_sseBrokenOff (n m : ℕ) :
    blocks (lines (sseBrokenOff n m)).dropLast = [[sseDataLine n, sseDataLine m]] := by
  have hne (k : ℕ) : sseDataLine k ≠ [] := by simp [sseDataLine]
  rw [lines_sseBrokenOff]
  change blocks [sseDataLine n, sseDataLine m] = _
  rw [blocks, blocksFrom_line (hne n), blocksFrom_line (hne m)]
  rfl

theorem sseDataLine_noId (n : ℕ) (v : List UInt8)
    (h : fieldOf (sseDataLine n) = some (idField, v)) : 0 ∉ v := by
  have hname : (sseSplitField (sseDataLine n)).1 ≠ [] := by
    rw [sseDataLine_split]
    exact List.cons_ne_nil _ _
  have hfield : dataField ≠ idField := by decide
  rw [fieldOf_of_name hname, sseDataLine_split] at h
  exact absurd (Prod.mk.inj (Option.some.inj h)).1 hfield

/-- The two fields are no event, so that nothing bounds their data together. -/
theorem regular_sseBrokenOff {n m : ℕ} (hn : n ≤ 32762) (hm : m ≤ 32762) :
    Regular (sseBrokenOff n m) := by
  have hcr : cr ∉ sseBrokenOff n m := by
    intro hmem
    simp only [sseBrokenOff, List.mem_append, List.mem_cons, List.not_mem_nil, or_false] at hmem
    rcases hmem with hmem | hmem | hmem | hmem
    · exact (sseDataLine_bytes n _ hmem).1 rfl
    · exact absurd hmem (by decide)
    · exact (sseDataLine_bytes m _ hmem).1 rfl
    · exact absurd hmem (by decide)
  constructor
  · exact fun i _ hi => absurd (List.mem_of_getElem? hi) hcr
  · exact sseBrokenOff_noBom n m
  · rw [lines_sseBrokenOff]
    simp only [List.forall_mem_cons, sseDataLine_length, List.length_nil, List.not_mem_nil]
    exact ⟨by omega, by omega, by omega, fun l hl => hl.elim⟩
  · rw [blocks_sseBrokenOff]
    exact fun b hb => absurd hb List.not_mem_nil
  · rw [lines_sseBrokenOff]
    change ∀ l ∈ [sseDataLine n, sseDataLine m], _
    exact List.forall_mem_cons.mpr
      ⟨sseDataLine_noId n, List.forall_mem_singleton.mpr (sseDataLine_noId m)⟩

/-- Beyond 32768 bytes of data the second field fails the call, event or not. -/
theorem sseBrokenOff_overflow {n m : ℕ} (hn : n ≤ 32762) (hm : m ≤ 32762)
    (hover : 32768 ≤ n + 1 + m) (garbage : SseBlock → Memory UInt8) :
    (sseParserFeed .default grantAll (sseParserFresh none garbage) (sseBrokenOff n m)).failure =
      some .msgSize := by
  have hfeed := sseParserFeed_incremental .default grantAll
  have hlength (k : ℕ) (hk : k ≤ 32762) :
      ([] : List UInt8).length + (sseDataLine k).length ≤ 32767 := by
    rw [sseDataLine_length, List.length_nil]
    omega
  have hdata : dataOf ([] ++ [sseDataLine n]) = List.replicate n 0x78 ++ [lf] := by
    rw [dataOf_append_data (by rw [sseDataLine_split]), sseDataLine_split]
    rfl
  obtain ⟨ctx, hok, hstate, hholds⟩ :=
    (sseHolds_fresh garbage).feedText (hlength n hn) (sseDataLine_bytes n)
  rw [List.nil_append] at hholds
  obtain ⟨ctx₁, out, hlf, -, hholds₁⟩ := hholds.feedLine (by simp [sseDataLine])
    (by rw [hdata]; simp; omega) (sseDataLine_noId n)
  obtain ⟨ctx₂, hok₂, hstate₂, hholds₂⟩ := hholds₁.feedText (hlength m hm) (sseDataLine_bytes m)
  have hfull : 32768 ≤ (dataOf ([] ++ [sseDataLine n])).length +
      (List.replicate m (0x78 : UInt8)).length := by
    rw [hdata]
    simpa using hover
  have hlast : (sseFeedByte .default grantAll ctx₂ lf).failure = some .msgSize := by
    have hfails := hholds₂.endLine.toSseGathers.overflow hfull
    rw [sseFeedByte_lf, andThen_of_none rfl, sseEndLine_line, hholds₂.line, List.nil_append,
      sseProcessLine_data (by rw [sseDataLine_split]), sseDataLine_split,
      andThen_of_failure (by simp [hfails])]
    exact hfails
  have hrest : (sseParserFeed .default grantAll ctx (lf :: (sseDataLine m ++ [lf]))).failure =
      some .msgSize := by
    rw [sseParserFeed, hlf, andThen_of_none rfl, hfeed.append, andThen_of_none hok₂, hstate₂,
      sseParserFeed_singleton]
    exact hlast
  rw [sseBrokenOff, hfeed.append, andThen_of_none hok, hstate]
  exact hrest

/-- The longest line that a data field has room in, and ten bytes of data in a second field: a
stream without events, which fails the call. -/
theorem sseBrokenOff_fails :
    Regular [sseBrokenOff 32762 10].flatten ∧
      interpret [sseBrokenOff 32762 10].flatten = [] ∧
      (feedChunks (sseParserFeed .default grantAll) (sseParserFresh none fun _ _ => 0)
        [sseBrokenOff 32762 10]).failure = some .msgSize := by
  have hn : 32762 ≤ 32762 := le_rfl
  have hm : 10 ≤ 32762 := by norm_num
  rw [(sseParserFeed_incremental .default grantAll).feedChunks_eq, List.flatten_singleton]
  refine ⟨regular_sseBrokenOff hn hm, ?_, sseBrokenOff_overflow hn hm (by norm_num) _⟩
  rw [interpret, blocks_sseBrokenOff]
  rfl

end AbstractHttp.EventStream
