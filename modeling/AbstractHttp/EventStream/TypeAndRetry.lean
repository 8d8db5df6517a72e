import AbstractHttp.EventStream.Conformance
import AbstractHttp.EventStream.TypeFormat

/-!
# Types and retry times as the parser keeps them

The parser keeps the type of the block so far and the retry time of the lines so
far. An event field replaces the type even by nothing, and a retry field replaces
the time by whatever `atoi` makes of its first 31 bytes, so that the parser keeps
to the format exactly on the streams in which neither makes a difference.
-/
namespace AbstractHttp.EventStream
open Library Outcome

variable {ctx : SseParserCtx} {line cur stream start value : List UInt8}
  {block ls lns : List (List UInt8)} {initial retry : ℤ}

/-- Types of the events among the effects of a call. -/
def eventTypes (out : List SseEffect) : List (Option (List UInt8)) :=
  (firedEvents out).map SseEvent.event

/-- The type that the parser holds behind the lines of a block. -/
def heldType (block : List (List UInt8)) : List UInt8 := (lastType block).getD messageType

/-- The types that the events of blocks are given. -/
def heldTypes (bs : List (List (List UInt8))) : List (Option (List UInt8)) :=
  (bs.filter fun block => dataValues block ≠ []).map fun block => some (cString (heldType block))

theorem heldTypes_cons (block : List (List UInt8)) (bs : List (List (List UInt8))) :
    heldTypes (block :: bs) = heldTypes [block] ++ heldTypes bs := by
  rw [← List.singleton_append, heldTypes, List.filter_append, List.map_append]
  rfl

/-- What a line makes of the retry time. -/
def heldRetry (retry : ℤ) (line : List UInt8) : ℤ :=
  match fieldValue retryField line with
  | some value => atoi (cString (value.take 31))
  | none => retry

theorem fieldValue_of_ne {name : List UInt8} (hne : name ≠ [])
    (hname : (sseSplitField line).1 ≠ name) : fieldValue name line = none := by
  rw [fieldValue_eq hne, if_neg hname]

theorem heldType_append_event (hname : (sseSplitField line).1 = eventField) :
    heldType (block ++ [line]) = (sseSplitField line).2 := by
  rw [heldType, lastType_append, fieldValue_eq (by decide), if_pos hname]
  rfl

theorem heldType_append_other (hname : (sseSplitField line).1 ≠ eventField) :
    heldType (block ++ [line]) = heldType block := by
  rw [heldType, lastType_append, fieldValue_of_ne (by decide) hname]
  rfl

theorem heldRetry_retry (hname : (sseSplitField line).1 = retryField) (retry : ℤ) :
    heldRetry retry line = atoi (cString ((sseSplitField line).2.take 31)) := by
  rw [heldRetry, fieldValue_eq (by decide), if_pos hname]

theorem heldRetry_other (hname : (sseSplitField line).1 ≠ retryField) (retry : ℤ) :
    heldRetry retry line = retry := by
  rw [heldRetry, fieldValue_of_ne (by decide) hname]

/-- What the parser holds between two bytes: the line so far, data and type of the block so far and
the retry time. -/
structure SseTyped (ctx : SseParserCtx) (cur : List UInt8) (block : List (List UInt8))
    (retry : ℤ) : Prop extends SseReads ctx cur, SseGathers ctx (dataOf block) where
  type : ctx.currentEvent = some (heldType block)
  retry : ctx.retryMs = retry

theorem sseTyped_fresh (config : Option SseConfig) (garbage : SseBlock → Memory UInt8) :
    SseTyped (sseParserFresh config garbage) [] [] (sseParserFresh config garbage).retryMs where
  toSseReads := sseReads_fresh config garbage
  data := rfl
  dataCapacity := ⟨0, by norm_num, rfl⟩
  type := rfl
  retry := rfl

theorem SseTyped.endLine (h : SseTyped ctx cur block retry) :
    SseTyped (sseEndLine ctx) cur block retry where
  toSseReads := h.toSseReads.endLine
  data := h.data
  dataCapacity := h.dataCapacity
  type := h.type
  retry := h.retry

theorem SseTyped.restart (h : SseTyped ctx cur block retry) :
    SseTyped { ctx with lineOffset := 0 } [] block retry where
  toSseReads := h.toSseReads.restart
  data := h.data
  dataCapacity := h.dataCapacity
  type := h.type
  retry := h.retry

/-- A blank line gives the event its type and begins another block. -/
theorem SseTyped.blank (h : SseTyped ctx cur block retry) :
    ∃ ctx' out, sseProcessLine .default grantAll ctx [] = ⟨ctx', out, none⟩ ∧
      eventTypes out = heldTypes [block] ∧ SseTyped ctx' cur [] retry := by
  obtain ⟨out, buffer, hprocess, hout⟩ := h.toSseGathers.blank
  refine ⟨_, out, hprocess, ?_, ⟨h.line, h.capacity, h.room⟩, ⟨rfl, h.dataCapacity⟩, rfl, h.retry⟩
  rw [eventTypes, hout, heldEvents, heldTypes, h.type]
  by_cases hvalues : dataValues block = [] <;> simp [hvalues]

/-- A data field joins the block. -/
theorem SseTyped.processData (h : SseTyped ctx cur block retry)
    (hname : (sseSplitField line).1 = dataField)
    (hdata : (dataOf (block ++ [line])).length ≤ 32767) :
    ∃ ctx' out, sseProcessLine .default grantAll ctx line = ⟨ctx', out, none⟩ ∧
      firedEvents out = [] ∧ SseTyped ctx' cur (block ++ [line]) (heldRetry retry line) := by
  have hevent : dataField ≠ eventField := by decide
  have hretry : dataField ≠ retryField := by decide
  obtain ⟨cap, out, hprocess, hout, hgathers⟩ := h.toSseGathers.processData hname hdata
  rw [heldRetry_other (hname ▸ hretry)]
  refine ⟨_, out, hprocess, hout, ⟨h.line, h.capacity, h.room⟩, hgathers, ?_, h.retry⟩
  rw [heldType_append_other (hname ▸ hevent)]
  exact h.type

/-- Any other line that is not empty joins the block. -/
theorem SseTyped.processOther (h : SseTyped ctx cur block retry) (hline : line ≠ [])
    (hname : (sseSplitField line).1 ≠ dataField) :
    ∃ ctx', sseProcessLine .default grantAll ctx line = ⟨ctx', [], none⟩ ∧
      SseTyped ctx' cur (block ++ [line]) (heldRetry retry line) := by
  have hgathers : SseGathers ctx (dataOf (block ++ [line])) := by
    rw [dataOf_append_other hname]
    exact h.toSseGathers
  rw [sseProcessLine_field hline, if_neg hname]
  by_cases hevent : (sseSplitField line).1 = eventField
  · have hretry : eventField ≠ retryField := by decide
    rw [if_pos hevent, heldRetry_other (hevent ▸ hretry)]
    refine ⟨_, rfl, ⟨h.line, h.capacity, h.room⟩, ⟨hgathers.data, hgathers.dataCapacity⟩, ?_,
      h.retry⟩
    rw [heldType_append_event hevent]
  · have htype : ctx.currentEvent = some (heldType (block ++ [line])) := by
      rw [heldType_append_other hevent]
      exact h.type
    rw [if_neg hevent]
    by_cases hretry : (sseSplitField line).1 = retryField
    · have hid : retryField ≠ idField := by decide
      rw [if_neg (hretry ▸ hid), if_pos hretry, heldRetry_retry hretry]
      exact ⟨_, rfl, ⟨h.line, h.capacity, h.room⟩, ⟨hgathers.data, hgathers.dataCapacity⟩, htype,
        rfl⟩
    · rw [if_neg hretry, heldRetry_other hretry]
      split
      · exact ⟨_, rfl, ⟨h.line, h.capacity, h.room⟩, ⟨hgathers.data, hgathers.dataCapacity⟩, htype,
          h.retry⟩
      · exact ⟨_, rfl, h.toSseReads, hgathers, htype, h.retry⟩

/-- A line that is not empty joins the block. -/
theorem SseTyped.process (h : SseTyped ctx cur block retry) (hline : line ≠ [])
    (hdata : (dataOf (block ++ [line])).length ≤ 32767) :
    ∃ ctx' out, sseProcessLine .default grantAll ctx line = ⟨ctx', out, none⟩ ∧
      firedEvents out = [] ∧ SseTyped ctx' cur (block ++ [line]) (heldRetry retry line) := by
  by_cases hname : (sseSplitField line).1 = dataField
  · exact h.processData hname hdata
  · obtain ⟨ctx', hprocess, htyped⟩ := h.processOther hline hname
    exact ⟨ctx', [], hprocess, rfl, htyped⟩

/-- An LF does to what the parser holds what a line end does to the blocks. -/
theorem SseTyped.feedLf (h : SseTyped ctx cur block retry) (hlns : lns ≠ [])
    (hfit : Fitting (cur :: lns) block) :
    ∃ ctx' out block', sseFeedByte .default grantAll ctx lf = ⟨ctx', out, none⟩ ∧
      SseTyped ctx' [] block' (heldRetry retry cur) ∧ Fitting lns block' ∧
      eventTypes out ++ heldTypes (blocksFrom block' lns.dropLast).dropLast =
        heldTypes (blocksFrom block (cur :: lns).dropLast).dropLast := by
  rw [List.dropLast_cons_of_ne_nil hlns]
  by_cases hcur : cur = []
  · subst hcur
    obtain ⟨ctx', out, hprocess, hout, htyped⟩ := h.endLine.blank
    rw [heldRetry_other (by decide)]
    refine ⟨_, _, [], sseFeedByte_lf_of_process h.line hprocess, htyped.restart, hfit.blank hlns, ?_⟩
    rw [blocksFrom_blank, List.dropLast_cons_of_ne_nil (blocksFrom_ne_nil _ _), heldTypes_cons,
      ← hout]
    rfl
  · have hnext := hfit.next hlns hcur
    obtain ⟨ctx', out, hprocess, hout, htyped⟩ := h.endLine.process hcur hnext.data_le
    refine ⟨_, _, _, sseFeedByte_lf_of_process h.line hprocess, htyped.restart, hnext, ?_⟩
    have hquiet : eventTypes out = [] := by
      rw [eventTypes, hout, List.map_nil]
    change eventTypes out ++ _ = _
    rw [hquiet, blocksFrom_line hcur, List.nil_append]

theorem SseTyped.feedByte {c : UInt8} (h : SseTyped ctx cur block retry)
    (hlen : cur.length < 32767) (hcr : c ≠ cr) (hlf : c ≠ lf) :
    ∃ ctx' out, sseFeedByte .default grantAll ctx c = ⟨ctx', out, none⟩ ∧
      firedEvents out = [] ∧ SseTyped ctx' (cur ++ [c]) block retry := by
  obtain ⟨cap, hfeed, hreads⟩ := h.toSseReads.feedByte hlen hcr hlf
  exact ⟨_, _, hfeed, rfl, hreads, ⟨h.data, h.dataCapacity⟩, h.type, h.retry⟩

/-- From any point between two bytes on, every event is given the type that is held behind its
block, and every line that has ended has had its effect on the retry time. -/
theorem SseTyped.feed (h : SseTyped ctx cur block retry) (hcr : cr ∉ stream)
    (hfit : Fitting (linesFrom false cur stream) block) :
    (sseParserFeed .default grantAll ctx stream).state.retryMs =
        (linesFrom false cur stream).dropLast.foldl heldRetry retry ∧
      eventTypes (sseParserFeed .default grantAll ctx stream).output =
        heldTypes (blocksFrom block (linesFrom false cur stream).dropLast).dropLast := by
  induction stream generalizing ctx cur block retry with
  | nil => exact ⟨h.retry, rfl⟩
  | cons b bs ih =>
    obtain ⟨hb, hbs⟩ := List.ne_and_not_mem_of_not_mem_cons hcr
    by_cases hlf : b = lf
    · have hne := linesFrom_ne_nil false [] bs
      rw [hlf, linesFrom_lf] at hfit ⊢
      obtain ⟨ctx', out, block', hfeed, htyped, hnext, hend⟩ := h.feedLf hne hfit
      obtain ⟨-, hstate, hfired⟩ := sseParserFeed_cons hfeed bs
      obtain ⟨ihretry, ihtypes⟩ := ih htyped hbs hnext
      rw [hstate, ihretry, List.dropLast_cons_of_ne_nil hne, List.foldl_cons]
      refine ⟨rfl, ?_⟩
      rw [← List.dropLast_cons_of_ne_nil hne, ← hend, ← ihtypes, eventTypes, hfired,
        List.map_append]
      rfl
    · rw [linesFrom_byte hb.symm hlf] at hfit ⊢
      obtain ⟨ctx', out, hfeed, hout, htyped⟩ := h.feedByte hfit.length_lt hb.symm hlf
      obtain ⟨-, hstate, hfired⟩ := sseParserFeed_cons hfeed bs
      obtain ⟨ihretry, ihtypes⟩ := ih htyped hbs hfit
      rw [hstate, eventTypes, hfired, hout]
      exact ⟨ihretry, ihtypes⟩

/-- A stream without CR and without a byte order mark in which no line is longer than 32767 bytes
and no event has more than 32767 bytes of data with their LFs, the one that the stream breaks off
included. -/
structure LfStream (stream : List UInt8) : Prop where
  noCr : cr ∉ stream
  noBom : ¬ byteOrderMark <+: stream
  line : ∀ l ∈ lines stream, l.length ≤ 32767
  data : ∀ b ∈ blocks (lines stream).dropLast, (dataOf b).length ≤ 32767

theorem LfStream.fitting (h : LfStream stream) : Fitting (linesFrom false [] stream) [] := by
  rw [← lines_eq_linesFrom h.noBom]
  exact ⟨h.line, h.data⟩

/-- Lines and events that fit still fit where the stream breaks them off. -/
theorem Fitting.of_append {rest : List UInt8} (hcr : cr ∉ start)
    (h : Fitting (linesFrom false cur (start ++ rest)) block) :
    Fitting (linesFrom false cur start) block := by
  obtain ⟨hline, hdata⟩ := h
  rw [linesFrom_append hcr] at hline hdata
  rw [List.dropLast_append_of_ne_nil (linesFrom_ne_nil _ _ _), blocksFrom_append] at hdata
  constructor
  · intro l hl
    rw [← List.dropLast_concat_getLast (linesFrom_ne_nil false cur start)] at hl
    rcases List.mem_append.mp hl with hl | hl
    · exact hline l (List.mem_append_left _ hl)
    · obtain ⟨more, hmore⟩ := exists_mem_linesFrom false
        ((linesFrom false cur start).getLast (linesFrom_ne_nil _ _ _)) rest
      have hlen := hline _ (List.mem_append_right _ hmore)
      rw [List.length_append, ← List.mem_singleton.mp hl] at hlen
      omega
  · intro b hb
    rw [← List.dropLast_concat_getLast (blocksFrom_ne_nil block _)] at hb
    rcases List.mem_append.mp hb with hb | hb
    · exact hdata b (List.mem_append_left _ hb)
    · obtain ⟨more, hmore⟩ := exists_mem_blocksFrom
        ((blocksFrom block (linesFrom false cur start).dropLast).getLast (blocksFrom_ne_nil _ _)) _
      have hlen := hdata _ (List.mem_append_right _ hmore)
      rw [dataOf_append, List.length_append, ← List.mem_singleton.mp hb] at hlen
      omega

theorem LfStream.of_prefix (h : LfStream stream) (hstart : start <+: stream) : LfStream start := by
  obtain ⟨rest, rfl⟩ := hstart
  have hcr : cr ∉ start := fun hmem => h.noCr (List.mem_append_left rest hmem)
  have hbom : ¬ byteOrderMark <+: start := fun hmark =>
    h.noBom (hmark.trans (List.prefix_append start rest))
  obtain ⟨hline, hdata⟩ := h.fitting.of_append hcr
  rw [← lines_eq_linesFrom hbom] at hline hdata
  exact ⟨hcr, hbom, hline, hdata⟩

/-- However a stream is cut into chunks, types and retry time are the held ones. -/
theorem LfStream.feedChunks {chunks : List (List UInt8)} (h : LfStream chunks.flatten)
    (config : Option SseConfig) (garbage : SseBlock → Memory UInt8) :
    (feedChunks (sseParserFeed .default grantAll) (sseParserFresh config garbage)
        chunks).state.retryMs =
        (lines chunks.flatten).dropLast.foldl heldRetry (sseParserFresh config garbage).retryMs ∧
      eventTypes (feedChunks (sseParserFeed .default grantAll) (sseParserFresh config garbage)
        chunks).output = (eventBlocks chunks.flatten).map fun b => some (cString (heldType b)) := by
  rw [(sseParserFeed_incremental .default grantAll).feedChunks_eq, eventBlocks,
    lines_eq_linesFrom h.noBom]
  exact (sseTyped_fresh config garbage).feed h.noCr h.fitting

/-- The last event field of a block, if there is one, has a value, and one without NUL. -/
def TypeRead (block : List (List UInt8)) : Prop :=
  ∀ value, lastType block = some value → value ≠ [] ∧ 0 ∉ value

/-- A retry field with a numeral that an `int` holds has at most 31 digits or is zero; any other
value reads, in its first 31 bytes, as the retry time that the lines before it have set. -/
def RetryRead (initial : ℤ) (before : List (List UInt8)) (line : List UInt8) : Prop :=
  ∀ value, fieldValue retryField line = some value →
    if Numeral value then
      2 ^ 31 ≤ decimalValue value ∨ value.length ≤ 31 ∨ decimalValue value = 0
    else IsRetry initial before (atoi (cString (value.take 31)))

/-- The held type is the type of the event exactly when the last event field has a value that is a
C string. -/
theorem cString_heldType_iff : cString (heldType block) = typeOf block ↔ TypeRead block := by
  rw [heldType, typeOf, TypeRead]
  cases lastType block with
  | none => exact iff_of_true (by decide) fun value hvalue => by cases hvalue
  | some value =>
    rw [Option.getD_some]
    simp only [Option.some.injEq, forall_eq']
    by_cases hempty : value = []
    · subst hempty
      exact iff_of_false (by decide) fun hread => hread.1 rfl
    · rw [if_neg hempty, cString_eq_self_iff]
      exact (and_iff_right hempty).symm

theorem heldRetry_of_none (h : fieldValue retryField line = none) (retry : ℤ) :
    heldRetry retry line = retry := by
  rw [heldRetry, h]

/-- A retry field sets the right time exactly when it is read right. -/
theorem isRetry_heldRetry_iff (hvalue : fieldValue retryField line = some value) :
    IsRetry initial (ls ++ [line]) (heldRetry retry line) ↔ RetryRead initial ls line := by
  have hheld : heldRetry retry line = atoi (cString (value.take 31)) := by
    rw [heldRetry, hvalue]
  have hread : RetryRead initial ls line ↔ if Numeral value then
      2 ^ 31 ≤ decimalValue value ∨ value.length ≤ 31 ∨ decimalValue value = 0
      else IsRetry initial ls (atoi (cString (value.take 31))) := by
    rw [RetryRead, hvalue]
    simp only [Option.some.injEq, forall_eq']
  rw [hheld, hread]
  by_cases hnumeral : Numeral value
  · have htime : retryTime line = some (decimalValue value) := by
      rw [retryTime, hvalue]
      exact if_pos hnumeral
    have hne := hnumeral.1
    have hdigits := List.all_eq_true.mp hnumeral.2
    have htext : cString (value.take 31) = value.take 31 := by
      rw [cString_eq_self_iff]
      intro hmem
      have hzero := hdigits 0 (List.mem_of_mem_take hmem)
      contradiction
    rw [isRetry_append_of_some htime, if_pos hnumeral, htext, ← not_lt, ← imp_iff_not_or]
    exact imp_congr_right fun hfits => atoi_take_iff hdigits hne (by norm_num) hfits
  · have htime : retryTime line = none := by
      rw [retryTime, hvalue]
      exact if_neg hnumeral
    rw [isRetry_append_of_none htime, if_neg hnumeral]

/-- The retry time is right behind every beginning of the lines exactly when every retry field is
read right. -/
theorem isRetry_foldl_iff : (∀ before, before <+: lns →
      IsRetry initial before (before.foldl heldRetry initial)) ↔
    ∀ before line, before ++ [line] <+: lns → RetryRead initial before line := by
  constructor
  · intro h before line hbegins value hvalue
    have hretry := h _ hbegins
    rw [List.foldl_append] at hretry
    exact (isRetry_heldRetry_iff hvalue).mp hretry value hvalue
  · intro h before hbegins
    induction before using List.reverseRecOn with
    | nil => rfl
    | append_singleton before line ih =>
      have hbefore := ih ((List.prefix_append before [line]).trans hbegins)
      rw [List.foldl_append, List.foldl_cons, List.foldl_nil]
      cases hvalue : fieldValue retryField line with
      | none =>
        have htime : retryTime line = none := by
          rw [retryTime, hvalue]
        rw [isRetry_append_of_none htime, heldRetry_of_none hvalue]
        exact hbefore
      | some value => exact (isRetry_heldRetry_iff hvalue).mpr (h before line hbegins)

/-- After every beginning of the stream, cut into chunks in whatever way, `on_event` has been given
the types of the events, and `retry_ms` is the last retry time. -/
structure KeepsTypeAndRetry (config : Option SseConfig) (garbage : SseBlock → Memory UInt8)
    (stream : List UInt8) : Prop where
  types : ∀ chunks : List (List UInt8), chunks.flatten <+: stream →
    eventTypes (feedChunks (sseParserFeed .default grantAll) (sseParserFresh config garbage)
      chunks).output = (eventBlocks chunks.flatten).map fun block => some (typeOf block)
  retry : ∀ chunks : List (List UInt8), chunks.flatten <+: stream →
    IsRetry (sseParserFresh config garbage).retryMs (lines chunks.flatten).dropLast
      (feedChunks (sseParserFeed .default grantAll) (sseParserFresh config garbage)
        chunks).state.retryMs

/-- The events of a beginning of the stream are the first events of the stream. -/
theorem LfStream.eventBlocks_mono (h : LfStream stream) (hstart : start <+: stream) :
    eventBlocks start <+: eventBlocks stream := by
  rw [eventBlocks, eventBlocks, lines_eq_linesFrom h.noBom,
    lines_eq_linesFrom (h.of_prefix hstart).noBom]
  exact (blocksFrom_dropLast_mono (linesFrom_dropLast_mono h.noCr hstart []) []).filter _

/-- Types and retry time are those of the format after every beginning of the stream exactly when
no event of the stream has an empty type or one with a NUL, and every retry field is read right. -/
theorem keepsTypeAndRetry_iff (config : Option SseConfig) (garbage : SseBlock → Memory UInt8)
    (h : LfStream stream) : KeepsTypeAndRetry config garbage stream ↔
      (∀ block ∈ eventBlocks stream, TypeRead block) ∧
        ∀ before line, before ++ [line] <+: (lines stream).dropLast →
          RetryRead (sseParserFresh config garbage).retryMs before line := by
  have hlines := lines_eq_linesFrom h.noBom
  rw [← isRetry_foldl_iff]
  constructor
  · intro hkeeps
    constructor
    · have hflatten : [stream].flatten = stream := List.flatten_singleton
      have htypes := hkeeps.types [stream] (by rw [hflatten])
      rw [(LfStream.feedChunks (by rwa [hflatten]) config garbage).2, hflatten,
        List.map_inj_left] at htypes
      exact fun block hblock => cString_heldType_iff.mp (Option.some.inj (htypes block hblock))
    · intro before hbefore
      rw [hlines] at hbefore
      obtain ⟨start, hstart, hread⟩ := exists_prefix_of_lines h.noCr hbefore
      have hlf := h.of_prefix hstart
      have hflatten : [start].flatten = start := List.flatten_singleton
      have hretry := hkeeps.retry [start] (by rwa [hflatten])
      rw [(LfStream.feedChunks (by rwa [hflatten]) config garbage).1, hflatten,
        lines_eq_linesFrom hlf.noBom, hread] at hretry
      exact hretry
  · rintro ⟨htypes, hretry⟩
    constructor
    · intro chunks hchunks
      rw [((h.of_prefix hchunks).feedChunks config garbage).2, List.map_inj_left]
      intro block hblock
      have hread := htypes block ((h.eventBlocks_mono hchunks).subset hblock)
      rw [cString_heldType_iff.mpr hread]
    · intro chunks hchunks
      have hlf := h.of_prefix hchunks
      rw [(hlf.feedChunks config garbage).1]
      apply hretry
      rw [hlines, lines_eq_linesFrom hlf.noBom]
      exact linesFrom_dropLast_mono h.noCr hchunks []

/-- A block with a type, one without, and a retry time. -/
def sseTick : List UInt8 :=
  eventField ++ colon :: asciiBytes ['t', 'i', 'c', 'k'] ++ [lf] ++
    dataField ++ [colon, 0x31, lf, lf] ++ dataField ++ [colon, 0x32, lf] ++
    retryField ++ [colon, space, 0x31, 0x30, lf, lf]

theorem sseTick_keeps :
    KeepsTypeAndRetry none (fun _ _ => 0) sseTick ∧ eventTypes (feedChunks
        (sseParserFeed .default grantAll) (sseParserFresh none fun _ _ => 0) [sseTick]).output =
      [some (asciiBytes ['t', 'i', 'c', 'k']), some messageType] := by
  have hlf : LfStream sseTick := ⟨by decide, by decide, by decide, by decide⟩
  have htype : ∀ block ∈ eventBlocks sseTick, ∀ value ∈ lastType block,
      value ≠ [] ∧ 0 ∉ value := by
    decide
  have hretry : ∀ line ∈ (lines sseTick).dropLast, ∀ value ∈ fieldValue retryField line,
      Numeral value ∧ value.length ≤ 31 := by
    decide
  have hkeeps := (keepsTypeAndRetry_iff none (fun _ _ => 0) hlf).mpr ⟨htype, by
    intro before line hbegins value hvalue
    have hmem : line ∈ before ++ [line] := by simp
    obtain ⟨hnumeral, hlen⟩ := hretry line (hbegins.subset hmem) value hvalue
    rw [if_pos hnumeral]
    exact Or.inr (Or.inl hlen)⟩
  refine ⟨hkeeps, (hkeeps.types [sseTick] ?_).trans ?_⟩
  · decide
  · decide

/-- An event field without a value. -/
def sseEmptyType : List UInt8 :=
  eventField ++ [colon, lf] ++ dataField ++ [colon, 0x31, lf, lf]

/-- A retry field whose value is no number. -/
def sseNoTime : List UInt8 := retryField ++ [colon, 0x78, lf]

/-- An event field without a value sets the empty type, and a retry field with a letter sets
`retry_ms` to zero. -/
theorem sseLenient_changes :
    (LfStream sseEmptyType ∧ ¬ KeepsTypeAndRetry none (fun _ _ => 0) sseEmptyType) ∧
      LfStream sseNoTime ∧ ¬ KeepsTypeAndRetry none (fun _ _ => 0) sseNoTime := by
  have hempty : LfStream sseEmptyType := ⟨by decide, by decide, by decide, by decide⟩
  have hletter : LfStream sseNoTime := ⟨by decide, by decide, by decide, by decide⟩
  refine ⟨⟨hempty, fun hkeeps => ?_⟩, hletter, fun hkeeps => ?_⟩
  · have htypes := hkeeps.types [sseEmptyType] (by decide)
    rw [← List.flatten_singleton (l := sseEmptyType)] at hempty
    rw [(hempty.feedChunks none fun _ _ => 0).2] at htypes
    exact absurd htypes (by decide)
  · have hretry := hkeeps.retry [sseNoTime] (by decide)
    rw [← List.flatten_singleton (l := sseNoTime)] at hletter
    have hnone : lastRetry (lines [sseNoTime].flatten).dropLast = none := by decide
    rw [(hletter.feedChunks none fun _ _ => 0).1, IsRetry, hnone] at hretry
    exact absurd hretry (by decide)

end AbstractHttp.EventStream
