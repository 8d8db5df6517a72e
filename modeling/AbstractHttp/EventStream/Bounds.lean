import AbstractHttp.EventStream.Lines

/-!
# Stores outside the blocks of the parser

The test for room in the data block counts a value and its LF, but not the NUL
behind them. A data field that fits exactly is stored without growth, and its NUL
lands one byte behind the block.
-/
namespace AbstractHttp.EventStream
open Library Outcome

variable {build : SseBuild} {alloc : SseAlloc} {ctx : SseParserCtx} {c : UInt8}
  {value line : List UInt8}

/-- A store that stays inside its block. Callbacks store nothing. -/
def SseEffect.InBounds : SseEffect → Prop
  | .stored _ extent => extent.InBounds
  | _ => True

theorem inBounds_stored_iff {block : SseBlock} {start len capacity : ℕ} :
    (SseEffect.stored block ⟨start, len, capacity⟩).InBounds ↔
      len = 0 ∨ start + len ≤ capacity :=
  Extent.inBounds_iff _

instance : DecidablePred SseEffect.InBounds
  | .stored _ extent => inferInstanceAs (Decidable extent.InBounds)
  | .onEvent _ => .isTrue trivial
  | .onError _ => .isTrue trivial

theorem OnlyErrors.inBounds {out : List SseEffect} (h : OnlyErrors out) :
    ∀ w ∈ out, w.InBounds := by
  intro w hw
  obtain ⟨code, rfl⟩ := h w hw
  trivial

/-- Stores in bounds only, in whatever way the call ends. -/
abbrev SseSound (o : SseOutcome) : Prop := Keeps SseRoom SseEffect.InBounds o

/-- A line that ends with an LF is a data field whose value and LF fill the data block. -/
def SseExactFit (ctx : SseParserCtx) (c : UInt8) : Prop :=
  c = lf ∧ (sseSplitField ctx.line).1 = dataField ∧
    ctx.dataOffset + (sseSplitField ctx.line).2.length + 1 = ctx.dataCapacity

/-- A data field leaves room for the next, even where it fits exactly. -/
theorem sseAddData_room (h : SseRoom ctx) :
    SseRoom (sseAddData build alloc ctx value).state := by
  rcases sseGrowData_cases build alloc h with
    ⟨out, e, hgrow, -, -⟩ | ⟨cap, hgrow, hcap⟩
  · rw [sseAddData_of_fail hgrow]
    exact h
  · rw [sseAddData_of_grow hgrow]
    refine ⟨h.line, ?_, ?_⟩
    · simp only [ssePushData]
      omega
    · simp only [ssePushData]
      omega

/-- The three stores of a data field are in bounds exactly when it does not fit exactly. -/
theorem sseAddData_inBounds_iff (h : SseRoom ctx) :
    (∀ w ∈ (sseAddData build alloc ctx value).output, w.InBounds) ↔
      ctx.dataOffset + value.length + 1 ≠ ctx.dataCapacity := by
  rcases sseGrowData_cases build alloc h with
    ⟨out, e, hgrow, hout, hgrown⟩ | ⟨cap, hgrow, hcap⟩
  · rw [sseAddData_of_fail hgrow]
    exact iff_of_true hout.inBounds (by omega)
  · rw [sseAddData_of_grow hgrow]
    simp only [List.mem_cons, List.not_mem_nil, or_false, forall_eq_or_imp, forall_eq,
      inBounds_stored_iff]
    omega

theorem sseDispatch_sound (h : SseRoom ctx) : SseSound (sseDispatch alloc ctx) := by
  rw [sseDispatch]
  apply Keeps.andThen
  · split
    · rename_i hpos
      have hdata := h.data
      rw [sseFireEvent_eq]
      refine ⟨⟨h.line, h.capacity, ?_⟩, ?_⟩
      · dsimp only
        omega
      · simp only [List.mem_cons, List.not_mem_nil, or_false, forall_eq_or_imp, forall_eq,
          inBounds_stored_iff]
        exact ⟨by omega, trivial⟩
    · exact keeps_done h
  · intro ctx h
    have hpos := h.capacity
    rcases sseResetEvent_cases alloc ctx with hreset | ⟨-, hreset⟩
    · rw [hreset]
      refine ⟨⟨h.line, hpos, Nat.zero_le _⟩, ?_⟩
      simp only [List.mem_singleton, forall_eq, inBounds_stored_iff]
      omega
    · rw [hreset]
      exact ⟨⟨h.line, hpos, h.data⟩, by simp [fail]⟩

/-- Only a data field can store outside its block. -/
theorem sseProcessLine_sound (h : SseRoom ctx) (hdata : (sseSplitField line).1 ≠ dataField) :
    SseSound (sseProcessLine build alloc ctx line) := by
  by_cases hline : line = []
  · rw [hline, sseProcessLine_nil]
    exact sseDispatch_sound h
  · obtain ⟨ev, id, retry, e, hprocess, -⟩ :=
      sseProcessLine_quiet build alloc ctx hline hdata
    rw [hprocess]
    exact ⟨⟨h.line, h.capacity, h.data⟩, by simp⟩

/-- What an LF does behind the NUL that ends the line. -/
def sseTakeLine (build : SseBuild) (alloc : SseAlloc) (ctx : SseParserCtx) : SseOutcome :=
  (sseProcessLine build alloc ctx ctx.line).andThen fun ctx => done { ctx with lineOffset := 0 }

theorem sseTakeLine_room (h : SseRoom ctx) : SseRoom (sseTakeLine build alloc ctx).state := by
  have hprocess : SseRoom (sseProcessLine build alloc ctx ctx.line).state := by
    by_cases hdata : (sseSplitField ctx.line).1 = dataField
    · rw [sseProcessLine_data hdata]
      exact sseAddData_room h
    · exact (sseProcessLine_sound h hdata).state
  have hpos := hprocess.line
  rw [sseTakeLine]
  cases hf : (sseProcessLine build alloc ctx ctx.line).failure with
  | none =>
    rw [andThen_of_none hf]
    exact ⟨by simp only [done]; omega, hprocess.capacity, hprocess.data⟩
  | some e =>
    rw [andThen_of_failure (by simp [hf])]
    exact hprocess

theorem sseTakeLine_inBounds_iff (build : SseBuild) (alloc : SseAlloc) (h : SseRoom ctx) :
    (∀ w ∈ (sseTakeLine build alloc ctx).output, w.InBounds) ↔ ¬ SseExactFit ctx lf := by
  rw [sseTakeLine, andThen_done_output]
  by_cases hdata : (sseSplitField ctx.line).1 = dataField
  · rw [sseProcessLine_data hdata, sseAddData_inBounds_iff h]
    simp [SseExactFit, hdata]
  · exact iff_of_true (sseProcessLine_sound h hdata).output fun hfit => hdata hfit.2.1

/-- The NUL that ends the line is in bounds. -/
theorem sseFeedByte_lf_inBounds_iff (h : SseRoom ctx) :
    (∀ w ∈ (sseFeedByte build alloc ctx lf).output, w.InBounds) ↔ ¬ SseExactFit ctx lf := by
  have hline := h.line
  have hend : SseRoom (sseEndLine ctx) := ⟨h.line, h.capacity, h.data⟩
  have hfit : SseExactFit (sseEndLine ctx) lf ↔ SseExactFit ctx lf := by
    rw [SseExactFit, sseEndLine_line]
    rfl
  rw [← hfit, ← sseTakeLine_inBounds_iff build alloc hend, sseFeedByte_lf,
    andThen_of_none rfl]
  simp only [List.singleton_append, List.mem_cons, forall_eq_or_imp, inBounds_stored_iff]
  exact and_iff_right (Or.inr hline)

theorem sseFeedByte_room (h : SseRoom ctx) (c : UInt8) :
    SseRoom (sseFeedByte build alloc ctx c).state := by
  have hend : SseRoom (sseEndLine ctx) := ⟨h.line, h.capacity, h.data⟩
  by_cases hcr : c = cr
  · rw [hcr, sseFeedByte_cr]
    exact hend
  · by_cases hlf : c = lf
    · rw [hlf, sseFeedByte_lf, andThen_of_none rfl]
      exact sseTakeLine_room hend
    · rcases sseFeedByte_cases build alloc h hcr hlf with
        ⟨out, e, hfeed, -⟩ | ⟨cap, hcap, hfeed⟩
      · rw [hfeed]
        exact h
      · rw [hfeed]
        exact ⟨hcap, h.capacity, h.data⟩

theorem sseFeedByte_inBounds_iff (build : SseBuild) (alloc : SseAlloc) (h : SseRoom ctx)
    (c : UInt8) :
    (∀ w ∈ (sseFeedByte build alloc ctx c).output, w.InBounds) ↔ ¬ SseExactFit ctx c := by
  have hline := h.line
  by_cases hlf : c = lf
  · rw [hlf]
    exact sseFeedByte_lf_inBounds_iff h
  · refine iff_of_true ?_ fun hfit => hlf hfit.1
    by_cases hcr : c = cr
    · rw [hcr, sseFeedByte_cr]
      simp only [List.mem_singleton, forall_eq, inBounds_stored_iff]
      omega
    · rcases sseFeedByte_cases build alloc h hcr hlf with
        ⟨out, e, hfeed, hout⟩ | ⟨cap, hcap, hfeed⟩
      · rw [hfeed]
        exact hout.inBounds
      · rw [hfeed]
        simp only [List.mem_singleton, forall_eq, inBounds_stored_iff]
        omega

/-- Every store of a chunk is inside its block exactly when the chunk has no LF that ends a data
field whose value and LF fill the data block. -/
theorem sseFeed_inBounds_iff (build : SseBuild) (alloc : SseAlloc) (h : SseRoom ctx)
    (chunk : List UInt8) :
    (∀ w ∈ (sseParserFeed build alloc ctx chunk).output, w.InBounds) ↔
      Incremental.NoneBad (sseParserFeed build alloc) SseExactFit ctx chunk := by
  apply (sseParserFeed_incremental build alloc).output_forall_iff (P := SseRoom)
  · intro ctx c h _
    rw [sseParserFeed_singleton]
    exact sseFeedByte_room h c
  · intro ctx c h
    rw [sseParserFeed_singleton]
    exact sseFeedByte_inBounds_iff build alloc h c
  · exact h

/-- Every store of a sequence of calls is inside its block exactly when no call reads an LF that
ends a data field whose value and LF fill the data block. -/
theorem sseInBounds_iff (build : SseBuild) (alloc : SseAlloc) (config : Option SseConfig)
    (garbage : SseBlock → Memory UInt8) (chunks : List (List UInt8)) :
    (∀ w ∈ (feedCalls (sseParserFeed build alloc) (sseParserFresh config garbage) chunks).2,
      w.InBounds) ↔
      Incremental.NoneBadCalls (sseParserFeed build alloc) SseExactFit
        (sseParserFresh config garbage) chunks := by
  apply (sseParserFeed_incremental build alloc).feedCalls_forall_iff (P := SseRoom)
  · intro ctx c h _
    rw [sseParserFeed_singleton]
    exact sseFeedByte_room h c
  · intro ctx c h
    rw [sseParserFeed_singleton]
    exact sseFeedByte_inBounds_iff build alloc h c
  · exact sseRoom_fresh config garbage

/-- A data field with a value of `n` bytes. -/
def sseDataLine (n : ℕ) : List UInt8 := dataField ++ colon :: List.replicate n 0x78

theorem sseDataLine_length (n : ℕ) : (sseDataLine n).length = n + 5 := by
  rw [sseDataLine, List.length_append, List.length_cons, List.length_replicate]
  simp [dataField, asciiBytes]
  omega

theorem sseDataLine_split (n : ℕ) :
    sseSplitField (sseDataLine n) = (dataField, List.replicate n 0x78) := by
  have hname : colon ∉ dataField := by decide
  have hvalue : (List.replicate n (0x78 : UInt8)).head? ≠ some space := by
    cases n with
    | zero => simp
    | succ n => simp [List.replicate_succ, space]
  rw [sseDataLine, sseSplitField_append hname, if_neg hvalue]

theorem sseDataLine_bytes (n : ℕ) : ∀ c ∈ sseDataLine n, c ≠ cr ∧ c ≠ lf := by
  have hname : ∀ c ∈ dataField, c ≠ cr ∧ c ≠ lf := by simp [dataField, asciiBytes, cr, lf]
  intro c hc
  rcases List.mem_append.mp hc with hc | hc
  · exact hname c hc
  · rcases List.mem_cons.mp hc with rfl | hc
    · decide
    · rw [List.eq_of_mem_replicate hc]
      decide

/-- Behind a data field that fills the data block, a fresh parser stores a NUL out of bounds. -/
theorem sseDataLine_outOfBounds {n : ℕ} (hfull : n + 1 = 4096) :
    ¬ ∀ w ∈ (sseParserFeed .default grantAll (sseParserFresh none fun _ _ => 0)
      (sseDataLine n ++ [lf])).output, w.InBounds := by
  have hlen : ([] : List UInt8).length + (sseDataLine n).length ≤ 32767 := by
    rw [sseDataLine_length, List.length_nil]
    omega
  obtain ⟨buffer, cap, off, hok, hstate, hreads⟩ :=
    (sseReads_fresh none fun _ _ => 0).feed hlen (sseDataLine_bytes n)
  have hroom : SseRoom (sseParserFeed .default grantAll (sseParserFresh none fun _ _ => 0)
      (sseDataLine n)).state := by
    rw [hstate]
    refine ⟨?_, by simp [sseParserFresh], by simp [sseParserFresh]⟩
    rw [hreads.lineOffset_eq]
    exact hreads.room
  have hfit : SseExactFit (sseParserFeed .default grantAll (sseParserFresh none fun _ _ => 0)
      (sseDataLine n)).state lf := by
    refine ⟨rfl, ?_⟩
    rw [hstate, hreads.line, List.nil_append, sseDataLine_split]
    exact ⟨rfl, by simp [sseParserFresh, hfull]⟩
  intro hall
  refine (sseFeedByte_inBounds_iff .default grantAll hroom lf).mp (fun w hw => hall w ?_) hfit
  rw [← sseParserFeed_singleton] at hw
  rw [(sseParserFeed_incremental _ _).append]
  exact mem_andThen_output.mpr (Or.inr ⟨hok, hw⟩)

/-- With a value of 4095 bytes the NUL is stored at index 4096 of a block of 4096 bytes. -/
theorem sseExactLine_outOfBounds :
    ¬ ∀ w ∈ (feedCalls (sseParserFeed .default grantAll) (sseParserFresh none fun _ _ => 0)
      [sseDataLine 4095 ++ [lf]]).2, w.InBounds := by
  have hfeed := sseDataLine_outOfBounds (show 4095 + 1 = 4096 from rfl)
  rwa [feedCalls, feedCalls, List.append_nil]

end AbstractHttp.EventStream
