import AbstractHttp.EventStream.Buffers

/-!
# Reading a line at the default limit

While no line is longer than 32767 bytes and every block is granted, the line
buffer holds the line that has been read, byte for byte.
-/
namespace AbstractHttp.EventStream
open Library Outcome

variable {ctx : SseParserCtx} {c : UInt8} {cur : List UInt8}

/-- A colon outside the name ends it. -/
theorem sseSplitField_append {name : List UInt8} (h : colon ∉ name) (rest : List UInt8) :
    sseSplitField (name ++ colon :: rest) =
      (name, if rest.head? = some space then rest.drop 1 else rest) := by
  have hidx : (name ++ colon :: rest).idxOf colon = name.length := by
    rw [List.idxOf_append_of_notMem h, List.idxOf_cons_self, Nat.add_zero]
  have hdrop : (name ++ colon :: rest).drop (name.length + 1) = rest := by
    simp [List.drop_append]
  simp only [sseSplitField, hidx, hdrop, List.take_left]
  rw [if_pos (by simp)]

theorem sseSplitField_of_notMem {line : List UInt8} (h : colon ∉ line) :
    sseSplitField line = (line, []) := by
  simp only [sseSplitField]
  rw [if_neg (by simpa [List.idxOf_lt_length_iff] using h)]

/-- The buffer holds the bytes of the line so far; its size is the first one, doubled. -/
structure SseReads (ctx : SseParserCtx) (cur : List UInt8) : Prop where
  line : ctx.line = cur
  capacity : ∃ i ≤ 5, ctx.lineCapacity = 1024 * 2 ^ i
  room : cur.length < ctx.lineCapacity

theorem SseReads.lineOffset_eq (h : SseReads ctx cur) : ctx.lineOffset = cur.length := by
  rw [← h.line, SseParserCtx.line, Memory.read_length]

theorem sseReads_fresh (config : Option SseConfig) (garbage : SseBlock → Memory UInt8) :
    SseReads (sseParserFresh config garbage) [] where
  line := rfl
  capacity := ⟨0, by norm_num, rfl⟩
  room := by simp [sseParserFresh]

/-- An emptied buffer keeps its size. -/
theorem SseReads.restart (h : SseReads ctx cur) : SseReads { ctx with lineOffset := 0 } [] where
  line := rfl
  capacity := h.capacity
  room := Nat.zero_lt_of_lt h.room

theorem SseReads.endLine (h : SseReads ctx cur) : SseReads (sseEndLine ctx) cur where
  line := (sseEndLine_line ctx).trans h.line
  capacity := h.capacity
  room := h.room

/-- Up to 32767 bytes the line buffer is never refused room. -/
theorem SseReads.grow (h : SseReads ctx cur) (hlen : cur.length < 32767) :
    ∃ cap, sseGrowLine .default grantAll ctx = done { ctx with lineCapacity := cap } ∧
      cur.length + 1 < cap ∧ ∃ i ≤ 5, cap = 1024 * 2 ^ i := by
  obtain ⟨i, hi, hcap⟩ := h.capacity
  have hroom := h.room
  have hoff := h.lineOffset_eq
  simp only [sseGrowLine]
  split
  · rename_i hfull
    have hbelow : 1024 * 2 ^ i < 1024 * 2 ^ 5 := by omega
    obtain ⟨hexp, hdouble, hlimit⟩ := double_pow hbelow
    rw [← hcap] at hdouble
    rw [if_neg (by simp only [SseBuild.default]; omega)]
    exact ⟨_, rfl, by omega, i + 1, hexp, hdouble⟩
  · exact ⟨ctx.lineCapacity, rfl, by omega, i, hi, hcap⟩

/-- A byte inside a line joins the line. -/
theorem SseReads.feedByte (h : SseReads ctx cur) (hlen : cur.length < 32767) (hcr : c ≠ cr)
    (hlf : c ≠ lf) : ∃ cap, sseFeedByte .default grantAll ctx c =
      ⟨ssePushByte ctx cap c, [.stored .line ⟨ctx.lineOffset, 1, cap⟩], none⟩ ∧
      SseReads (ssePushByte ctx cap c) (cur ++ [c]) := by
  obtain ⟨cap, hgrow, hroom, hcap⟩ := h.grow hlen
  refine ⟨cap, ?_, ?_, hcap, by rw [List.length_append, List.length_singleton]; exact hroom⟩
  · rw [sseFeedByte_of_ne hcr hlf, hgrow]
    rfl
  · have hfits : ctx.lineOffset + [c].length ≤ cap := by
      rw [h.lineOffset_eq]
      exact hroom.le
    rw [← h.line, SseParserCtx.line, ssePushByte, Memory.writeIn_of_le _ _ hfits]
    exact Memory.read_write_extend ctx.lineBuffer ctx.lineOffset [c]

/-- The bytes of a line change nothing but the line buffer. -/
theorem SseReads.feed (h : SseReads ctx cur) {bytes : List UInt8}
    (hlen : cur.length + bytes.length ≤ 32767) (hbytes : ∀ c ∈ bytes, c ≠ cr ∧ c ≠ lf) :
    ∃ buffer cap off, (sseParserFeed .default grantAll ctx bytes).failure = none ∧
      (sseParserFeed .default grantAll ctx bytes).state =
        { ctx with lineBuffer := buffer, lineCapacity := cap, lineOffset := off } ∧
      SseReads { ctx with lineBuffer := buffer, lineCapacity := cap, lineOffset := off }
        (cur ++ bytes) := by
  induction bytes generalizing ctx cur with
  | nil => exact ⟨_, _, _, rfl, rfl, by simpa using h⟩
  | cons c bytes ih =>
    have hc := hbytes c (by simp)
    rw [List.length_cons] at hlen
    obtain ⟨cap, hfeed, hreads⟩ := h.feedByte (by omega) hc.1 hc.2
    obtain ⟨buffer, cap', off, hok, hstate, hreads⟩ :=
      ih hreads (by simp; omega) fun b hb => hbytes b (by simp [hb])
    refine ⟨buffer, cap', off, ?_, ?_, ?_⟩
    · rw [sseParserFeed, hfeed, andThen_of_none rfl]
      exact hok
    · rw [sseParserFeed, hfeed, andThen_of_none rfl]
      exact hstate
    · rw [List.append_assoc] at hreads
      exact hreads

end AbstractHttp.EventStream
