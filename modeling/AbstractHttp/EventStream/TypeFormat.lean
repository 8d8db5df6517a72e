import AbstractHttp.EventStream.Numbers

/-!
# Types and retry times in the event stream format

Of both fields the last one counts: for the type in its block, for the retry time
in the whole stream. What a prefix of a stream means is the beginning of what the
stream means, and every beginning of its lines belongs to such a prefix.
-/
namespace AbstractHttp.EventStream

/-- The value of the last event field of a block. -/
def lastType (block : List (List UInt8)) : Option (List UInt8) :=
  (block.filterMap (fieldValue eventField)).getLast?

/-- The type of the event that a block makes. -/
def typeOf (block : List (List UInt8)) : List UInt8 :=
  match lastType block with
  | some value => if value = [] then messageType else value
  | none => messageType

/-- The blocks of which a stream makes events. -/
def eventBlocks (stream : List UInt8) : List (List (List UInt8)) :=
  (blocks (lines stream).dropLast).dropLast.filter fun block => dataValues block ≠ []

/-- A value of digits only, with one at least. -/
def Numeral (value : List UInt8) : Prop := value ≠ [] ∧ value.all isDigitByte = true

instance (value : List UInt8) : Decidable (Numeral value) := inferInstanceAs (Decidable (_ ∧ _))

/-- The number in a retry field; a value with another byte than digits is ignored. -/
def retryTime (line : List UInt8) : Option ℕ :=
  match fieldValue retryField line with
  | some value => if Numeral value then some (decimalValue value) else none
  | none => none

def lastRetry (ls : List (List UInt8)) : Option ℕ := (ls.filterMap retryTime).getLast?

/-- The last retry time in the lines, or the initial one when there is none. A time that an `int`
does not hold may come out as any number. -/
def IsRetry (initial : ℤ) (ls : List (List UInt8)) (retry : ℤ) : Prop :=
  match lastRetry ls with
  | some time => time < 2 ^ 31 → retry = time
  | none => retry = initial

section Fields

variable {block ls : List (List UInt8)} {line : List UInt8}

theorem lastType_append (block : List (List UInt8)) (line : List UInt8) :
    lastType (block ++ [line]) = (fieldValue eventField line).or (lastType block) :=
  getLast?_filterMap_append _ block line

theorem lastRetry_append (ls : List (List UInt8)) (line : List UInt8) :
    lastRetry (ls ++ [line]) = (retryTime line).or (lastRetry ls) :=
  getLast?_filterMap_append _ ls line

/-- A line without a retry time leaves the retry time what it is. -/
theorem isRetry_append_of_none (h : retryTime line = none) (initial retry : ℤ) :
    IsRetry initial (ls ++ [line]) retry ↔ IsRetry initial ls retry := by
  rw [IsRetry, lastRetry_append, h, Option.none_or]
  rfl

theorem isRetry_append_of_some {time : ℕ} (h : retryTime line = some time) (initial retry : ℤ) :
    IsRetry initial (ls ++ [line]) retry ↔ (time < 2 ^ 31 → retry = time) := by
  rw [IsRetry, lastRetry_append, h, Option.some_or]

end Fields

section Prefixes

variable {cur stream start rest : List UInt8} {block ls ls' : List (List UInt8)}

/-- What follows a beginning of the stream continues the line that it breaks off. -/
theorem linesFrom_append (hcr : cr ∉ start) (cur rest : List UInt8) :
    linesFrom false cur (start ++ rest) = (linesFrom false cur start).dropLast ++
      linesFrom false ((linesFrom false cur start).getLast (linesFrom_ne_nil _ _ _)) rest := by
  induction start generalizing cur with
  | nil => simp [linesFrom]
  | cons b bs ih =>
    obtain ⟨hb, hbs⟩ := List.ne_and_not_mem_of_not_mem_cons hcr
    by_cases hlf : b = lf
    · subst hlf
      have hne := linesFrom_ne_nil false [] bs
      simp only [List.cons_append, linesFrom_lf, List.dropLast_cons_of_ne_nil hne,
        List.getLast_cons hne]
      rw [ih hbs]
    · simp only [List.cons_append, linesFrom_byte (Ne.symm hb) hlf]
      exact ih hbs _

/-- What follows some lines continues the block that they break off. -/
theorem blocksFrom_append (block ls ls' : List (List UInt8)) :
    blocksFrom block (ls ++ ls') = (blocksFrom block ls).dropLast ++
      blocksFrom ((blocksFrom block ls).getLast (blocksFrom_ne_nil _ _)) ls' := by
  induction ls generalizing block with
  | nil => simp [blocksFrom]
  | cons l ls ih =>
    by_cases hl : l = []
    · subst hl
      have hne := blocksFrom_ne_nil [] ls
      simp only [List.cons_append, blocksFrom_blank, List.dropLast_cons_of_ne_nil hne,
        List.getLast_cons hne]
      rw [ih]
    · simp only [List.cons_append, blocksFrom_line hl]
      exact ih _

/-- The lines that have ended stay what they are. -/
theorem linesFrom_dropLast_mono (hcr : cr ∉ stream) (h : start <+: stream) (cur : List UInt8) :
    (linesFrom false cur start).dropLast <+: (linesFrom false cur stream).dropLast := by
  obtain ⟨rest, rfl⟩ := h
  have hstart : cr ∉ start := fun hmem => hcr (List.mem_append_left rest hmem)
  rw [linesFrom_append hstart, List.dropLast_append_of_ne_nil (linesFrom_ne_nil _ _ _)]
  exact List.prefix_append _ _

/-- The blocks that have ended stay what they are. -/
theorem blocksFrom_dropLast_mono (h : ls <+: ls') (block : List (List UInt8)) :
    (blocksFrom block ls).dropLast <+: (blocksFrom block ls').dropLast := by
  obtain ⟨rest, rfl⟩ := h
  rw [blocksFrom_append, List.dropLast_append_of_ne_nil (blocksFrom_ne_nil _ _)]
  exact List.prefix_append _ _

/-- Every beginning of the lines has been read at some point of the stream. -/
theorem exists_prefix_of_lines (hcr : cr ∉ stream) {cur : List UInt8}
    (h : ls <+: (linesFrom false cur stream).dropLast) :
    ∃ start, start <+: stream ∧ (linesFrom false cur start).dropLast = ls := by
  induction stream generalizing cur ls with
  | nil =>
    have hls : ls = [] := List.prefix_nil.mp h
    exact ⟨[], List.prefix_refl _, by rw [hls]; rfl⟩
  | cons b bs ih =>
    obtain ⟨hb, hbs⟩ := List.ne_and_not_mem_of_not_mem_cons hcr
    by_cases hlf : b = lf
    · subst hlf
      have hne (bs : List UInt8) := linesFrom_ne_nil false [] bs
      rw [linesFrom_lf, List.dropLast_cons_of_ne_nil (hne bs)] at h
      cases ls with
      | nil => exact ⟨[], List.nil_prefix, rfl⟩
      | cons l ls =>
        obtain ⟨rfl, hrest⟩ := List.cons_prefix_cons.mp h
        obtain ⟨start, hstart, hlines⟩ := ih hbs hrest
        refine ⟨lf :: start, List.cons_prefix_cons.mpr ⟨rfl, hstart⟩, ?_⟩
        rw [linesFrom_lf, List.dropLast_cons_of_ne_nil (hne start), hlines]
    · rw [linesFrom_byte (Ne.symm hb) hlf] at h
      obtain ⟨start, hstart, hlines⟩ := ih hbs h
      refine ⟨b :: start, List.cons_prefix_cons.mpr ⟨rfl, hstart⟩, ?_⟩
      rw [linesFrom_byte (Ne.symm hb) hlf, hlines]

theorem lines_eq_linesFrom (h : ¬ byteOrderMark <+: stream) :
    lines stream = linesFrom false [] stream := by
  rw [lines, stripBom, if_neg h]

end Prefixes

end AbstractHttp.EventStream
