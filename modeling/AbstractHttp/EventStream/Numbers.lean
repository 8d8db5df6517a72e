import AbstractHttp.EventStream.Parser
import Mathlib.Data.List.TakeWhile

/-!
# Numerals as `atoi` reads them

Digits stand for their decimal value, and what follows them does not matter.
-/
namespace AbstractHttp.EventStream

/-- The number that digits denote. -/
def decimalValue (digits : List UInt8) : ℕ :=
  digits.foldl (fun n b => n * 10 + (b.toNat - 0x30)) 0

section Numerals

variable {d : UInt8} {digits rest : List UInt8}

theorem digit_range (h : isDigitByte d = true) : 0x30 ≤ d.toNat ∧ d.toNat ≤ 0x39 := by
  simpa [isDigitByte, UInt8.le_iff_toNat_le] using h

/-- A digit is neither a space nor a sign. -/
theorem digit_start (h : isDigitByte d = true) :
    isSpaceByte d = false ∧ d ≠ 0x2D ∧ d ≠ 0x2B := by
  have hrange := digit_range h
  simp [isSpaceByte, space, ← UInt8.toNat_inj, UInt8.le_iff_toNat_le]
  omega

/-- In front of a digit there is neither a space nor a sign to skip. -/
theorem atoi_of_digit (h : isDigitByte d = true) (rest : List UInt8) :
    atoi (d :: rest) = Int.bmod (max (-2 ^ 63) (min (((d :: rest).takeWhile isDigitByte).foldl
      (fun n b => n * 10 + (b.toNat - 0x30 : ℤ)) 0) (2 ^ 63 - 1))) (2 ^ 32) := by
  obtain ⟨hspace, hminus, hplus⟩ := digit_start h
  rw [atoi, List.dropWhile_cons_of_neg (by simp [hspace])]
  simp only [List.head?_cons, Option.some.injEq, hminus, hplus, or_self, if_false]

theorem foldl_digits (h : ∀ b ∈ digits, isDigitByte b = true) (n : ℕ) :
    digits.foldl (fun n b => n * 10 + (b.toNat - 0x30 : ℤ)) n =
      (digits.foldl (fun n b => n * 10 + (b.toNat - 0x30)) n : ℕ) := by
  induction digits generalizing n with
  | nil => rfl
  | cons b digits ih =>
    obtain ⟨hb, hdigits⟩ := List.forall_mem_cons.mp h
    have hrange := digit_range hb
    have hstep : (n : ℤ) * 10 + (b.toNat - 0x30 : ℤ) = (n * 10 + (b.toNat - 0x30) : ℕ) := by omega
    rw [List.foldl_cons, List.foldl_cons, hstep, ih hdigits]

theorem foldl_decimal (digits : List UInt8) (n : ℕ) :
    digits.foldl (fun n b => n * 10 + (b.toNat - 0x30)) n =
      n * 10 ^ digits.length + decimalValue digits := by
  induction digits generalizing n with
  | nil => simp [decimalValue]
  | cons b digits ih =>
    rw [decimalValue, List.foldl_cons, List.foldl_cons, ih, ih, List.length_cons]
    ring

/-- The digits of a numeral weigh by what stands behind them. -/
theorem decimalValue_append (digits rest : List UInt8) : decimalValue (digits ++ rest) =
    decimalValue digits * 10 ^ rest.length + decimalValue rest := by
  rw [decimalValue, List.foldl_append, foldl_decimal]
  rfl

theorem decimalValue_lt (h : ∀ b ∈ digits, isDigitByte b = true) :
    decimalValue digits < 10 ^ digits.length := by
  induction digits using List.reverseRecOn with
  | nil => simp [decimalValue]
  | append_singleton digits d ih =>
    have hd := digit_range (h d (by simp))
    have hlt := ih fun b hb => h b (List.mem_append_left _ hb)
    have hlast : decimalValue [d] = d.toNat - 0x30 := Nat.zero_add _
    rw [decimalValue_append, hlast, List.length_append, List.length_singleton, pow_succ]
    omega

/-- Digits are read up to a byte that is none. -/
theorem atoi_numeral (hdigits : ∀ b ∈ digits, isDigitByte b = true) (hne : digits ≠ [])
    (hrest : ∀ b ∈ rest.head?, isDigitByte b = false) (hfits : decimalValue digits < 2 ^ 31) :
    atoi (digits ++ rest) = decimalValue digits := by
  obtain ⟨d, more, rfl⟩ := List.exists_cons_of_ne_nil hne
  have hstop : rest.takeWhile isDigitByte = [] := by
    cases rest with
    | nil => rfl
    | cons b rest => exact List.takeWhile_cons_of_neg (by simp [hrest b rfl])
  have hread : (d :: more ++ rest).takeWhile isDigitByte = d :: more := by
    rw [List.takeWhile_append_of_pos hdigits, hstop, List.append_nil]
  have hvalue : (d :: more).foldl (fun n b => n * 10 + (b.toNat - 0x30 : ℤ)) 0 =
      (decimalValue (d :: more) : ℤ) := foldl_digits hdigits 0
  rw [List.cons_append, atoi_of_digit (hdigits d List.mem_cons_self), ← List.cons_append, hread,
    hvalue]
  rw [Int.bmod_eq_of_le_mul_two] <;> omega

/-- Reading stops at a byte that no numeral begins with or goes on with. -/
theorem atoi_stop (text rest : List UInt8) {c : UInt8} (hspace : isSpaceByte c = false)
    (hsign : c ≠ 0x2D ∧ c ≠ 0x2B) (hdigit : isDigitByte c = false) :
    atoi (text ++ c :: rest) = atoi text := by
  have hstop : (c :: rest).takeWhile isDigitByte = [] :=
    List.takeWhile_cons_of_neg (by simp [hdigit])
  have htake (s : List UInt8) :
      (s ++ c :: rest).takeWhile isDigitByte = s.takeWhile isDigitByte := by
    rw [List.takeWhile_append, hstop, List.append_nil]
    split_ifs with hall
    · exact ((List.takeWhile_prefix _).eq_of_length hall).symm
    · rfl
  have hdrop : (text ++ c :: rest).dropWhile isSpaceByte =
      text.dropWhile isSpaceByte ++ c :: rest := by
    rw [List.dropWhile_append]
    split_ifs with hempty
    · rw [List.isEmpty_iff.mp hempty, List.nil_append]
      exact List.dropWhile_cons_of_neg (by simp [hspace])
    · rfl
  unfold atoi
  simp only [hdrop]
  cases hword : text.dropWhile isSpaceByte with
  | nil =>
    have hno : (c :: rest).head? ≠ some 0x2D ∧ (c :: rest).head? ≠ some 0x2B := by
      simpa using hsign
    simp only [List.nil_append, if_neg (not_or.mpr hno), if_neg hno.1, hstop]
    simp
  | cons b word =>
    have hhead : (b :: word ++ c :: rest).head? = (b :: word).head? := rfl
    have htail : (b :: word ++ c :: rest).drop 1 = (b :: word).drop 1 ++ c :: rest := rfl
    rw [hhead, htail]
    split_ifs <;> rw [htake]

/-- White space in front of a numeral is skipped. -/
theorem atoi_spaces {text : List UInt8} (hspaces : ∀ b ∈ text, isSpaceByte b = true)
    (rest : List UInt8) : atoi (text ++ rest) = atoi rest := by
  unfold atoi
  rw [List.dropWhile_append_of_pos hspaces]

theorem takeWhile_append_of_stop {α : Type*} {p : α → Bool} {s : List α}
    (hstop : ∃ x ∈ s, p x = false) (t : List α) : (s ++ t).takeWhile p = s.takeWhile p := by
  induction s with
  | nil =>
    obtain ⟨x, hx, -⟩ := hstop
    exact absurd hx List.not_mem_nil
  | cons y s ih =>
    rw [List.cons_append, List.takeWhile_cons, List.takeWhile_cons]
    by_cases hy : p y = true
    · obtain ⟨x, hx, hpx⟩ := hstop
      have hrest : ∃ x ∈ s, p x = false := by
        rcases List.mem_cons.mp hx with rfl | hx
        · rw [hy] at hpx
          cases hpx
        · exact ⟨x, hx, hpx⟩
      rw [if_pos hy, if_pos hy, ih hrest]
    · rw [if_neg hy, if_neg hy]

theorem isDigitByte_of_isSpaceByte {c : UInt8} (hspace : isSpaceByte c = true) :
    isDigitByte c = false := by
  rw [isDigitByte, decide_eq_false_iff_not]
  rintro ⟨hge, -⟩
  rw [isSpaceByte, decide_eq_true_eq] at hspace
  rcases hspace with rfl | ⟨-, hle⟩
  · exact absurd hge (by decide)
  · have hdigit : 0x30 ≤ c.toNat := UInt8.le_iff_toNat_le.mp hge
    have hblank : c.toNat ≤ 0x0D := UInt8.le_iff_toNat_le.mp hle
    omega

/-- Behind the white space that a text begins with, it ends with the byte that it ends with. -/
theorem getLast?_dropWhile {text : List UInt8} {p : UInt8 → Bool} (hne : text.dropWhile p ≠ []) :
    (text.dropWhile p).getLast? = text.getLast? := by
  conv_rhs => rw [← List.takeWhile_append_dropWhile (p := p) (l := text)]
  rw [List.getLast?_append_of_ne_nil _ hne]

/-- Where a text has another byte than white space and ends with white space, a word stands behind
its leading white space, and its last byte behind the first of the word. -/
theorem exists_word {text : List UInt8} {c : UInt8} (hbegins : ∃ b ∈ text, isSpaceByte b = false)
    (hlast : text.getLast? = some c) (hspace : isSpaceByte c = true) :
    ∃ b word, text.dropWhile isSpaceByte = b :: word ∧ c ∈ word := by
  have hne : text.dropWhile isSpaceByte ≠ [] := fun hnil => by
    obtain ⟨b, hb, hnot⟩ := hbegins
    have hspaces := List.dropWhile_eq_nil_iff.mp hnil
    rw [hspaces b hb] at hnot
    cases hnot
  obtain ⟨b, word, hword⟩ := List.exists_cons_of_ne_nil hne
  refine ⟨b, word, hword, ?_⟩
  have hb : isSpaceByte b = false := by
    have hhead := List.head?_dropWhile_not isSpaceByte text
    rw [hword] at hhead
    simpa using hhead
  have hend := getLast?_dropWhile hne
  rw [hword, hlast] at hend
  rcases List.mem_cons.mp (List.mem_of_getLast? hend) with rfl | hmem
  · rw [hb] at hspace
    cases hspace
  · exact hmem

/-- A numeral that begins in a text ends there, if white space ends the text. -/
theorem atoi_append {text : List UInt8} {c : UInt8} (hbegins : ∃ b ∈ text, isSpaceByte b = false)
    (hlast : text.getLast? = some c) (hspace : isSpaceByte c = true) (rest : List UInt8) :
    atoi (text ++ rest) = atoi text := by
  have hdigit := isDigitByte_of_isSpaceByte hspace
  obtain ⟨b, word, hword, hend⟩ := exists_word hbegins hlast hspace
  have hdrop : (text ++ rest).dropWhile isSpaceByte = b :: word ++ rest := by
    rw [List.dropWhile_append, hword]
    rfl
  have htake : (word ++ rest).takeWhile isDigitByte = word.takeWhile isDigitByte :=
    takeWhile_append_of_stop ⟨c, hend, hdigit⟩ rest
  have htakeAll : (b :: word ++ rest).takeWhile isDigitByte = (b :: word).takeWhile isDigitByte :=
    takeWhile_append_of_stop ⟨c, List.mem_cons_of_mem b hend, hdigit⟩ rest
  unfold atoi
  simp only [hdrop, hword]
  have hhead : (b :: word ++ rest).head? = (b :: word).head? := rfl
  have htail : (b :: word ++ rest).drop 1 = word ++ rest := rfl
  rw [hhead, htail]
  split_ifs
  all_goals first | rw [htake]; rfl | rw [htakeAll]

/-- The first bytes of a numeral have its value if they are all of it, or if it is zero. -/
theorem atoi_take_iff {count : ℕ} (hdigits : ∀ b ∈ digits, isDigitByte b = true)
    (hne : digits ≠ []) (hcount : 0 < count) (hfits : decimalValue digits < 2 ^ 31) :
    atoi (digits.take count) = decimalValue digits ↔
      digits.length ≤ count ∨ decimalValue digits = 0 := by
  have hsplit := decimalValue_append (digits.take count) (digits.drop count)
  rw [List.take_append_drop, List.length_drop] at hsplit
  have hpow := Nat.one_le_pow (digits.length - count) 10 (by norm_num)
  have hle : decimalValue (digits.take count) ≤ decimalValue digits := by
    rw [hsplit]
    exact (Nat.le_mul_of_pos_right _ hpow).trans (Nat.le_add_right _ _)
  have hread : atoi (digits.take count) = decimalValue (digits.take count) := by
    have hnonempty : digits.take count ≠ [] := by
      simp [hne, hcount.ne']
    have hnumeral : atoi (digits.take count ++ []) = decimalValue (digits.take count) :=
      atoi_numeral (fun b hb => hdigits b (List.mem_of_mem_take hb)) hnonempty (by simp)
        (hle.trans_lt hfits)
    rwa [List.append_nil] at hnumeral
  rw [hread, Nat.cast_inj]
  constructor
  · intro heq
    by_contra! hneither
    obtain ⟨hlong, hpos⟩ := hneither
    -- a tenfold value and more does not give the value again
    have hten : 10 ^ 1 ≤ 10 ^ (digits.length - count) :=
      Nat.pow_le_pow_right (by norm_num) (by omega)
    have hmul := Nat.mul_le_mul_left (decimalValue digits) hten
    rw [heq] at hsplit
    omega
  · rintro (hshort | hzero)
    · rw [List.take_of_length_le hshort]
    · omega

end Numerals

end AbstractHttp.EventStream
