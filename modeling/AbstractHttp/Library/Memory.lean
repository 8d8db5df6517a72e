import Mathlib.Data.List.Basic
import Mathlib.Data.Nat.Log
import Mathlib.Tactic

/-!
# Blocks of memory, copies into them, and growth by doubling

A block is read and written through offsets and holds arbitrary contents where
nothing has been written.  Its capacity is kept apart, as in a program that
stores the two side by side: an `Extent` records where a copy went and how large
its block was at that moment.
-/
namespace AbstractHttp.Library

variable {α : Type*}

/-- Contents of a block by offset. -/
abbrev Memory (α : Type*) := ℕ → α

namespace Memory

/-- Copy `xs` to offsets `off`, `off + 1`, and so on. -/
def write (m : Memory α) (off : ℕ) (xs : List α) : Memory α :=
  fun i => if off ≤ i then xs[i - off]?.getD (m i) else m i

/-- Copy `xs` into a block of `cap` cells; what falls outside the block is lost. -/
def writeIn (m : Memory α) (cap off : ℕ) (xs : List α) : Memory α :=
  fun i => if i < cap then m.write off xs i else m i

/-- The `n` values from offset `off` on. -/
def read (m : Memory α) (off n : ℕ) : List α := (List.range n).map fun k => m (off + k)

/-- Move what lies from offset `k` on down to offset 0, `n` values of it. -/
def shiftDown (m : Memory α) (k n : ℕ) : Memory α := fun i => if i < n then m (k + i) else m i

@[simp] theorem read_length (m : Memory α) (off n : ℕ) : (m.read off n).length = n := by
  simp [read]

@[simp] theorem read_zero (m : Memory α) (off : ℕ) : m.read off 0 = [] := rfl

theorem read_succ (m : Memory α) (off n : ℕ) :
    m.read off (n + 1) = m.read off n ++ [m (off + n)] := by
  simp [read, List.range_succ]

theorem read_add (m : Memory α) (off a b : ℕ) :
    m.read off (a + b) = m.read off a ++ m.read (off + a) b := by
  induction b with
  | zero => simp
  | succ b ih => rw [← Nat.add_assoc, read_succ, ih, read_succ, List.append_assoc, Nat.add_assoc]

theorem read_congr {m m' : Memory α} {off off' n : ℕ}
    (h : ∀ k < n, m (off + k) = m' (off' + k)) : m.read off n = m'.read off' n := by
  apply List.map_congr_left
  intro k hk
  exact h k (List.mem_range.mp hk)

theorem read_take (m : Memory α) (off : ℕ) {k n : ℕ} (h : k ≤ n) :
    (m.read off n).take k = m.read off k := by
  obtain ⟨d, rfl⟩ := Nat.exists_eq_add_of_le h
  rw [read_add, List.take_left' (read_length m off k)]

theorem read_drop (m : Memory α) (off k n : ℕ) :
    (m.read off n).drop k = m.read (off + k) (n - k) := by
  rcases Nat.le_total k n with h | h
  · obtain ⟨d, rfl⟩ := Nat.exists_eq_add_of_le h
    rw [read_add, List.drop_left' (read_length m off k), Nat.add_sub_cancel_left]
  · rw [List.drop_eq_nil_of_le (by rw [read_length]; exact h), Nat.sub_eq_zero_of_le h, read_zero]

/-- A cut of what is read. -/
theorem read_cut (m : Memory α) (off : ℕ) {k n : ℕ} (h : k ≤ n) :
    m.read off k ++ m.read (off + k) (n - k) = m.read off n := by
  rw [← read_add, Nat.add_sub_cancel' h]

@[simp] theorem write_nil (m : Memory α) (off : ℕ) : m.write off [] = m := by
  funext i
  simp [write]

theorem write_below (m : Memory α) {off i : ℕ} (xs : List α) (h : i < off) :
    m.write off xs i = m i := by
  simp [write, Nat.not_le.mpr h]

theorem write_above (m : Memory α) {off i : ℕ} (xs : List α) (h : off + xs.length ≤ i) :
    m.write off xs i = m i := by
  rw [write, if_pos (by omega), List.getElem?_eq_none (by omega)]
  rfl

theorem write_at (m : Memory α) (off : ℕ) (xs : List α) (k : ℕ) (h : k < xs.length) :
    m.write off xs (off + k) = xs[k] := by
  simp [write, h]

theorem write_append (m : Memory α) (off : ℕ) (xs ys : List α) :
    m.write off (xs ++ ys) = (m.write off xs).write (off + xs.length) ys := by
  funext i
  simp only [write]
  by_cases hoff : off ≤ i
  · by_cases hx : i - off < xs.length
    · rw [if_pos hoff, List.getElem?_append_left hx, if_neg (by omega), if_pos hoff]
    · rw [if_pos hoff, List.getElem?_append_right (by omega), if_pos (by omega),
        List.getElem?_eq_none (by omega : xs.length ≤ i - off)]
      simp [show i - off - xs.length = i - (off + xs.length) by omega]
  · rw [if_neg hoff, if_neg (by omega), if_neg hoff]

/-- A cell put right in front of a copy extends it downwards. -/
theorem write_cons (m : Memory α) (off : ℕ) (x : α) (xs : List α) :
    m.write off (x :: xs) = (m.write (off + 1) xs).write off [x] := by
  funext i
  rcases lt_trichotomy i off with hlt | rfl | hgt
  · simp [write, Nat.not_le.mpr hlt, show ¬ off + 1 ≤ i by omega]
  · simp [write]
  · obtain ⟨d, rfl⟩ := Nat.exists_eq_add_of_lt hgt
    simp [write, show off + d + 1 - off = d + 1 by omega,
      show off + d + 1 - (off + 1) = d by omega, show off ≤ off + d + 1 by omega]

/-- Cells written one by one, from the last down, are a copy of equal cells. -/
theorem foldl_write_down (m : Memory α) (x : α) {k len : ℕ} (h : k ≤ len) :
    (List.range k).foldl (fun m i => m.write (len - 1 - i) [x]) m =
      m.write (len - k) (List.replicate k x) := by
  induction k with
  | zero => simp
  | succ k ih =>
    have hnext : len - k = len - (k + 1) + 1 := by omega
    have hcell : len - 1 - k = len - (k + 1) := by omega
    rw [List.range_succ, List.foldl_append, List.foldl_cons, List.foldl_nil, ih (by omega),
      List.replicate_succ, write_cons m (len - (k + 1)), hnext, hcell]

/-- What has been copied is what is read back. -/
@[simp] theorem read_write_self (m : Memory α) (off : ℕ) (xs : List α) :
    (m.write off xs).read off xs.length = xs := by
  apply List.ext_getElem
  · simp
  · intro k _ hk
    simp only [read, List.getElem_map, List.getElem_range]
    exact write_at m off xs k hk

/-- A copy leaves what lies before it alone. -/
theorem read_write_before (m : Memory α) {off start n : ℕ} (xs : List α) (h : start + n ≤ off) :
    (m.write off xs).read start n = m.read start n :=
  read_congr fun k hk => write_below m xs (by omega)

/-- A copy right behind what is in use extends it. -/
theorem read_write_extend (m : Memory α) (n : ℕ) (xs : List α) :
    (m.write n xs).read 0 (n + xs.length) = m.read 0 n ++ xs := by
  rw [read_add, read_write_before m xs (by omega), Nat.zero_add, read_write_self]

theorem writeIn_of_le (m : Memory α) {cap off : ℕ} (xs : List α) (h : off + xs.length ≤ cap) :
    m.writeIn cap off xs = m.write off xs := by
  funext i
  rw [writeIn]
  split
  · rfl
  · exact (write_above m xs (by omega)).symm

/-- A copy leaves what lies before it alone, wherever its block ends. -/
theorem read_writeIn_before (m : Memory α) {cap off start n : ℕ} (xs : List α)
    (h : start + n ≤ off) : (m.writeIn cap off xs).read start n = m.read start n :=
  read_congr fun k hk => by simp [writeIn, write_below m xs (show start + k < off by omega)]

theorem read_shiftDown (m : Memory α) (k n : ℕ) : (m.shiftDown k n).read 0 n = m.read k n :=
  read_congr fun i hi => by simp [shiftDown, hi]

end Memory

/-- Where a copy went: `len` cells from `start` in a block of `capacity` cells. -/
structure Extent where
  start : ℕ
  len : ℕ
  capacity : ℕ
  deriving DecidableEq, Repr

/-- Every cell that the copy wrote belongs to the block. -/
def Extent.InBounds (e : Extent) : Prop := ∀ i, e.start ≤ i → i < e.start + e.len → i < e.capacity

theorem Extent.inBounds_iff (e : Extent) :
    e.InBounds ↔ e.len = 0 ∨ e.start + e.len ≤ e.capacity := by
  constructor
  · intro h
    by_cases hlen : e.len = 0
    · exact Or.inl hlen
    · have hlast := h (e.start + e.len - 1) (by omega) (by omega)
      exact Or.inr (by omega)
  · rintro (h | h) i hlo hhi <;> omega

instance (e : Extent) : Decidable e.InBounds := decidable_of_iff _ e.inBounds_iff.symm

/-- The first of `cap`, `2 * cap`, `4 * cap`, ... that is at least `need`; a zero capacity,
which doubling would never change, is returned as it is. -/
def doubleUntil (cap need : ℕ) : ℕ :=
  if cap < need ∧ 0 < cap then doubleUntil (cap * 2) need else cap
termination_by need - cap

theorem doubleUntil_of_le {cap need : ℕ} (h : need ≤ cap) : doubleUntil cap need = cap := by
  rw [doubleUntil, if_neg (by omega)]

theorem doubleUntil_of_lt {cap need : ℕ} (hcap : 0 < cap) (h : cap < need) :
    doubleUntil cap need = doubleUntil (cap * 2) need := by
  rw [doubleUntil, if_pos ⟨h, hcap⟩]

/-- Doubling covers the need, has doubled only, and stops as early as it can. -/
theorem doubleUntil_spec {cap : ℕ} (need : ℕ) (hcap : 0 < cap) :
    ∃ k, doubleUntil cap need = cap * 2 ^ k ∧ need ≤ cap * 2 ^ k ∧
      (k = 0 ∨ cap * 2 ^ k < need * 2) := by
  induction cap using doubleUntil.induct need with
  | case1 cap h ih =>
    obtain ⟨k, heq, hneed, hleast⟩ := ih (by omega)
    refine ⟨k + 1, ?_, ?_, Or.inr ?_⟩
    · rw [doubleUntil_of_lt hcap h.1, heq, pow_succ]; ring
    · rw [pow_succ]; linarith
    · rcases hleast with rfl | hleast
      · simp; omega
      · rw [pow_succ]; linarith
  | case2 cap h =>
    have hle : need ≤ cap := by omega
    exact ⟨0, by rw [doubleUntil_of_le hle]; simp, by simpa using hle, Or.inl rfl⟩

theorem le_doubleUntil {cap : ℕ} (need : ℕ) (hcap : 0 < cap) : need ≤ doubleUntil cap need := by
  obtain ⟨k, heq, hneed, -⟩ := doubleUntil_spec need hcap
  exact heq ▸ hneed

theorem doubleUntil_ge (cap need : ℕ) : cap ≤ doubleUntil cap need := by
  induction cap using doubleUntil.induct need with
  | case1 cap h ih => rw [doubleUntil_of_lt h.2 h.1]; omega
  | case2 cap h => rw [doubleUntil, if_neg h]

/-- Doubling from `cap` stays at or below every `cap * 2 ^ k` that covers the need. -/
theorem doubleUntil_le {cap need k : ℕ} (h : need ≤ cap * 2 ^ k) :
    doubleUntil cap need ≤ cap * 2 ^ k := by
  induction k generalizing cap with
  | zero => simp only [pow_zero, mul_one] at h ⊢; exact (doubleUntil_of_le h).le
  | succ k ih =>
    rw [doubleUntil]
    split
    · have hpow : cap * 2 ^ (k + 1) = cap * 2 * 2 ^ k := by rw [pow_succ]; ring
      rw [hpow] at h ⊢
      exact ih h
    · exact Nat.le_mul_of_pos_right cap (by positivity)

/-- Below `base * 2 ^ n` a size of the form `base * 2 ^ i` can be doubled. -/
theorem double_pow {base i n : ℕ} (h : base * 2 ^ i < base * 2 ^ n) :
    i + 1 ≤ n ∧ base * 2 ^ i * 2 = base * 2 ^ (i + 1) ∧ base * 2 ^ (i + 1) ≤ base * 2 ^ n := by
  have hexp : i + 1 ≤ n :=
    (Nat.pow_lt_pow_iff_right (by norm_num)).mp (Nat.lt_of_mul_lt_mul_left h)
  refine ⟨hexp, by rw [pow_succ]; ring, ?_⟩
  exact Nat.mul_le_mul_left _ (Nat.pow_le_pow_right (by norm_num) hexp)

theorem doubleUntil_mono {cap a b : ℕ} (hcap : 0 < cap) (h : a ≤ b) :
    doubleUntil cap a ≤ doubleUntil cap b := by
  obtain ⟨k, heq, hneed, -⟩ := doubleUntil_spec b hcap
  rw [heq]
  exact doubleUntil_le (h.trans hneed)

/-- A larger need that the doubled size covers makes no difference. -/
theorem doubleUntil_eq_of_le {cap a b : ℕ} (hcap : 0 < cap) (hab : a ≤ b)
    (hb : b ≤ doubleUntil cap a) : doubleUntil cap b = doubleUntil cap a := by
  apply le_antisymm _ (doubleUntil_mono hcap hab)
  obtain ⟨k, heq, -, -⟩ := doubleUntil_spec a hcap
  rw [heq] at hb ⊢
  exact doubleUntil_le hb

/-- A need that one more doubling covers takes one more doubling. -/
theorem doubleUntil_eq_double {cap a b : ℕ} (hcap : 0 < cap) (hlt : doubleUntil cap a < b)
    (hb : b ≤ doubleUntil cap a * 2) : doubleUntil cap b = doubleUntil cap a * 2 := by
  obtain ⟨k, heq, -, -⟩ := doubleUntil_spec a hcap
  obtain ⟨j, heq', hneed', -⟩ := doubleUntil_spec b hcap
  rw [heq] at hlt hb ⊢
  have hpow : cap * 2 ^ k * 2 = cap * 2 ^ (k + 1) := by rw [pow_succ]; ring
  apply le_antisymm
  · rw [hpow] at hb ⊢
    exact doubleUntil_le hb
  · rw [heq']
    obtain ⟨-, hdouble, hle⟩ := double_pow (lt_of_lt_of_le hlt hneed')
    rw [hdouble]
    exact hle

/-- Doubling a size of the form `base * 2 ^ j` up to a need that `base * 2 ^ n` covers. -/
theorem doubleUntil_pow {base j n need : ℕ} (hbase : 0 < base) (hj : j ≤ n)
    (h : need ≤ base * 2 ^ n) : ∃ i ≤ n, doubleUntil (base * 2 ^ j) need = base * 2 ^ i := by
  obtain ⟨k, heq, -, -⟩ := doubleUntil_spec need (show 0 < base * 2 ^ j by positivity)
  have hbound : doubleUntil (base * 2 ^ j) need ≤ base * 2 ^ j * 2 ^ (n - j) := by
    apply doubleUntil_le
    rwa [Nat.mul_assoc, ← pow_add, Nat.add_sub_cancel' hj]
  rw [heq, Nat.mul_assoc, Nat.mul_assoc, ← pow_add, ← pow_add, Nat.add_sub_cancel' hj] at hbound
  have hexp : j + k ≤ n :=
    (Nat.pow_le_pow_iff_right (by norm_num)).mp (Nat.le_of_mul_le_mul_left hbound hbase)
  exact ⟨j + k, hexp, by rw [heq, Nat.mul_assoc, ← pow_add]⟩

end AbstractHttp.Library
