import Mathlib.Data.List.Infix
import Mathlib.Data.List.TakeWhile
import Mathlib.Tactic

/-!
# The first occurrence of a list in another

What an occurrence says about a text that goes on: it stays the first one, and a
longer text that has its first one within the part known already had it there.
-/
namespace AbstractHttp.Library

variable {α : Type*} [DecidableEq α]

/-- The offset of the first occurrence of `needle`. -/
def search (needle : List α) : List α → Option ℕ
  | [] => if needle = [] then some 0 else none
  | b :: s => if needle <+: b :: s then some 0 else (search needle s).map (· + 1)

variable {needle s a t : List α} {i : ℕ}

theorem search_at_start (h : needle <+: s) : search needle s = some 0 := by
  cases s with
  | nil => rw [search, if_pos (List.prefix_nil.mp h)]
  | cons b s => rw [search, if_pos h]

/-- The needle is where it is found. -/
theorem search_found (h : search needle s = some i) : needle <+: s.drop i := by
  induction s generalizing i with
  | nil =>
    rw [search, Option.ite_none_right_eq_some] at h
    rw [h.1]
    exact List.nil_prefix
  | cons b s ih =>
    rw [search] at h
    split at h
    next hpre =>
      obtain rfl := Option.some.inj h
      exact hpre
    next =>
      obtain ⟨j, hj, rfl⟩ := Option.map_eq_some_iff.mp h
      exact ih hj

theorem search_le (h : search needle s = some i) : i + needle.length ≤ s.length := by
  induction s generalizing i with
  | nil =>
    rw [search, Option.ite_none_right_eq_some] at h
    obtain ⟨rfl, h⟩ := h
    obtain rfl := Option.some.inj h
    exact le_rfl
  | cons b s ih =>
    rw [search] at h
    split at h
    next hpre =>
      obtain rfl := Option.some.inj h
      simpa using hpre.length_le
    next =>
      obtain ⟨j, hj, rfl⟩ := Option.map_eq_some_iff.mp h
      have hle := ih hj
      simp only [List.length_cons]
      omega

/-- What follows does not change where the needle is found first. -/
theorem search_append (t : List α) (h : search needle s = some i) :
    search needle (s ++ t) = some i := by
  induction s generalizing i with
  | nil =>
    rw [search, Option.ite_none_right_eq_some] at h
    obtain ⟨rfl, h⟩ := h
    obtain rfl := Option.some.inj h
    exact search_at_start List.nil_prefix
  | cons b s ih =>
    rw [search] at h
    split at h
    next hpre =>
      obtain rfl := Option.some.inj h
      exact search_at_start (hpre.trans (List.prefix_append _ _))
    next hpre =>
      obtain ⟨j, hj, rfl⟩ := Option.map_eq_some_iff.mp h
      have hfits : needle.length ≤ (b :: s).length := by
        have hle := search_le hj
        simp only [List.length_cons]
        omega
      have hlater : ¬ needle <+: b :: (s ++ t) := by
        rwa [← List.cons_append, List.isPrefix_append_of_length hfits]
      rw [List.cons_append, search, if_neg hlater, ih hj, Option.map_some]

theorem search_ne_none (hle : i ≤ s.length) (h : needle <+: s.drop i) :
    search needle s ≠ none := by
  induction s generalizing i with
  | nil =>
    rw [List.drop_nil] at h
    simp [search, List.prefix_nil.mp h]
  | cons b s ih =>
    rw [search]
    split
    next => exact Option.some_ne_none 0
    next hpre =>
      cases i with
      | zero => exact absurd h hpre
      | succ i =>
        rw [List.length_cons] at hle
        rw [Ne, Option.map_eq_none_iff]
        exact ih (by omega) h

/-- A first occurrence that ends in the known part was there before the text went on. -/
theorem search_of_append (h : search needle (s ++ t) = some i)
    (hle : i + needle.length ≤ s.length) : search needle s = some i := by
  have hpre := search_found h
  rw [List.drop_append_of_le_length (by omega),
    List.isPrefix_append_of_length (by rw [List.length_drop]; omega)] at hpre
  obtain ⟨j, hj⟩ := Option.ne_none_iff_exists'.mp (search_ne_none (by omega) hpre)
  rw [hj, ← search_append t hj, h]

/-- A part without the needle's first letter is passed over. -/
theorem search_skip {c : α} (needle t : List α) (h : c ∉ a) :
    search (c :: needle) (a ++ t) = (search (c :: needle) t).map (· + a.length) := by
  induction a with
  | nil => simp
  | cons b a ih =>
    obtain ⟨hb, ha⟩ := not_or.mp (mt List.mem_cons.mpr h)
    have hpre : ¬ c :: needle <+: b :: (a ++ t) := by
      rw [List.cons_prefix_cons]
      exact fun hboth => hb hboth.1
    rw [List.cons_append, search, if_neg hpre, ih ha, Option.map_map]
    rfl

/-- Behind a part without the needle, the needle is found where it is, provided that its first
letter does not come back in it: no earlier occurrence can reach into it. -/
theorem search_behind {c : α} (t : List α) (hc : c ∉ needle) (ha : ¬ c :: needle <:+: a) :
    search (c :: needle) (a ++ c :: needle ++ t) = some a.length := by
  induction a with
  | nil => exact search_at_start (List.prefix_append _ _)
  | cons b a ih =>
    have hpre : ¬ c :: needle <+: b :: a ++ c :: needle ++ t := by
      intro hpre
      by_cases hlong : (c :: needle).length ≤ (b :: a).length
      · rw [List.append_assoc, List.isPrefix_append_of_length hlong] at hpre
        exact ha hpre.isInfix
      · have hshort : a.length < needle.length := by
          simp only [List.length_cons] at hlong
          omega
        have hget := hpre.getElem (i := a.length + 1) (Nat.succ_lt_succ hshort)
        have hat : needle[a.length] = c := by simpa using hget
        exact hc (hat ▸ List.getElem_mem _)
    rw [List.cons_append, List.cons_append, search, if_neg (by simpa using hpre),
      ih fun h => ha (h.trans (List.suffix_cons _ _).isInfix)]
    rfl

omit [DecidableEq α] in
/-- A needle does not reach over a letter that it does not have. -/
theorem not_infix_append_cons {c : α} (hc : c ∉ needle) (ha : ¬ needle <:+: a)
    (hs : ¬ needle <:+: s) : ¬ needle <:+: a ++ c :: s := by
  have hstart : ∀ a, ¬ needle <:+: a → ¬ needle <+: a ++ c :: s := by
    intro a ha hpre
    by_cases hlong : needle.length ≤ a.length
    · rw [List.isPrefix_append_of_length hlong] at hpre
      exact ha hpre.isInfix
    · have hget := hpre.getElem (i := a.length) (Nat.lt_of_not_le hlong)
      have hat : needle[a.length] = c := by simpa using hget
      exact hc (hat ▸ List.getElem_mem _)
  induction a with
  | nil =>
    rw [List.nil_append, List.infix_cons_iff, not_or]
    exact ⟨hstart [] ha, hs⟩
  | cons b a ih =>
    have htail : ¬ needle <:+: a := fun h => ha (h.trans (List.suffix_cons _ _).isInfix)
    rw [List.cons_append, List.infix_cons_iff, not_or]
    exact ⟨hstart (b :: a) ha, ih htail⟩

end AbstractHttp.Library
