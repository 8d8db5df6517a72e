import AbstractHttp.Library.Heap
import Mathlib.Order.WithBot

/-!
# The order of a binary heap

Slots behind the end count as holding the top key, so that parents and children need no
bounds. A sift moves the one violation of the order along a path until it is gone.
-/
namespace AbstractHttp.Library

variable {α κ : Type*}

/-- A list without its head, where the last element takes the head's place. -/
theorem dropLast_set_getLast_perm {xs : List α} (h : xs ≠ []) :
    (xs.set 0 (xs.getLast h)).dropLast.Perm xs.tail := by
  match xs with
  | [x] => exact .refl _
  | x :: y :: rest =>
    rw [List.set_cons_zero, List.getLast_cons_cons, List.dropLast_cons_cons, List.tail_cons]
    refine (List.perm_append_singleton _ _).symm.trans (.of_eq ?_)
    exact List.dropLast_append_getLast (List.cons_ne_nil y rest)

/-- The key in a slot. -/
def keyAt (key : α → κ) (a : Array α) (i : ℕ) : WithTop κ := (a[i]?.map key).elim ⊤ (↑)

section Keys

variable {key : α → κ} {a : Array α} {i j k : ℕ}

theorem keyAt_of_lt (hi : i < a.size) : keyAt key a i = key a[i] := by
  rw [keyAt, Array.getElem?_eq_getElem hi]
  rfl

theorem keyAt_of_le (hi : a.size ≤ i) : keyAt key a i = ⊤ := by
  rw [keyAt, Array.getElem?_eq_none hi]
  rfl

theorem keyAt_congr {b : Array α} (h : a[i]? = b[j]?) : keyAt key a i = keyAt key b j := by
  rw [keyAt, h, keyAt]

theorem keyAt_swap_left (hi : i < a.size) (hj : j < a.size) :
    keyAt key (a.swap i j) i = keyAt key a j := by
  refine keyAt_congr ?_
  rw [Array.getElem?_swap, if_pos rfl, Array.getElem?_eq_getElem hj]
  split_ifs with hji
  · subst hji
    rfl
  · rfl

theorem keyAt_swap_right (hi : i < a.size) (hj : j < a.size) :
    keyAt key (a.swap i j) j = keyAt key a i :=
  keyAt_congr (by simp [Array.getElem?_swap])

theorem keyAt_swap_of_ne (hi : i < a.size) (hj : j < a.size) (hik : k ≠ i) (hjk : k ≠ j) :
    keyAt key (a.swap i j) k = keyAt key a k :=
  keyAt_congr (getElem?_swap_of_ne hi hj hik hjk)

end Keys

variable [LinearOrder κ]

/-- No element has a smaller key than its parent. -/
def HeapOrdered (key : α → κ) (a : Array α) : Prop :=
  ∀ i (_ : i < a.size), 0 < i → key a[(i - 1) / 2] ≤ key a[i]

variable {key : α → κ} {a : Array α} {i j : ℕ}

theorem heapOrdered_iff :
    HeapOrdered key a ↔ ∀ i, 0 < i → keyAt key a ((i - 1) / 2) ≤ keyAt key a i := by
  constructor
  · intro h i hpos
    by_cases hi : i < a.size
    · have hparent : (i - 1) / 2 < a.size := by omega
      rw [keyAt_of_lt hi, keyAt_of_lt hparent]
      exact WithTop.coe_le_coe.mpr (h i hi hpos)
    · rw [keyAt_of_le (not_lt.mp hi)]
      exact le_top
  · intro h i hi hpos
    have hparent : (i - 1) / 2 < a.size := by omega
    have hle := h i hpos
    rw [keyAt_of_lt hi, keyAt_of_lt hparent] at hle
    exact WithTop.coe_le_coe.mp hle

/-- The order depends on the keys only. -/
theorem heapOrdered_congr {b : Array α} (h : ∀ i, keyAt key b i = keyAt key a i) :
    HeapOrdered key b ↔ HeapOrdered key a := by
  simp only [heapOrdered_iff, h]

/-- The root of a heap has the smallest key. -/
theorem HeapOrdered.root_le (h : HeapOrdered key a) (i : ℕ) : keyAt key a 0 ≤ keyAt key a i := by
  induction i using Nat.strong_induction_on with
  | _ i ih =>
    rcases Nat.eq_zero_or_pos i with rfl | hpos
    · exact le_rfl
    · exact (ih ((i - 1) / 2) (by omega)).trans (heapOrdered_iff.mp h i hpos)

theorem HeapOrdered.root_le_of_mem (h : HeapOrdered key a) (hpos : 0 < a.size) {x : α}
    (hx : x ∈ a.toList) : key a[0] ≤ key x := by
  obtain ⟨i, hi, rfl⟩ := List.mem_iff_getElem.mp hx
  rw [Array.length_toList] at hi
  have hle := h.root_le i
  rw [keyAt_of_lt hi, keyAt_of_lt hpos] at hle
  exact WithTop.coe_le_coe.mp hle

/-! Upwards. -/

/-- Only the element at `i` may have a smaller key than its parent; its children are in order with
that parent. -/
structure UpReady (key : α → κ) (a : Array α) (i : ℕ) : Prop where
  except : ∀ j, 0 < j → j ≠ i → keyAt key a ((j - 1) / 2) ≤ keyAt key a j
  grand : 0 < i → ∀ j, 0 < j → (j - 1) / 2 = i → keyAt key a ((i - 1) / 2) ≤ keyAt key a j

theorem UpReady.finish (h : UpReady key a i)
    (hi : 0 < i → keyAt key a ((i - 1) / 2) ≤ keyAt key a i) : HeapOrdered key a := by
  refine heapOrdered_iff.mpr fun j hpos => ?_
  by_cases hji : j = i
  · rw [hji] at hpos ⊢
    exact hi hpos
  · exact h.except j hpos hji

theorem UpReady.swap (h : UpReady key a i) (hi : i < a.size) (hpos : 0 < i)
    (hparent : (i - 1) / 2 < a.size)
    (hlt : keyAt key a i < keyAt key a ((i - 1) / 2)) :
    UpReady key (a.swap i ((i - 1) / 2)) ((i - 1) / 2) := by
  have hne : (i - 1) / 2 ≠ i := by omega
  constructor
  · intro j hj hjp
    by_cases hji : j = i
    · rw [hji, keyAt_swap_right, keyAt_swap_left]
      exact hlt.le
    rw [keyAt_swap_of_ne hi hparent hji hjp]
    by_cases hchild : (j - 1) / 2 = i
    · rw [hchild, keyAt_swap_left]
      exact h.grand hpos j hj hchild
    by_cases hsibling : (j - 1) / 2 = (i - 1) / 2
    · rw [hsibling, keyAt_swap_right]
      have hold := h.except j hj hji
      rw [hsibling] at hold
      exact hlt.le.trans hold
    · rw [keyAt_swap_of_ne hi hparent hchild hsibling]
      exact h.except j hj hji
  · intro hppos j hj hjp
    have habove := h.except ((i - 1) / 2) hppos hne
    rw [keyAt_swap_of_ne hi hparent (by omega) (by omega)]
    by_cases hji : j = i
    · rw [hji, keyAt_swap_left]
      exact habove
    · rw [keyAt_swap_of_ne hi hparent hji (by omega)]
      have hold := h.except j hj hji
      rw [hjp] at hold
      exact habove.trans hold

theorem siftUp_ordered (i : Fin a.size) (h : UpReady key a i) : HeapOrdered key (siftUp key a i) := by
  fun_induction siftUp key a i with
  | case1 a i hi => exact h.finish fun hpos => absurd hi hpos.ne'
  | case2 a i hi hparent hlt ih =>
    refine ih (h.swap i.isLt (Nat.pos_of_ne_zero hi) hparent ?_)
    rw [keyAt_of_lt i.isLt, keyAt_of_lt hparent]
    exact WithTop.coe_lt_coe.mpr hlt
  | case3 a i hi hparent hlt =>
    refine h.finish fun _ => ?_
    rw [keyAt_of_lt i.isLt, keyAt_of_lt hparent]
    exact WithTop.coe_le_coe.mpr (not_lt.mp hlt)

/-- An element pushed at the end can be moved up. -/
theorem HeapOrdered.upReady_push (h : HeapOrdered key a) (x : α) :
    UpReady key (a.push x) a.size := by
  have hkept : ∀ j, j ≠ a.size → keyAt key (a.push x) j = keyAt key a j := fun j hj =>
    keyAt_congr (by rw [Array.getElem?_push, if_neg hj])
  have hbehind : ∀ j, a.size < j → keyAt key (a.push x) j = ⊤ := fun j hj =>
    keyAt_of_le (by rwa [Array.size_push])
  constructor
  · intro j hpos hj
    by_cases hparent : (j - 1) / 2 = a.size
    · rw [hbehind j (by omega)]
      exact le_top
    · rw [hkept j hj, hkept _ hparent]
      exact heapOrdered_iff.mp h j hpos
  · intro hpos j hj hparent
    rw [hbehind j (by omega)]
    exact le_top

/-! Downwards. -/

theorem smaller_le (i : Fin a.size) (j : ℕ) :
    keyAt key a (smaller key a i j) ≤ keyAt key a i ∧
      keyAt key a (smaller key a i j) ≤ keyAt key a j := by
  rw [smaller]
  split_ifs with hj hlt
  · refine ⟨?_, le_rfl⟩
    rw [keyAt_of_lt hj, keyAt_of_lt i.isLt]
    exact WithTop.coe_le_coe.mpr hlt.le
  · refine ⟨le_rfl, ?_⟩
    rw [keyAt_of_lt hj, keyAt_of_lt i.isLt]
    exact WithTop.coe_le_coe.mpr (not_lt.mp hlt)
  · refine ⟨le_rfl, ?_⟩
    rw [keyAt_of_le (not_lt.mp hj)]
    exact le_top

theorem smallest_le_self (i : Fin a.size) :
    keyAt key a (smallest key a i) ≤ keyAt key a i :=
  (smaller_le _ _).1.trans (smaller_le _ _).1

/-- No child has a smaller key than the smallest. -/
theorem smallest_le (i : Fin a.size) (hpos : 0 < j) (hj : (j - 1) / 2 = i) :
    keyAt key a (smallest key a i) ≤ keyAt key a j := by
  have hchild : j = 2 * i.val + 1 ∨ j = 2 * i.val + 2 := by omega
  rcases hchild with rfl | rfl
  · exact (smaller_le _ _).1.trans (smaller_le _ _).2
  · exact (smaller_le _ _).2

theorem smallest_child (i : Fin a.size) (h : smallest key a i ≠ i) :
    0 < (smallest key a i).val ∧ ((smallest key a i).val - 1) / 2 = i.val := by
  generalize hk : smallest key a i = k at h ⊢
  rw [smallest] at hk
  generalize hleft : smaller key a i (2 * i.val + 1) = left at hk
  rcases smaller_cases hk with rfl | ⟨hright, -⟩
  · obtain ⟨hval, -⟩ := (smaller_cases hleft).resolve_left h
    omega
  · omega

/-- Only the children of the element at `i` may have a smaller key than it; they are in order with
its parent. -/
structure DownReady (key : α → κ) (a : Array α) (i : ℕ) : Prop where
  except : ∀ j, 0 < j → (j - 1) / 2 ≠ i → keyAt key a ((j - 1) / 2) ≤ keyAt key a j
  grand : 0 < i → ∀ j, 0 < j → (j - 1) / 2 = i → keyAt key a ((i - 1) / 2) ≤ keyAt key a j

theorem DownReady.finish (h : DownReady key a i)
    (hi : ∀ j, 0 < j → (j - 1) / 2 = i → keyAt key a i ≤ keyAt key a j) : HeapOrdered key a := by
  refine heapOrdered_iff.mpr fun j hpos => ?_
  by_cases hji : (j - 1) / 2 = i
  · rw [hji]
    exact hi j hpos hji
  · exact h.except j hpos hji

/-- Swap the element at `i` with its smallest child, at `c`. -/
theorem DownReady.swap {c : ℕ} (h : DownReady key a i) (hi : i < a.size) (hc : c < a.size)
    (hpos : 0 < c) (hparent : (c - 1) / 2 = i) (hle : keyAt key a c ≤ keyAt key a i)
    (hleast : ∀ j, 0 < j → (j - 1) / 2 = i → keyAt key a c ≤ keyAt key a j) :
    DownReady key (a.swap i c) c := by
  have hne : c ≠ i := by omega
  constructor
  · intro j hj hjc
    by_cases hsame : j = c
    · rw [hsame, hparent, keyAt_swap_left, keyAt_swap_right]
      exact hle
    by_cases hself : j = i
    · rw [hself, keyAt_swap_left, keyAt_swap_of_ne hi hc (by omega) (by omega)]
      exact h.grand (hself ▸ hj) c hpos hparent
    rw [keyAt_swap_of_ne hi hc hself hsame]
    by_cases hsibling : (j - 1) / 2 = i
    · rw [hsibling, keyAt_swap_left]
      exact hleast j hj hsibling
    · rw [keyAt_swap_of_ne hi hc hsibling hjc]
      exact h.except j hj hsibling
  · intro _ j hj hjc
    rw [hparent, keyAt_swap_left, keyAt_swap_of_ne hi hc (by omega) (by omega)]
    have hold := h.except j hj (by omega)
    rwa [hjc] at hold

theorem siftDown_ordered (i : Fin a.size) (h : DownReady key a i) :
    HeapOrdered key (siftDown key a i) := by
  fun_induction siftDown key a i with
  | case1 a i hsmallest =>
    refine h.finish fun j hpos hj => ?_
    have hle : keyAt key a (smallest key a i) ≤ keyAt key a j := smallest_le i hpos hj
    rwa [hsmallest] at hle
  | case2 a i hne ih =>
    obtain ⟨hpos, hparent⟩ := smallest_child i hne
    exact ih (h.swap i.isLt (smallest key a i).isLt hpos hparent (smallest_le_self i)
      fun j => smallest_le i)

/-- Any element can be moved down from the root. -/
theorem HeapOrdered.downReady_set (h : HeapOrdered key a) (x : α) (hpos : 0 < a.size) :
    DownReady key (a.set 0 x) 0 := by
  have hkept : ∀ j, j ≠ 0 → keyAt key (a.set 0 x) j = keyAt key a j := fun j hj =>
    keyAt_congr (Array.getElem?_set_ne hpos (Ne.symm hj))
  constructor
  · intro j hj hparent
    rw [hkept j hj.ne', hkept _ hparent]
    exact heapOrdered_iff.mp h j hj
  · exact fun hzero => absurd hzero (lt_irrefl 0)

/-- The last slot may be dropped before the element at `i` is moved down. -/
theorem DownReady.pop (h : DownReady key a i) : DownReady key a.pop i := by
  have hkept : ∀ j, j < a.pop.size → keyAt key a.pop j = keyAt key a j := fun j hj =>
    keyAt_congr (by rw [Array.getElem?_pop, if_pos (by rwa [Array.size_pop] at hj)])
  have hle : ∀ j k, k < j → keyAt key a k ≤ keyAt key a j →
      keyAt key a.pop k ≤ keyAt key a.pop j := by
    intro j k hkj hold
    by_cases hj : j < a.pop.size
    · rwa [hkept j hj, hkept k (by omega)]
    · rw [keyAt_of_le (not_lt.mp hj)]
      exact le_top
  exact ⟨fun j hpos hparent => hle _ _ (by omega) (h.except j hpos hparent),
    fun hpos j hj hparent => hle _ _ (by omega) (h.grand hpos j hj hparent)⟩

theorem HeapOrdered.pop (h : HeapOrdered key a) : HeapOrdered key a.pop := by
  intro i hi hpos
  rw [Array.size_pop] at hi
  simp only [Array.getElem_pop]
  exact h i (by omega) hpos

end AbstractHttp.Library
