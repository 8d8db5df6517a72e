import Mathlib.Tactic

/-!
# Binary heaps in an array

An element moves towards the root, or away from it, by swaps with a parent or with the
smallest child. None of this adds or drops an element, in whatever order the array is.
-/
namespace AbstractHttp.Library

variable {α κ : Type*} [LinearOrder κ] (key : α → κ)

/-- `j` where the array has a smaller key there, else `i`. -/
def smaller (a : Array α) (i : Fin a.size) (j : ℕ) : Fin a.size :=
  if h : j < a.size then
    if key a[j] < key a[i] then ⟨j, h⟩ else i
  else i

/-- The position of the smallest of an element and its children. -/
def smallest (a : Array α) (i : Fin a.size) : Fin a.size :=
  smaller key a (smaller key a i (2 * i.val + 1)) (2 * i.val + 2)

variable {key} in
theorem smaller_cases {a : Array α} {i k : Fin a.size} {j : ℕ} (h : smaller key a i j = k) :
    k = i ∨ k.val = j ∧ key a[k] < key a[i] := by
  rw [smaller] at h
  split_ifs at h with hj hlt
  · subst h
    exact Or.inr ⟨rfl, hlt⟩
  · exact Or.inl h.symm
  · exact Or.inl h.symm

variable {key} in
/-- Another position than `i` is below it and holds a smaller key. -/
theorem smallest_cases {a : Array α} {i k : Fin a.size} (h : smallest key a i = k) :
    k = i ∨ i.val < k.val ∧ key a[k] < key a[i] := by
  rw [smallest] at h
  generalize hleft : smaller key a i (2 * i.val + 1) = left at h
  rcases smaller_cases h with rfl | ⟨hright, hlt⟩
  · exact (smaller_cases hleft).imp_right fun ⟨hval, hlt⟩ => ⟨by omega, hlt⟩
  · refine Or.inr ⟨by omega, hlt.trans_le ?_⟩
    rcases smaller_cases hleft with rfl | ⟨-, hlt⟩
    · exact le_rfl
    · exact hlt.le

/-- Move the element at `i` up while its key is smaller than its parent's. -/
def siftUp (a : Array α) (i : Fin a.size) : Array α :=
  if hi : i.val = 0 then a
  else
    have hparent : (i.val - 1) / 2 < a.size := by omega
    if key a[i] < key a[(i.val - 1) / 2] then
      siftUp (a.swap i ((i.val - 1) / 2)) ⟨(i.val - 1) / 2, by rwa [Array.size_swap]⟩
    else a
termination_by i.val

/-- Move the element at `i` down while a child has a smaller key. -/
def siftDown (a : Array α) (i : Fin a.size) : Array α :=
  if smallest key a i = i then a
  else siftDown (a.swap i (smallest key a i)) ⟨smallest key a i, by simp⟩
termination_by a.size - i.val
decreasing_by
  have hbelow := (smallest_cases (rfl : smallest key a i = _)).resolve_left ‹_›
  rw [Array.size_swap]
  omega

variable {key} {a : Array α}

theorem getElem?_swap_of_ne {i j k : ℕ} (hi : i < a.size) (hj : j < a.size) (hik : k ≠ i)
    (hjk : k ≠ j) : (a.swap i j)[k]? = a[k]? := by
  rw [Array.getElem?_swap, if_neg hjk.symm, if_neg hik.symm]

theorem toList_eq_root_cons (h : 0 < a.size) : a.toList = a[0] :: a.toList.tail := by
  rw [← Array.getElem_toList, List.getElem_zero]
  exact (List.cons_head_tail _).symm

theorem siftUp_perm (i : Fin a.size) : (siftUp key a i).Perm a := by
  fun_induction siftUp key a i with
  | case1 => exact .refl _
  | case2 a i hi hparent hlt ih => exact ih.trans (Array.swap_perm _ _)
  | case3 => exact .refl _

theorem siftDown_perm (i : Fin a.size) : (siftDown key a i).Perm a := by
  fun_induction siftDown key a i with
  | case1 => exact .refl _
  | case2 a i hne ih => exact ih.trans (Array.swap_perm _ _)

variable (key) in
/-- Only a smaller key than the root's takes its place. -/
theorem siftUp_root (i : Fin a.size) :
    (siftUp key a i)[0]? = a[0]? ∨
      (siftUp key a i)[0]? = some a[i] ∧ ∀ root, a[0]? = some root → key a[i] < key root := by
  fun_induction siftUp key a i with
  | case1 => exact Or.inl rfl
  | case2 a i hi hparent hlt ih =>
    simp only [Fin.getElem_fin, Array.getElem_swap_right] at ih
    by_cases hroot : (i.val - 1) / 2 = 0
    · have hmoved : (a.swap i ((i.val - 1) / 2))[0]? = some a[i] := by
        simp [Array.getElem?_swap, hroot]
      refine Or.inr ⟨?_, fun root hget => ?_⟩
      · rcases ih with ih | ih
        · rw [ih, hmoved]
        · exact ih.1
      · obtain ⟨_, rfl⟩ := Array.getElem?_eq_some_iff.mp hget
        simpa only [hroot] using hlt
    · have hkept : (a.swap i ((i.val - 1) / 2))[0]? = a[0]? :=
        getElem?_swap_of_ne i.isLt hparent (Ne.symm hi) (Ne.symm hroot)
      rwa [hkept] at ih
  | case3 => exact Or.inl rfl

/-- The last slot stays as it is when its key is that of the element that moves down. -/
theorem siftDown_last {i : Fin a.size} {l : ℕ} {last : α} (hl : l + 1 = a.size)
    (hlast : a[l]? = some last) (hil : i.val < l) (hkey : key last = key a[i]) :
    (siftDown key a i)[l]? = some last := by
  fun_induction siftDown key a i with
  | case1 => exact hlast
  | case2 a i hne ih =>
    obtain ⟨-, hlt⟩ := (smallest_cases (rfl : smallest key a i = _)).resolve_left hne
    have hapart : (smallest key a i).val ≠ l := by
      intro hsame
      obtain ⟨_, rfl⟩ := Array.getElem?_eq_some_iff.mp hlast
      simp only [Fin.getElem_fin, hsame] at hlt
      exact hlt.ne hkey
    have habove : (smallest key a i).val < l := by omega
    have hslot : (a.swap i (smallest key a i))[l]? = a[l]? :=
      getElem?_swap_of_ne i.isLt (smallest key a i).isLt hil.ne' habove.ne'
    refine ih (by rwa [Array.size_swap]) (hslot.trans hlast) habove ?_
    simpa using hkey

/-- With the last element put in the root's place and moved down, its old slot can be dropped. -/
theorem siftDown_set_root {last : α} (hlast : a[a.size - 1]? = some last) (h : 1 < a.size)
    (hroot : 0 < (a.set 0 last).size) :
    (siftDown key (a.set 0 last) ⟨0, hroot⟩).pop.toList.Perm a.toList.tail := by
  generalize hdown : siftDown key (a.set 0 last) ⟨0, hroot⟩ = down
  have hset : (a.set 0 last).toList = last :: a.toList.tail := by
    rw [Array.toList_set]
    cases hlist : a.toList with
    | nil => simp [← Array.length_toList, hlist] at h
    | cons => rfl
  have hperm : down.toList.Perm (last :: a.toList.tail) := by
    rw [← hset, ← hdown]
    exact Array.perm_iff_toList_perm.mp (siftDown_perm _)
  have hslot : down[a.size - 1]? = some last := by
    rw [← hdown]
    refine siftDown_last (by rw [Array.size_set]; omega) ?_ (by simp; omega) (by simp)
    rw [Array.getElem?_set_ne _ (by omega), hlast]
  have hsize : down.size = a.size := by
    rw [← hdown, (siftDown_perm _).size_eq, Array.size_set]
  have hback : down.pop.toList ++ [last] = down.toList := by
    rw [Array.toList_pop]
    refine List.dropLast_append_getLast? last ?_
    rw [List.getLast?_eq_getElem?, Array.length_toList, hsize, Array.getElem?_toList]
    exact hslot
  rw [← hback] at hperm
  exact ((List.perm_append_singleton last _).symm.trans hperm).cons_inv

end AbstractHttp.Library
