import AbstractHttp.Library.Memory
import AbstractHttp.Library.Ownership
import Mathlib.Algebra.BigOperators.Fin

/-!
# Arrays of entries that own blocks

An array that doubles when it is full. Each entry in use owns blocks of its own, and the slots
behind them hold whatever was left there.
-/
namespace AbstractHttp.Library

/-- The pointer to the array, what its slots hold, how many are in use and how many there are. -/
structure BlockArray (β : Type) where
  block : Option ℕ
  slots : Memory β
  count : ℕ
  capacity : ℕ

namespace BlockArray

variable {β : Type} (arr : BlockArray β)

/-- An array of no slots, with a NULL pointer. -/
def init (junk : Memory β) : BlockArray β := ⟨none, junk, 0, 0⟩

/-- An access to a slot: the pointer is followed, and the slot is one of the block. -/
def touch (i : ℕ) : HeapM Unit :=
  match arr.block with
  | some b => if i < arr.capacity then HeapM.use b else failure
  | none => failure

def get (i : ℕ) : HeapM β := do
  arr.touch i
  pure (arr.slots i)

/-- The array with another entry in a slot. -/
def withSlot (i : ℕ) (x : β) : BlockArray β := { arr with slots := Function.update arr.slots i x }

def put (i : ℕ) (x : β) : HeapM (BlockArray β) := do
  arr.touch i
  pure (arr.withSlot i x)

def modify (i : ℕ) (f : β → β) : HeapM (BlockArray β) := do
  arr.put i (f (← arr.get i))

/-- Room for one more entry: a full array doubles, from `first` slots on. -/
def grow (first : ℕ) : HeapM (Option (BlockArray β)) :=
  if arr.count ≥ arr.capacity then do
    let newCap := if arr.capacity = 0 then first else arr.capacity * 2
    match ← HeapM.realloc arr.block with
    | none => pure none
    | some b => pure (some { arr with block := some b, capacity := newCap })
  else pure (some arr)

/-- The `n` slots behind slot `i` move up by one. -/
def moveUp (i n : ℕ) : HeapM (BlockArray β) :=
  (List.range' i n).foldlM (fun arr j => do arr.put j (← arr.get (j + 1))) arr

/-- Every entry is dropped, and then the array. -/
def clear (drop : β → HeapM Unit) : HeapM (BlockArray β) :=
  match arr.block with
  | none => pure { arr with count := 0, capacity := 0 }
  | some b => do
    (List.range arr.count).forM fun i => do drop (← arr.get i)
    HeapM.release b
    pure { arr with block := none, count := 0, capacity := 0 }

/-- The entry behind the last one is in use now. -/
def counted : BlockArray β := { arr with count := arr.count + 1 }

/-- The array has a block for its slots, its entries have slots, and are good ones. -/
structure Sound (good : β → Prop) : Prop where
  within : arr.count ≤ arr.capacity
  present : arr.block = none → arr.capacity = 0
  entries : ∀ i < arr.count, good (arr.slots i)

/-- The blocks of the entries in use. -/
def entryBlocks (own : β → Multiset ℕ) : Multiset ℕ :=
  ∑ i ∈ Finset.range arr.count, own (arr.slots i)

/-- All blocks of an array. -/
def blocks (own : β → Multiset ℕ) : Multiset ℕ := pointed arr.block + arr.entryBlocks own

/-- All blocks of an array but those of one entry. -/
def blocksBut (own : β → Multiset ℕ) (i : ℕ) : Multiset ℕ :=
  pointed arr.block + ∑ j ∈ (Finset.range arr.count).erase i, own (arr.slots j)

section Specs

variable {arr : BlockArray β} {good : β → Prop} {own : β → Multiset ℕ} {others : Set ℕ}
  {m : Multiset ℕ} {i : ℕ} {x : β}

theorem sound_init (junk : Memory β) : (init junk).Sound good where
  within := le_rfl
  present _ := rfl
  entries i h := absurd h (Nat.not_lt_zero i)

@[simp] theorem withSlot_block : (arr.withSlot i x).block = arr.block := rfl

@[simp] theorem withSlot_count : (arr.withSlot i x).count = arr.count := rfl

@[simp] theorem withSlot_capacity : (arr.withSlot i x).capacity = arr.capacity := rfl

@[simp] theorem withSlot_self : (arr.withSlot i x).slots i = x := Function.update_self ..

theorem withSlot_of_ne {j : ℕ} (h : j ≠ i) : (arr.withSlot i x).slots j = arr.slots j :=
  Function.update_of_ne h ..

@[simp] theorem blocks_init (junk : Memory β) : (init junk).blocks own = 0 := rfl

theorem mem_blocks {b : ℕ} (hb : b ∈ arr.block) : b ∈ arr.blocks own := by
  have hblock : arr.block = some b := hb
  simp [blocks, hblock]

theorem touch_transfers (hsound : arr.Sound good) (hi : i < arr.capacity)
    (hblock : ∀ b ∈ arr.block, b ∈ m ∨ b ∈ others) :
    Transfers others m (arr.touch i) (fun _ => m) fun _ => True := by
  rw [touch]
  cases hnull : arr.block with
  | none => exact absurd (hsound.present hnull) (Nat.ne_of_gt (i.zero_le.trans_lt hi))
  | some b =>
    dsimp only
    rw [if_pos hi]
    exact .use (hblock b hnull)

theorem get_transfers (hsound : arr.Sound good) (hi : i < arr.capacity)
    (hblock : ∀ b ∈ arr.block, b ∈ m ∨ b ∈ others) :
    Transfers others m (arr.get i) (fun _ => m) fun r => r = arr.slots i :=
  .bind (touch_transfers hsound hi hblock) fun _ _ => .ret rfl rfl

theorem put_transfers (hsound : arr.Sound good) (hi : i < arr.capacity)
    (hblock : ∀ b ∈ arr.block, b ∈ m ∨ b ∈ others) :
    Transfers others m (arr.put i x) (fun _ => m) fun r => r = arr.withSlot i x :=
  .bind (touch_transfers hsound hi hblock) fun _ _ => .ret rfl rfl

theorem modify_transfers {f : β → β} (hsound : arr.Sound good) (hi : i < arr.capacity)
    (hblock : ∀ b ∈ arr.block, b ∈ m ∨ b ∈ others) :
    Transfers others m (arr.modify i f) (fun _ => m)
      fun r => r = arr.withSlot i (f (arr.slots i)) := by
  refine .bind (get_transfers hsound hi hblock) ?_
  rintro _ rfl
  exact put_transfers hsound hi hblock

/-- What is put behind the entries in use disturbs none of them. -/
theorem Sound.withSlot_behind (hsound : arr.Sound good) (hi : arr.count ≤ i) :
    (arr.withSlot i x).Sound good where
  within := hsound.within
  present := hsound.present
  entries j hj := by
    rw [withSlot_of_ne (Nat.ne_of_lt (Nat.lt_of_lt_of_le hj hi))]
    exact hsound.entries j hj

theorem entryBlocks_withSlot_behind (hi : arr.count ≤ i) :
    (arr.withSlot i x).entryBlocks own = arr.entryBlocks own := by
  refine Finset.sum_congr rfl fun j hj => ?_
  rw [withSlot_of_ne (Nat.ne_of_lt (Nat.lt_of_lt_of_le (Finset.mem_range.mp hj) hi))]

theorem blocks_withSlot_behind (hi : arr.count ≤ i) :
    (arr.withSlot i x).blocks own = arr.blocks own :=
  congrArg (pointed arr.block + ·) (entryBlocks_withSlot_behind hi)

theorem Sound.counted (hsound : arr.Sound good) (hroom : arr.count < arr.capacity)
    (hlast : good (arr.slots arr.count)) : arr.counted.Sound good where
  within := hroom
  present := hsound.present
  entries i hi := by
    rcases Nat.lt_succ_iff_lt_or_eq.mp hi with hi | rfl
    · exact hsound.entries i hi
    · exact hlast

theorem entryBlocks_le : arr.entryBlocks own ≤ arr.blocks own := Multiset.le_add_left _ _

theorem blocks_counted :
    arr.counted.blocks own = own (arr.slots arr.count) + arr.blocks own := by
  have hsum : arr.counted.entryBlocks own = arr.entryBlocks own + own (arr.slots arr.count) :=
    Finset.sum_range_succ _ _
  rw [blocks, hsum, blocks]
  change pointed arr.block + _ = _
  abel

theorem grow_transfers {first : ℕ} (hsound : arr.Sound good) (hfirst : 0 < first) :
    Transfers others (arr.blocks own) (arr.grow first) (fun r => (r.getD arr).blocks own)
      fun r => ∀ grown ∈ r, grown.Sound good ∧ grown.count < grown.capacity ∧
        grown.count = arr.count ∧ grown.slots = arr.slots := by
  rw [grow]
  by_cases hfull : arr.count ≥ arr.capacity
  · rw [if_pos hfull]
    refine .bind .realloc ?_
    rintro (_ | b) -
    · exact .ret rfl (by simp)
    · refine .ret rfl ?_
      rintro grown ⟨⟩
      have hroom : arr.count < if arr.capacity = 0 then first else arr.capacity * 2 := by
        have hwithin := hsound.within
        split <;> omega
      exact ⟨⟨hroom.le, by simp, hsound.entries⟩, hroom, rfl, rfl⟩
  · rw [if_neg hfull]
    refine .ret rfl ?_
    rintro grown ⟨⟩
    exact ⟨hsound, Nat.lt_of_not_le hfull, rfl, rfl⟩

/-- An entry in use, apart from the rest of the array. -/
theorem blocks_entry (hi : i < arr.count) :
    arr.blocks own = own (arr.slots i) + arr.blocksBut own i := by
  have hsplit := Finset.add_sum_erase (Finset.range arr.count) (fun j => own (arr.slots j))
    (Finset.mem_range.mpr hi)
  rw [blocks, entryBlocks, blocksBut, ← hsplit]
  abel

theorem mem_entryBlocks {b : ℕ} :
    b ∈ arr.entryBlocks own ↔ ∃ i < arr.count, b ∈ own (arr.slots i) := by
  simp [entryBlocks, Multiset.mem_sum]

theorem Sound.withSlot (hsound : arr.Sound good) (hgood : good x) :
    (arr.withSlot i x).Sound good where
  within := hsound.within
  present := hsound.present
  entries j hj := by
    by_cases hij : j = i
    · rw [hij, withSlot_self]
      exact hgood
    · rw [withSlot_of_ne hij]
      exact hsound.entries j hj

theorem blocks_withSlot (hi : i < arr.count) :
    (arr.withSlot i x).blocks own = own x + arr.blocksBut own i := by
  have hentry : (arr.withSlot i x).blocks own = _ :=
    blocks_entry (show i < (arr.withSlot i x).count from hi)
  rw [hentry, withSlot_self]
  refine congrArg (fun rest => own x + (pointed arr.block + rest))
    (Finset.sum_congr rfl fun j hj => ?_)
  rw [withSlot_of_ne (Finset.ne_of_mem_erase hj)]

theorem mem_blocksBut {b j : ℕ} (hj : j < arr.count) (hne : j ≠ i) (hb : b ∈ own (arr.slots j)) :
    b ∈ arr.blocksBut own i := by
  refine Multiset.mem_add.mpr (.inr (Multiset.mem_sum.mpr ⟨j, ?_, hb⟩))
  exact Finset.mem_erase.mpr ⟨hne, Finset.mem_range.mpr hj⟩

theorem block_mem_blocksBut {b : ℕ} (hb : b ∈ arr.block) : b ∈ arr.blocksBut own i := by
  have hblock : arr.block = some b := hb
  simp [blocksBut, hblock]

/-- The slots after a move. -/
def movedUp (slots : Memory β) (i n : ℕ) : Memory β :=
  fun j => if i ≤ j ∧ j < i + n then slots (j + 1) else slots j

theorem moveUp_transfers {n : ℕ} (hsound : arr.Sound good) (hroom : i + n < arr.capacity)
    (hblock : ∀ b ∈ arr.block, b ∈ m ∨ b ∈ others) :
    Transfers others m (arr.moveUp i n) (fun _ => m)
      fun r => r = { arr with slots := movedUp arr.slots i n } := by
  have hmoves : ∀ (n i : ℕ) (slots : Memory β), i + n < arr.capacity →
      Transfers others m (moveUp { arr with slots := slots } i n) (fun _ => m)
        fun r => r = { arr with slots := movedUp slots i n } := by
    intro n
    induction n with
    | zero =>
      intro i slots _
      refine .ret rfl ?_
      congr
      funext j
      rw [movedUp, if_neg (by omega)]
    | succ n ih =>
      intro i slots hroom
      have hany (slots : Memory β) : Sound { arr with slots := slots } fun _ => True :=
        ⟨hsound.within, hsound.present, fun _ _ => trivial⟩
      have hmove : Transfers others m
          (get { arr with slots := slots } (i + 1) >>= put { arr with slots := slots } i)
          (fun _ => m) fun r => r = withSlot { arr with slots := slots } i (slots (i + 1)) := by
        refine .bind (get_transfers (hany slots) (by dsimp only; omega) hblock) ?_
        rintro x rfl
        exact put_transfers (hany slots) (by dsimp only; omega) hblock
      rw [moveUp, List.range'_succ, List.foldlM_cons]
      refine .bind hmove ?_
      rintro _ rfl
      have hslots : movedUp (Function.update slots i (slots (i + 1))) (i + 1) n =
          movedUp slots i (n + 1) := by
        funext j
        by_cases hj : j = i
        · simp [movedUp, hj]
        · have hcut : i + 1 ≤ j ∧ j < i + 1 + n ↔ i ≤ j ∧ j < i + (n + 1) := by omega
          rw [movedUp, movedUp, if_congr hcut rfl rfl]
          split_ifs
          · exact Function.update_of_ne (by omega) ..
          · exact Function.update_of_ne hj ..
      exact (ih (i + 1) _ (by omega)).conseq rfl fun r hr => ⟨rfl, hslots ▸ hr⟩
  exact hmoves n i arr.slots hroom

/-- The array without one of its entries, those behind it moved up. -/
def without (arr : BlockArray β) (i : ℕ) : BlockArray β :=
  { arr with slots := movedUp arr.slots i (arr.count - 1 - i), count := arr.count - 1 }

theorem Sound.without (hsound : arr.Sound good) (hi : i < arr.count) :
    (arr.without i).Sound good where
  within := (Nat.sub_le _ 1).trans hsound.within
  present := hsound.present
  entries j hj := by
    have hlt : j < arr.count - 1 := hj
    rw [BlockArray.without]
    simp only [movedUp]
    split_ifs
    · exact hsound.entries (j + 1) (by omega)
    · exact hsound.entries j (by omega)

/-- The entry that is taken out, apart from those that stay. -/
theorem blocks_without (hi : i < arr.count) :
    arr.blocks own = own (arr.slots i) + (arr.without i).blocks own := by
  obtain ⟨n, hn⟩ : ∃ n, arr.count = n + 1 := ⟨arr.count - 1, by omega⟩
  have hsum : arr.entryBlocks own = own (arr.slots i) + (arr.without i).entryBlocks own := by
    have hcut : (arr.without i).count = n := by simp [BlockArray.without, hn]
    rw [entryBlocks, entryBlocks, hcut, hn, Finset.sum_range, Finset.sum_range,
      Fin.sum_univ_succAbove _ ⟨i, hn ▸ hi⟩]
    refine congrArg (own (arr.slots i) + ·) (Finset.sum_congr rfl fun j _ => congrArg own ?_)
    have hj := j.isLt
    simp only [BlockArray.without, movedUp, hn, Nat.add_sub_cancel]
    by_cases hlt : (j : ℕ) < i
    · rw [Fin.succAbove_of_castSucc_lt _ _ (by simpa [Fin.lt_def] using hlt), if_neg (by omega)]
      rfl
    · rw [Fin.succAbove_of_le_castSucc _ _ (by simpa [Fin.le_def] using hlt),
        if_pos (by omega)]
      rfl
  rw [blocks, hsum, blocks]
  change _ = own (arr.slots i) + (pointed arr.block + _)
  abel

theorem clear_transfers {drop : β → HeapM Unit} (hsound : arr.Sound good)
    (hdrop : ∀ x, good x → ∀ others,
      Transfers others (own x) (drop x) (fun _ => 0) fun _ => True) :
    Transfers others (arr.blocks own) (arr.clear drop) (fun _ => 0)
      fun r => r = { arr with block := none, count := 0, capacity := 0 } := by
  rw [clear]
  cases hblock : arr.block with
  | none =>
    have hcount : arr.count = 0 :=
      Nat.le_zero.mp (hsound.present hblock ▸ hsound.within)
    refine .ret ?_ rfl
    rw [blocks, entryBlocks, hblock, hcount]
    rfl
  | some b =>
    have hentry : ∀ i ∈ List.range arr.count, ∀ others,
        Transfers others (own (arr.slots i) + {b}) (arr.get i >>= drop) (fun _ => {b})
          fun _ => True := by
      intro i hi others
      have hlt := List.mem_range.mp hi
      refine .bind (get_transfers hsound (hlt.trans_le hsound.within) ?_) ?_
      · rintro c hc
        obtain rfl : b = c := Option.some.inj (hblock.symm.trans hc)
        exact .inl (Multiset.mem_add.mpr (.inr (Multiset.mem_singleton_self b)))
      · rintro x rfl
        exact (Transfers.frame (hdrop _ (hsound.entries i hlt) _)).conseq rfl
          fun _ h => ⟨(zero_add _).symm, h⟩
    have hsum : arr.blocks own =
        ((List.range arr.count).map fun i => own (arr.slots i)).sum + {b} := by
      rw [blocks, hblock, add_comm]
      rfl
    refine .bind ((Transfers.forM hentry).of_eq hsum) fun _ _ => ?_
    exact .bind (.release (m := 0)) fun _ _ => .ret rfl rfl

end Specs

/-! What a program has done that came to an end. -/

section Results

variable {arr r : BlockArray β} {i : ℕ} {x : β} {a a' : Allocator}

theorem get_eq_some (h : arr.get i a = some (x, a')) : x = arr.slots i := by
  obtain ⟨_, _, -, h⟩ := HeapM.bind_eq_some.mp h
  exact (HeapM.pure_eq_some.mp h).1.symm

theorem put_eq_some (h : arr.put i x a = some (r, a')) : r = arr.withSlot i x := by
  obtain ⟨_, _, -, h⟩ := HeapM.bind_eq_some.mp h
  exact (HeapM.pure_eq_some.mp h).1.symm

theorem modify_eq_some {f : β → β} (h : arr.modify i f a = some (r, a')) :
    r = arr.withSlot i (f (arr.slots i)) := by
  obtain ⟨x, _, hget, h⟩ := HeapM.bind_eq_some.mp h
  rw [← get_eq_some hget]
  exact put_eq_some h

theorem grow_eq_some {first : ℕ} {r : Option (BlockArray β)}
    (h : arr.grow first a = some (r, a')) :
    (r = none ∧ arr.count ≥ arr.capacity) ∨
      ∃ grown, r = some grown ∧ grown.slots = arr.slots ∧ grown.count = arr.count ∧
        grown.capacity = if arr.count ≥ arr.capacity then
          if arr.capacity = 0 then first else arr.capacity * 2 else arr.capacity := by
  rw [grow] at h
  by_cases hfull : arr.count ≥ arr.capacity
  · rw [if_pos hfull] at h
    obtain ⟨x, _, -, h⟩ := HeapM.bind_eq_some.mp h
    cases x with
    | none => exact .inl ⟨(HeapM.pure_eq_some.mp h).1.symm, hfull⟩
    | some b =>
      refine .inr ⟨_, (HeapM.pure_eq_some.mp h).1.symm, rfl, rfl, ?_⟩
      rw [if_pos hfull]
  · rw [if_neg hfull] at h
    refine .inr ⟨arr, (HeapM.pure_eq_some.mp h).1.symm, rfl, rfl, ?_⟩
    rw [if_neg hfull]

theorem moveUp_eq_some {n : ℕ} (h : arr.moveUp i n a = some (r, a')) :
    r = { arr with slots := movedUp arr.slots i n } := by
  induction n generalizing r a' with
  | zero =>
    obtain ⟨rfl, -⟩ := HeapM.pure_eq_some.mp h
    have hslots : movedUp arr.slots i 0 = arr.slots := by
      funext j
      rw [movedUp, if_neg (by omega)]
    rw [hslots]
  | succ n ih =>
    rw [moveUp, List.range'_concat, List.foldlM_append, one_mul] at h
    obtain ⟨moved, _, hmoved, h⟩ := HeapM.bind_eq_some.mp h
    obtain rfl := ih hmoved
    obtain ⟨last, _, hlast, h⟩ := HeapM.bind_eq_some.mp h
    obtain ⟨rfl, -⟩ := HeapM.pure_eq_some.mp h
    obtain ⟨x, _, hget, hput⟩ := HeapM.bind_eq_some.mp hlast
    obtain rfl := get_eq_some hget
    obtain rfl := put_eq_some hput
    refine congrArg (fun slots => ({ arr with slots := slots } : BlockArray β)) (funext fun j => ?_)
    by_cases hj : j = i + n
    · subst hj
      rw [Function.update_self]
      simp [movedUp]
    · rw [Function.update_of_ne hj]
      exact if_congr (by omega) rfl rfl

end Results
end BlockArray
end AbstractHttp.Library
