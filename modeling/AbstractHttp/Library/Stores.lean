import AbstractHttp.Library.Memory

/-!
# Stores one behind the other

A writer that moves a cursor through a block stores each field where the last one
ended.  Such stores leave no gap, and none of them reaches beyond the last end.
-/
namespace AbstractHttp.Library

/-- Stores into a block of `capacity` cells, the first at the one offset, each of the others where
the one before ended, and the last one up to the other offset. -/
inductive Consecutive (capacity : ℕ) : ℕ → List Extent → ℕ → Prop
  | nil (start : ℕ) : Consecutive capacity start [] start
  | cons {start len stop : ℕ} {stores : List Extent}
      (rest : Consecutive capacity (start + len) stores stop) :
      Consecutive capacity start (⟨start, len, capacity⟩ :: stores) stop

namespace Consecutive

variable {capacity start middle stop : ℕ} {stores stores' : List Extent}

theorem single (capacity start len : ℕ) :
    Consecutive capacity start [⟨start, len, capacity⟩] (start + len) :=
  cons (nil _)

theorem append (h : Consecutive capacity start stores middle)
    (h' : Consecutive capacity middle stores' stop) :
    Consecutive capacity start (stores ++ stores') stop := by
  induction h with
  | nil => exact h'
  | cons _ ih => exact cons (ih h')

theorem le (h : Consecutive capacity start stores stop) : start ≤ stop := by
  induction h with
  | nil => exact le_rfl
  | cons _ ih => omega

/-- Every store lies between the two offsets. -/
theorem between (h : Consecutive capacity start stores stop) {e : Extent} (he : e ∈ stores) :
    start ≤ e.start ∧ e.start + e.len ≤ stop ∧ e.capacity = capacity := by
  induction h with
  | nil => cases he
  | cons rest ih =>
    rcases List.mem_cons.mp he with rfl | he
    · exact ⟨le_rfl, rest.le, rfl⟩
    · obtain ⟨hstart, hstop, hcapacity⟩ := ih he
      exact ⟨by omega, hstop, hcapacity⟩

/-- Stores that end within the block are in bounds. -/
theorem inBounds (h : Consecutive capacity start stores stop) (hstop : stop ≤ capacity)
    {e : Extent} (he : e ∈ stores) : e.InBounds := by
  obtain ⟨-, hend, hcapacity⟩ := h.between he
  rw [Extent.inBounds_iff]
  omega

/-- Exactly the cells between the two offsets are stored. -/
theorem stored_iff (h : Consecutive capacity start stores stop) (i : ℕ) :
    (∃ e ∈ stores, e.start ≤ i ∧ i < e.start + e.len) ↔ start ≤ i ∧ i < stop := by
  constructor
  · rintro ⟨e, he, hlo, hhi⟩
    obtain ⟨hstart, hstop, -⟩ := h.between he
    omega
  · intro hi
    induction h with
    | nil => omega
    | @cons start len stop stores rest ih =>
      by_cases hlast : i < start + len
      · exact ⟨_, List.mem_cons_self, hi.1, hlast⟩
      · obtain ⟨e, he, hstored⟩ := ih ⟨by omega, hi.2⟩
        exact ⟨e, List.mem_cons_of_mem _ he, hstored⟩

end Consecutive

end AbstractHttp.Library
