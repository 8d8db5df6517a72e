import Mathlib.Data.Set.Insert
import Mathlib.Tactic

/-!
# What a program creates and releases

A ledger keeps what was created and what of it was released, each in order. What is not held cannot
be released, so nothing is released twice; whoever brings the ledger to hold nothing has released
everything once.
-/
namespace AbstractHttp.Library

variable {β : Type*}

structure Ledger (β : Type*) where
  created : List β
  released : List β
  nodup : released.Nodup
  subset : released ⊆ created

namespace Ledger

def empty : Ledger β := ⟨[], [], List.nodup_nil, List.nil_subset _⟩

def create (l : Ledger β) (b : β) : Ledger β :=
  { l with
    created := l.created ++ [b]
    subset := fun _ hc => List.mem_append_left _ (l.subset hc) }

/-- What is created and not yet released. -/
def held (l : Ledger β) : Set β := {b | b ∈ l.created ∧ b ∉ l.released}

theorem held_create {l : Ledger β} {b : β} (h : b ∉ l.created) :
    (l.create b).held = insert b l.held := by
  ext c
  have hreleased : b ∉ l.released := fun hb => h (l.subset hb)
  simp only [held, create, List.mem_append, List.mem_singleton, Set.mem_ofPred_eq,
    Set.mem_insert_iff]
  constructor
  · rintro ⟨hc | rfl, hkept⟩
    · exact .inr ⟨hc, hkept⟩
    · exact .inl rfl
  · rintro (rfl | ⟨hc, hkept⟩)
    · exact ⟨.inr rfl, hreleased⟩
    · exact ⟨.inl hc, hkept⟩

variable [DecidableEq β]

/-- A release of what is not held is an error of the program. -/
def release (l : Ledger β) (b : β) : Option (Ledger β) :=
  if h : b ∈ l.created ∧ b ∉ l.released then
    some
      { created := l.created
        released := l.released ++ [b]
        nodup := l.nodup.append (List.nodup_singleton b) (by simpa using h.2)
        subset := List.append_subset.mpr ⟨l.subset, by simpa using h.1⟩ }
  else none

def releaseAll (l : Ledger β) (bs : List β) : Option (Ledger β) := bs.foldlM release l

variable {l next : Ledger β} {b : β} {bs : List β}

theorem release_of_held (h : b ∈ l.held) :
    ∃ next, l.release b = some next ∧ next.created = l.created ∧ next.held = l.held \ {b} := by
  refine ⟨_, dif_pos h, rfl, ?_⟩
  ext c
  simp only [held, List.mem_append, List.mem_singleton, Set.mem_ofPred_eq, Set.mem_sdiff,
    Set.mem_singleton_iff, not_or, and_assoc]

/-- Different things that are held can be released one after the other. -/
theorem releaseAll_of_held (hnodup : bs.Nodup) (h : ∀ b ∈ bs, b ∈ l.held) :
    ∃ next, l.releaseAll bs = some next ∧ next.created = l.created ∧
      next.held = l.held \ {b | b ∈ bs} := by
  induction bs generalizing l with
  | nil => exact ⟨l, rfl, rfl, by simp⟩
  | cons b bs ih =>
    obtain ⟨hb, hbs⟩ := List.nodup_cons.mp hnodup
    obtain ⟨mid, hmid, hcreated, hheld⟩ := release_of_held (h b List.mem_cons_self)
    have hrest : ∀ c ∈ bs, c ∈ mid.held := by
      intro c hc
      rw [hheld]
      exact ⟨h c (List.mem_cons_of_mem _ hc), fun heq => hb (heq ▸ hc)⟩
    obtain ⟨next, hnext, hcreated', hheld'⟩ := ih hbs hrest
    refine ⟨next, ?_, hcreated'.trans hcreated, ?_⟩
    · rw [releaseAll, List.foldlM_cons, hmid]
      exact hnext
    · rw [hheld', hheld]
      ext c
      simp only [Set.mem_sdiff, Set.mem_singleton_iff, Set.mem_ofPred_eq, List.mem_cons, not_or,
        and_assoc]

theorem release_eq_some (h : l.release b = some next) :
    next.created = l.created ∧ next.released = l.released ++ [b] := by
  rw [release] at h
  split at h
  · obtain rfl := Option.some.inj h
    exact ⟨rfl, rfl⟩
  · cases h

theorem releaseAll_eq_some (h : l.releaseAll bs = some next) :
    next.created = l.created ∧ next.released = l.released ++ bs := by
  induction bs generalizing l with
  | nil =>
    obtain rfl := Option.some.inj h
    exact ⟨rfl, (List.append_nil _).symm⟩
  | cons b bs ih =>
    rw [releaseAll, List.foldlM_cons, Option.bind_eq_bind, Option.bind_eq_some_iff] at h
    obtain ⟨mid, hmid, hrest⟩ := h
    obtain ⟨hcreated, hreleased⟩ := release_eq_some hmid
    obtain ⟨hcreated', hreleased'⟩ := ih hrest
    exact ⟨hcreated'.trans hcreated, by rw [hreleased', hreleased, List.append_assoc]; rfl⟩

/-- With nothing held, everything that was created has been released exactly once. -/
theorem count_released (h : l.held = ∅) (hb : b ∈ l.created) : l.released.count b = 1 := by
  refine List.count_eq_one_of_mem l.nodup ?_
  by_contra hkept
  have hheld : b ∈ l.held := ⟨hb, hkept⟩
  rw [h] at hheld
  exact hheld

end Ledger
end AbstractHttp.Library
