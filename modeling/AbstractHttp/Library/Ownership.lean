import AbstractHttp.Library.Ledger
import Mathlib.Algebra.Order.Group.Multiset
import Mathlib.Data.Multiset.AddSub

/-!
# Programs that own blocks of a heap

A program asks an allocator for blocks, uses them and gives them back. Use of a block that is not
held, and a second release, have no result. What a program owes is said by a transfer: whoever owns
these blocks may run it and owns those afterwards, and nobody else notices. Transfers compose.
-/
namespace AbstractHttp.Library

/-- The allocator: which requests it grants, how many there were, and what it gave out. A block is
named by the number of the request that it answers. -/
structure Allocator where
  grants : ℕ → Bool
  asked : ℕ
  ledger : Ledger ℕ
  below : ∀ b ∈ ledger.created, b < asked

def Allocator.start (grants : ℕ → Bool) : Allocator :=
  ⟨grants, 0, .empty, fun _ h => absurd h List.not_mem_nil⟩

/-- A program on the heap, with no result where it misuses a block. -/
abbrev HeapM := StateT Allocator Option

namespace HeapM

/-- `malloc`, with `none` for NULL. -/
def malloc : HeapM (Option ℕ) := fun a =>
  if a.grants a.asked then
    some (some a.asked,
      { a with
        asked := a.asked + 1
        ledger := a.ledger.create a.asked
        below := by
          intro b hb
          rcases List.mem_append.mp hb with hold | hnew
          · exact (a.below b hold).trans a.asked.lt_succ_self
          · exact List.mem_singleton.mp hnew ▸ a.asked.lt_succ_self })
  else
    some (none,
      { a with
        asked := a.asked + 1
        below := fun b hb => (a.below b hb).trans a.asked.lt_succ_self })

/-- Reading or writing a block. -/
def use (b : ℕ) : HeapM Unit := fun a =>
  if b ∈ a.ledger.created ∧ b ∉ a.ledger.released then some ((), a) else none

/-- `free` of a block. -/
def release (b : ℕ) : HeapM Unit := fun a =>
  match h : a.ledger.release b with
  | some ledger =>
    some ((), { a with ledger := ledger, below := (Ledger.release_eq_some h).1 ▸ a.below })
  | none => none

/-- `free`, which ignores NULL. -/
def free : Option ℕ → HeapM Unit
  | some b => release b
  | none => pure ()

/-- `realloc`: where it succeeds, the old block is gone. -/
def realloc (old : Option ℕ) : HeapM (Option ℕ) := do
  match ← malloc with
  | none => pure none
  | some b =>
    free old
    pure (some b)

section Results

variable {α β : Type} {p : HeapM α} {k : α → HeapM β} {a a' : Allocator} {r : β}

theorem bind_eq_some :
    (p >>= k) a = some (r, a') ↔ ∃ x a₁, p a = some (x, a₁) ∧ k x a₁ = some (r, a') := by
  change (p a).bind (fun x => k x.1 x.2) = some (r, a') ↔ _
  rw [Option.bind_eq_some_iff]
  exact ⟨fun ⟨x, h, h'⟩ => ⟨x.1, x.2, h, h'⟩, fun ⟨x, a₁, h, h'⟩ => ⟨(x, a₁), h, h'⟩⟩

theorem pure_eq_some {x : β} : (pure x : HeapM β) a = some (r, a') ↔ x = r ∧ a = a' := by
  change some (x, a) = some (r, a') ↔ _
  rw [Option.some_inj, Prod.mk.injEq]

end Results
end HeapM

open HeapM

/-- The block that a pointer leads to, none for NULL. -/
def pointed (p : Option ℕ) : Multiset ℕ := p.elim 0 fun b => {b}

@[simp] theorem pointed_none : pointed none = 0 := rfl

@[simp] theorem pointed_some (b : ℕ) : pointed (some b) = {b} := rfl

/-- The blocks are different ones, and with those of the others all that is held. -/
structure Owns (m : Multiset ℕ) (others : Set ℕ) (a : Allocator) : Prop where
  nodup : m.Nodup
  apart : ∀ b ∈ m, b ∉ others
  held : a.ledger.held = {b | b ∈ m} ∪ others

/-- Whoever owns the blocks `m` may run the program: it has a result, of which `Q` is true and with
which the blocks `owned` of that result are owned. Those of the others stay theirs. -/
def Transfers {α : Type} (others : Set ℕ) (m : Multiset ℕ) (p : HeapM α) (owned : α → Multiset ℕ)
    (Q : α → Prop) : Prop :=
  ∀ a, Owns m others a → ∃ r a', p a = some (r, a') ∧ Owns (owned r) others a' ∧ Q r

section Owns

variable {m l : Multiset ℕ} {others : Set ℕ} {a : Allocator} {b : ℕ}

namespace Owns

theorem mem_held (h : Owns m others a) (hb : b ∈ m ∨ b ∈ others) : b ∈ a.ledger.held := by
  rw [h.held]
  exact hb

theorem frame_iff : Owns (m + l) others a ↔
    Owns m (others ∪ {b | b ∈ l}) a ∧ l.Nodup ∧ ∀ b ∈ l, b ∉ others := by
  have hset : {b | b ∈ m + l} ∪ others = {b | b ∈ m} ∪ (others ∪ {b | b ∈ l}) := by
    ext b
    simp only [Multiset.mem_add, Set.mem_union, Set.mem_ofPred_eq]
    tauto
  constructor
  · rintro ⟨hnodup, hapart, hheld⟩
    obtain ⟨hm, hcs, hdisjoint⟩ := Multiset.nodup_add.mp hnodup
    refine ⟨⟨hm, ?_, hheld.trans hset⟩, hcs, fun b hb => hapart b (Multiset.mem_add.mpr (.inr hb))⟩
    rintro b hb (hothers | hother)
    · exact hapart b (Multiset.mem_add.mpr (.inl hb)) hothers
    · exact Multiset.disjoint_left.mp hdisjoint hb hother
  · rintro ⟨⟨hm, hapart, hheld⟩, hcs, hothers⟩
    refine ⟨Multiset.nodup_add.mpr ⟨hm, hcs, ?_⟩, ?_, hheld.trans hset.symm⟩
    · exact Multiset.disjoint_left.mpr fun hb hc => hapart _ hb (.inr hc)
    · intro b hb
      rcases Multiset.mem_add.mp hb with hb | hb
      · exact fun h => hapart b hb (.inl h)
      · exact hothers b hb

end Owns
end Owns

namespace Transfers

variable {α β : Type} {others : Set ℕ} {m l : Multiset ℕ} {b : ℕ}
  {p : HeapM α} {k : α → HeapM β} {owned owned₁ : α → Multiset ℕ} {owned' : β → Multiset ℕ}
  {Q Q₁ : α → Prop} {Q' : β → Prop} {r : α}

theorem ret (hblocks : owned r = m) (hQ : Q r) : Transfers others m (pure r) owned Q := by
  intro a h
  exact ⟨r, a, rfl, hblocks ▸ h, hQ⟩

theorem bind (hp : Transfers others m p owned Q)
    (hk : ∀ r, Q r → Transfers others (owned r) (k r) owned' Q') :
    Transfers others m (p >>= k) owned' Q' := by
  intro a h
  obtain ⟨r, a₁, hrun, hmid, hr⟩ := hp a h
  obtain ⟨r', a', hrun', hend, hr'⟩ := hk r hr a₁ hmid
  refine ⟨r', a', ?_, hend, hr'⟩
  change (p a).bind (fun x => k x.1 x.2) = _
  rw [hrun]
  exact hrun'

/-- What the caller owns besides is left alone. -/
theorem frame (hp : Transfers (others ∪ {b | b ∈ l}) m p owned Q) :
    Transfers others (m + l) p (fun r => owned r + l) Q := by
  intro a h
  obtain ⟨hm, hcs, hothers⟩ := Owns.frame_iff.mp h
  obtain ⟨r, a', hrun, hend, hr⟩ := hp a hm
  exact ⟨r, a', hrun, Owns.frame_iff.mpr ⟨hend, hcs, hothers⟩, hr⟩

theorem conseq (hp : Transfers others l p owned Q) (hblocks : m = l)
    (hafter : ∀ r, Q r → owned₁ r = owned r ∧ Q₁ r) : Transfers others m p owned₁ Q₁ := by
  intro a h
  obtain ⟨r, a', hrun, hend, hr⟩ := hp a (hblocks ▸ h)
  obtain ⟨howned, hr'⟩ := hafter r hr
  exact ⟨r, a', hrun, howned ▸ hend, hr'⟩

theorem of_eq (hp : Transfers others l p owned Q) (hblocks : m = l) :
    Transfers others m p owned Q := hblocks ▸ hp

theorem malloc : Transfers others m HeapM.malloc (fun r => pointed r + m) fun _ => True := by
  intro a h
  rw [HeapM.malloc]
  split
  · refine ⟨_, _, rfl, ?_, trivial⟩
    have hnew : a.asked ∉ a.ledger.created := fun hb => (a.below _ hb).false
    have hheld : a.asked ∉ a.ledger.held := fun hb => hnew hb.1
    rw [h.held] at hheld
    obtain ⟨hm, hothers⟩ := not_or.mp hheld
    refine ⟨Multiset.nodup_cons.mpr ⟨hm, h.nodup⟩, ?_, ?_⟩
    · intro b hb
      rcases Multiset.mem_cons.mp hb with rfl | hb
      · exact hothers
      · exact h.apart b hb
    · rw [Ledger.held_create hnew, h.held]
      ext b
      simp [or_assoc]
  · refine ⟨none, _, rfl, (?_ : Owns (pointed none + m) others _), trivial⟩
    rw [pointed_none, zero_add]
    exact ⟨h.nodup, h.apart, h.held⟩

theorem use (hb : b ∈ m ∨ b ∈ others) :
    Transfers others m (HeapM.use b) (fun _ => m) fun _ => True := by
  intro a h
  have hheld : b ∈ a.ledger.created ∧ b ∉ a.ledger.released := h.mem_held hb
  exact ⟨(), a, if_pos hheld, h, trivial⟩

theorem release : Transfers others ({b} + m) (HeapM.release b) (fun _ => m) fun _ => True := by
  intro a h
  have hmem : b ∈ {b} + m := Multiset.mem_cons_self b m
  obtain ⟨next, hnext, -, hheld⟩ := Ledger.release_of_held (h.mem_held (.inl hmem))
  have hnodup := Multiset.nodup_cons.mp h.nodup
  refine ⟨(), { a with ledger := next, below := (Ledger.release_eq_some hnext).1 ▸ a.below }, ?_,
    ⟨hnodup.2, fun c hc => h.apart c (Multiset.mem_cons_of_mem hc), ?_⟩, trivial⟩
  · rw [HeapM.release]
    split
    next ledger hledger =>
      obtain rfl : ledger = next := Option.some.inj (hledger.symm.trans hnext)
      rfl
    next hnone => rw [hnone] at hnext; cases hnext
  · rw [hheld, h.held]
    ext c
    simp only [Multiset.mem_add, Multiset.mem_singleton, Set.mem_sdiff, Set.mem_union,
      Set.mem_ofPred_eq, Set.mem_singleton_iff]
    constructor
    · rintro ⟨(rfl | hc) | hc, hne⟩
      · exact absurd rfl hne
      · exact .inl hc
      · exact .inr hc
    · rintro (hc | hc)
      · exact ⟨.inl (.inr hc), fun heq => hnodup.1 (heq ▸ hc)⟩
      · exact ⟨.inr hc, fun heq => h.apart b hmem (heq ▸ hc)⟩

theorem free {p : Option ℕ} :
    Transfers others (pointed p + m) (HeapM.free p) (fun _ => m) fun _ => True := by
  cases p with
  | none => exact ret (zero_add m).symm trivial
  | some b => exact release

theorem realloc {old : Option ℕ} : Transfers others (pointed old + m) (HeapM.realloc old)
    (fun r => (if r.isSome then pointed r else pointed old) + m) fun _ => True := by
  refine bind malloc ?_
  rintro (_ | b) -
  · exact ret (zero_add _).symm trivial
  · refine bind ((free (m := {b} + m)).of_eq (add_left_comm _ _ _)) ?_
    exact fun _ _ => ret rfl trivial

/-- A loop that gives up what belongs to each of its items, and keeps the rest. -/
theorem forM {xs : List α} {f : α → HeapM PUnit} {own : α → Multiset ℕ} {keep : Multiset ℕ}
    (h : ∀ x ∈ xs, ∀ others,
      Transfers others (own x + keep) (f x) (fun _ => keep) fun _ => True) :
    Transfers others ((xs.map own).sum + keep) (xs.forM f) (fun _ => keep) fun _ => True := by
  induction xs with
  | nil => exact ret (zero_add keep).symm trivial
  | cons x xs ih =>
    change Transfers others _ (f x >>= fun _ => xs.forM f) _ _
    refine bind ((frame (l := (xs.map own).sum) (h x List.mem_cons_self _)).of_eq ?_) fun _ _ => ?_
    · rw [List.map_cons, List.sum_cons]
      abel
    · exact (ih fun y hy => h y (List.mem_cons_of_mem x hy)).of_eq (add_comm _ _)

/-- A loop that only looks at things. -/
theorem mapM {xs : List α} {f : α → HeapM β}
    (h : ∀ x ∈ xs, Transfers others m (f x) (fun _ => m) fun _ => True) :
    Transfers others m (xs.mapM f) (fun _ => m) fun _ => True := by
  induction xs with
  | nil => exact ret rfl trivial
  | cons x xs ih =>
    rw [List.mapM_cons]
    refine bind (h x List.mem_cons_self) fun _ _ => ?_
    exact bind (ih fun y hy => h y (List.mem_cons_of_mem x hy)) fun _ _ => ret rfl trivial

end Transfers

/-- Where only the others hold anything, every block that is not theirs has been given back once. -/
theorem Owns.released_once {others : Set ℕ} {a : Allocator} (h : Owns 0 others a) {b : ℕ}
    (hb : b ∈ a.ledger.created) (hother : b ∉ others) : a.ledger.released.count b = 1 := by
  refine List.count_eq_one_of_mem a.ledger.nodup ?_
  by_contra hkept
  have hheld : b ∈ a.ledger.held := ⟨hb, hkept⟩
  rw [h.held] at hheld
  simp [hother] at hheld

end AbstractHttp.Library
