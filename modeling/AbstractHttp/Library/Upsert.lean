import Mathlib.Data.List.Basic
import Mathlib.Tactic

/-!
# Association lists that keep the order of their keys

`upsert` overwrites the value of a key that the list has and appends any other.
Of a sequence of such updates, the value of a key that is set again later does
not matter.
-/
namespace AbstractHttp.Library

variable {κ ν : Type*} [DecidableEq κ] {k m : κ} {v w : ν} {l l₁ l₂ : List (κ × ν)}
  {calls : List (κ × ν)}

/-- Set the value of a key, at the first place where the list has it or else at its end. -/
def upsert (k : κ) (v : ν) : List (κ × ν) → List (κ × ν)
  | [] => [(k, v)]
  | (k', v') :: l => if k' = k then (k, v) :: l else (k', v') :: upsert k v l

/-- A sequence of updates. -/
def upsertAll (l calls : List (κ × ν)) : List (κ × ν) :=
  calls.foldl (fun l call => upsert call.1 call.2 l) l

theorem upsert_of_notMem (h : k ∉ l.map Prod.fst) (v : ν) : upsert k v l = l ++ [(k, v)] := by
  induction l with
  | nil => rfl
  | cons entry l ih =>
    rw [List.map_cons, List.mem_cons, not_or] at h
    rw [upsert, if_neg fun heq => h.1 heq.symm, ih h.2]
    rfl

theorem keys_upsert (k : κ) (v : ν) (l : List (κ × ν)) :
    (upsert k v l).map Prod.fst =
      if k ∈ l.map Prod.fst then l.map Prod.fst else l.map Prod.fst ++ [k] := by
  induction l with
  | nil => rfl
  | cons entry l ih =>
    obtain ⟨k', v'⟩ := entry
    by_cases hk : k' = k
    · simp [upsert, hk]
    · have hne : ¬ k = k' := fun heq => hk heq.symm
      rw [upsert, if_neg hk, List.map_cons, ih]
      by_cases hmem : k ∈ l.map Prod.fst
      · rw [if_pos hmem, List.map_cons, if_pos (List.mem_cons_of_mem _ hmem)]
      · rw [if_neg hmem, List.map_cons, if_neg (by simpa [hne] using hmem)]
        rfl

theorem mem_keys_upsert (k m : κ) (v : ν) (l : List (κ × ν)) :
    m ∈ (upsert k v l).map Prod.fst ↔ m = k ∨ m ∈ l.map Prod.fst := by
  rw [keys_upsert]
  split_ifs with hk
  · exact ⟨Or.inr, fun h => h.elim (fun heq => heq ▸ hk) id⟩
  · rw [List.mem_append, List.mem_singleton]
    exact or_comm

/-- The second of two updates of a key replaces the first. -/
theorem upsert_upsert (k : κ) (v w : ν) (l : List (κ × ν)) :
    upsert k w (upsert k v l) = upsert k w l := by
  induction l with
  | nil => simp [upsert]
  | cons entry l ih =>
    obtain ⟨k', v'⟩ := entry
    by_cases hk : k' = k
    · simp [upsert, hk]
    · simp [upsert, hk, ih]

/-- A key that the list has is updated in its place, whatever other key is updated before. -/
theorem upsert_comm (hne : m ≠ k) (h : k ∈ l.map Prod.fst) (v w : ν) :
    upsert k v (upsert m w l) = upsert m w (upsert k v l) := by
  induction l with
  | nil => simp at h
  | cons entry l ih =>
    obtain ⟨k', v'⟩ := entry
    by_cases hk : k' = k
    · have hkm : ¬ k = m := fun heq => hne heq.symm
      simp [upsert, hk, hkm]
    · have hrest : k ∈ l.map Prod.fst := (List.mem_cons.mp h).resolve_left fun heq => hk heq.symm
      by_cases hm : k' = m
      · simp [upsert, hm, hne]
      · simp [upsert, hk, hm, ih hrest]

theorem lookup_upsert_self (k : κ) (v : ν) (l : List (κ × ν)) :
    (upsert k v l).lookup k = some v := by
  induction l with
  | nil => simp [upsert]
  | cons entry l ih =>
    obtain ⟨k', v'⟩ := entry
    rw [upsert]
    split_ifs with hk
    · simp
    · have hne : (k == k') = false := beq_eq_false_iff_ne.mpr (Ne.symm hk)
      rw [List.lookup_cons, hne, ih]

theorem lookup_upsert_of_ne (hne : m ≠ k) (v : ν) (l : List (κ × ν)) :
    (upsert k v l).lookup m = l.lookup m := by
  have hmk : (m == k) = false := by simpa using hne
  induction l with
  | nil => simp [upsert, List.lookup_cons, hmk]
  | cons entry l ih =>
    obtain ⟨k', v'⟩ := entry
    rw [upsert]
    split_ifs with hk
    · rw [List.lookup_cons, List.lookup_cons, hk, hmk]
    · rw [List.lookup_cons, List.lookup_cons, ih]

theorem lookup_upsertAll_of_notMem (h : k ∉ calls.map Prod.fst) (l : List (κ × ν)) :
    (upsertAll l calls).lookup k = l.lookup k := by
  induction calls generalizing l with
  | nil => rfl
  | cons call calls ih =>
    rw [List.map_cons, List.mem_cons, not_or] at h
    rw [upsertAll, List.foldl_cons, ← upsertAll, ih h.2, lookup_upsert_of_ne h.1]

/-- The last update of a key gives its value. -/
theorem lookup_upsertAll_last {rest : List (κ × ν)} (h : k ∉ rest.map Prod.fst)
    (l front : List (κ × ν)) (v : ν) :
    (upsertAll l (front ++ (k, v) :: rest)).lookup k = some v := by
  rw [upsertAll, List.foldl_append, List.foldl_cons, ← upsertAll, ← upsertAll,
    lookup_upsertAll_of_notMem h, lookup_upsert_self]

/-- Lists that only differ in the value of a key are equal once it is updated. -/
theorem upsertAll_congr (hsame : ∀ x, upsert k x l₁ = upsert k x l₂)
    (h₁ : k ∈ l₁.map Prod.fst) (h₂ : k ∈ l₂.map Prod.fst) (h : k ∈ calls.map Prod.fst) :
    upsertAll l₁ calls = upsertAll l₂ calls := by
  induction calls generalizing l₁ l₂ with
  | nil => simp at h
  | cons call calls ih =>
    obtain ⟨m, w⟩ := call
    simp only [upsertAll, List.foldl_cons] at ih ⊢
    by_cases hm : m = k
    · rw [hm, hsame]
    · have hrest : k ∈ calls.map Prod.fst :=
        (List.mem_cons.mp h).resolve_left fun heq => hm heq.symm
      refine ih (fun x => ?_) ?_ ?_ hrest
      · rw [upsert_comm hm h₁, upsert_comm hm h₂, hsame]
      · exact (mem_keys_upsert m k w l₁).mpr (Or.inr h₁)
      · exact (mem_keys_upsert m k w l₂).mpr (Or.inr h₂)

/-- The value of a key that is set again later does not matter. -/
theorem upsertAll_upsert_congr (h : k ∈ calls.map Prod.fst) (v w : ν) (l : List (κ × ν)) :
    upsertAll (upsert k v l) calls = upsertAll (upsert k w l) calls := by
  have hmem (x : ν) : k ∈ (upsert k x l).map Prod.fst :=
    (mem_keys_upsert k k x l).mpr (Or.inl rfl)
  exact upsertAll_congr (fun x => by rw [upsert_upsert, upsert_upsert]) (hmem v) (hmem w) h

/-- Two sequences of updates of the same keys lead to the same list exactly when they agree on every
value that is not set again later. -/
theorem upsertAll_eq_iff (calls : List (κ × ν × ν)) (l : List (κ × ν)) :
    upsertAll l (calls.map fun call => (call.1, call.2.1)) =
        upsertAll l (calls.map fun call => (call.1, call.2.2)) ↔
      ∀ front call rest, calls = front ++ call :: rest →
        call.2.1 = call.2.2 ∨ ∃ later ∈ rest, later.1 = call.1 := by
  constructor
  · rintro hsame front ⟨k, v, w⟩ rest rfl
    by_cases hlater : ∃ later ∈ rest, later.1 = k
    · exact Or.inr hlater
    · left
      have hleft : k ∉ (rest.map fun call => (call.1, call.2.1)).map Prod.fst := by
        simpa using hlater
      have hright : k ∉ (rest.map fun call => (call.1, call.2.2)).map Prod.fst := by
        simpa using hlater
      have hlookup := congrArg (List.lookup k) hsame
      rw [List.map_append, List.map_append, List.map_cons, List.map_cons,
        lookup_upsertAll_last hleft, lookup_upsertAll_last hright] at hlookup
      exact Option.some.inj hlookup
  · intro h
    induction calls generalizing l with
    | nil => rfl
    | cons call calls ih =>
      obtain ⟨k, v, w⟩ := call
      have hrest := ih (upsert k w l) fun front call rest hcut =>
        h ((k, v, w) :: front) call rest (by rw [hcut]; rfl)
      rcases h [] (k, v, w) calls rfl with heq | ⟨later, hmem, hkey⟩
      · dsimp only at heq
        rw [heq]
        exact hrest
      · have hset : k ∈ (calls.map fun call => (call.1, call.2.1)).map Prod.fst := by
          rw [List.map_map]
          exact List.mem_map.mpr ⟨later, hmem, hkey⟩
        exact (upsertAll_upsert_congr hset v w l).trans hrest

end AbstractHttp.Library
