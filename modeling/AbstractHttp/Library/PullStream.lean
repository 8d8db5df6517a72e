import Mathlib.Tactic

/-!
# Streams that are pulled

A source is asked for at most so many items and gives some of them together with a code. A loop
pulls from it into a sink until the source fails, gives nothing more, or the sink refuses. The rule
below is for every sink that has room when it asks and keeps what it takes: the loop comes to an
end, and the sink holds what the source did.
-/
namespace AbstractHttp.Library

/-- What a call gives: the state behind it, a code, which is 0 unless it failed, and the items. -/
structure Pulled (σ ι : Type*) where
  state : σ
  code : ℤ
  items : List ι

/-- A source never gives more items than it is asked for. -/
structure PullSource (σ ι : Type*) where
  read : σ → ℕ → Pulled σ ι
  fits : ∀ s n, (read s n).items.length ≤ n

/-- What the loop pulls into: room is made, so many items are asked for, and they are put in. -/
structure PullSink (τ ι ε : Type*) where
  prepare : τ → Except ε τ
  room : τ → ℕ
  put : τ → List ι → Except ε τ

/-- How the loop ends: nothing more is given, the source fails, or the sink refuses. -/
inductive PullEnd (ε : Type*) where
  | finished
  | failed (code : ℤ)
  | refused (e : ε)

variable {σ τ ι ε : Type*}

/-- The loop, for at most `fuel` calls of the source. -/
def pull (src : PullSource σ ι) (sink : PullSink τ ι ε) : ℕ → σ → τ → Option (τ × PullEnd ε)
  | 0, _, _ => none
  | fuel + 1, s, t =>
    match sink.prepare t with
    | .error e => some (t, .refused e)
    | .ok t =>
      let got := src.read s (sink.room t)
      if got.code ≠ 0 then some (t, .failed got.code)
      else if got.items = [] then some (t, .finished)
      else
        match sink.put t got.items with
        | .error e => some (t, .refused e)
        | .ok t => pull src sink fuel got.state t

namespace PullSource

/-- From `s` on, and whatever it is asked for, the source gives `items` in pieces that it chooses,
and then ends with this code, 0 for nothing more. -/
inductive Holds (src : PullSource σ ι) (code : ℤ) : σ → List ι → Prop
  | finished {s : σ} (hcode : ∀ n, 0 < n → (src.read s n).code = code)
      (hitems : code = 0 → ∀ n, 0 < n → (src.read s n).items = []) : Holds src code s []
  | more {s : σ} {items : List ι} (piece : ℕ → ℕ) (hitems : items ≠ [])
      (hpiece : ∀ n, 0 < n → 0 < piece n)
      (hread : ∀ n, 0 < n → (src.read s n).code = 0 ∧
        (src.read s n).items = items.take (piece n))
      (hrest : ∀ n, 0 < n → Holds src code (src.read s n).state (items.drop (piece n))) :
      Holds src code s items

/-- A list, in pieces of at most `m`. -/
def pieces (m : ℕ) : PullSource (List ι) ι where
  read s n := ⟨s.drop (min n m), 0, s.take (min n m)⟩
  fits _ _ := (List.length_take_le _ _).trans (min_le_left _ _)

theorem pieces_holds {m : ℕ} (hm : 0 < m) (items : List ι) :
    (pieces m).Holds 0 items items := by
  induction hk : items.length using Nat.strong_induction_on generalizing items with
  | _ k ih =>
    subst hk
    by_cases hitems : items = []
    · rw [hitems]
      exact .finished (fun _ _ => rfl) fun _ _ _ => List.take_nil
    · have hlength : 0 < items.length := List.length_pos_iff.mpr hitems
      refine .more (fun n => min n m) hitems (fun n hn => lt_min hn hm) (fun _ _ => ⟨rfl, rfl⟩)
        fun n hn => ih _ ?_ _ rfl
      change (items.drop (min n m)).length < items.length
      rw [List.length_drop]
      omega

end PullSource

namespace PullSink

/-- With `P`, the sink has room once it is prepared, and `view` is what it has taken. -/
structure Lawful (sink : PullSink τ ι ε) (P : τ → Prop) (view : τ → List ι) : Prop where
  prepare : ∀ t t', P t → sink.prepare t = .ok t' → P t' ∧ view t' = view t ∧ 0 < sink.room t'
  put : ∀ t t' items, P t → items.length ≤ sink.room t → sink.put t items = .ok t' →
    P t' ∧ view t' = view t ++ items

/-- Nothing is refused. -/
structure Granting (sink : PullSink τ ι ε) : Prop where
  prepare : ∀ t e, sink.prepare t ≠ .error e
  put : ∀ t items e, sink.put t items ≠ .error e

/-- The sink refuses to go on with the beginning of `whole` that it has, or to take a piece more. -/
def Refuses (sink : PullSink τ ι ε) (view : τ → List ι) (whole : List ι) (t : τ) (e : ε) : Prop :=
  (view t <+: whole ∧ sink.prepare t = .error e) ∨
    ∃ piece, view t ++ piece <+: whole ∧ sink.put t piece = .error e

end PullSink

/-- How the loop ends, of a source that had the part of `whole` that the sink had not. -/
inductive PullResult (sink : PullSink τ ι ε) (P : τ → Prop) (view : τ → List ι) (code : ℤ)
    (whole : List ι) : Option (τ × PullEnd ε) → Prop
  | finished {t : τ} (hcode : code = 0) (ht : P t) (hview : view t = whole) :
      PullResult sink P view code whole (some (t, .finished))
  | failed {t : τ} (hcode : code ≠ 0) (ht : P t) (hview : view t = whole) :
      PullResult sink P view code whole (some (t, .failed code))
  | refused {t : τ} {e : ε} (ht : P t) (hwhy : sink.Refuses view whole t e) :
      PullResult sink P view code whole (some (t, .refused e))

section Rule

variable {src : PullSource σ ι} {sink : PullSink τ ι ε} {P : τ → Prop} {view : τ → List ι}
  {code : ℤ} {s : σ} {t : τ} {items whole : List ι} {fuel : ℕ}

theorem PullSink.Granting.not_refuses (h : sink.Granting) (e : ε) :
    ¬ sink.Refuses view whole t e := by
  rintro (⟨-, hprepare⟩ | ⟨piece, -, hput⟩)
  · exact h.prepare t e hprepare
  · exact h.put t piece e hput

/-- The loop ends, keeps `P`, and takes all that the source holds unless it is refused. -/
theorem pull_result (hsink : sink.Lawful P view) (hsrc : src.Holds code s items) (ht : P t)
    (hfuel : items.length < fuel) :
    PullResult sink P view code (view t ++ items) (pull src sink fuel s t) := by
  induction hsrc generalizing t fuel with
  | @finished s hcode hitems =>
    obtain ⟨fuel, rfl⟩ := Nat.exists_eq_add_of_lt hfuel
    rw [pull, List.append_nil]
    cases hready : sink.prepare t with
    | error e => exact .refused ht (.inl ⟨List.prefix_rfl, hready⟩)
    | ok t' =>
      obtain ⟨ht', hview, hroom⟩ := hsink.prepare t t' ht hready
      dsimp only
      rw [hcode _ hroom]
      by_cases hzero : code = 0
      · rw [if_neg (not_not.mpr hzero), if_pos (hitems hzero _ hroom)]
        exact .finished hzero ht' hview
      · rw [if_pos hzero]
        exact .failed hzero ht' hview
  | @more s items piece hitems hpiece hread hrest ih =>
    obtain ⟨fuel, rfl⟩ := Nat.exists_eq_add_of_lt hfuel
    rw [pull]
    cases hready : sink.prepare t with
    | error e => exact .refused ht (.inl ⟨List.prefix_append _ _, hready⟩)
    | ok t' =>
      obtain ⟨ht', hview, hroom⟩ := hsink.prepare t t' ht hready
      obtain ⟨hcode, hgot⟩ := hread _ hroom
      have hpos := hpiece _ hroom
      have hlength : 0 < items.length := List.length_pos_iff.mpr hitems
      have hsome : items.take (piece (sink.room t')) ≠ [] := by
        rw [Ne, List.take_eq_nil_iff, not_or]
        exact ⟨hpos.ne', hitems⟩
      have hfits : (items.take (piece (sink.room t'))).length ≤ sink.room t' :=
        hgot ▸ src.fits s (sink.room t')
      have hwhole : (view t ++ items.take (piece (sink.room t'))) ++
          items.drop (piece (sink.room t')) = view t ++ items := by
        rw [List.append_assoc, List.take_append_drop]
      dsimp only
      rw [hcode, if_neg (by simp), hgot, if_neg hsome]
      cases hput : sink.put t' (items.take (piece (sink.room t'))) with
      | error e =>
        refine .refused ht' (.inr ⟨_, ?_, hput⟩)
        rw [hview, ← hwhole]
        exact List.prefix_append _ _
      | ok t'' =>
        obtain ⟨ht'', htaken⟩ := hsink.put t' t'' _ ht' hfits hput
        have hless : (items.drop (piece (sink.room t'))).length < items.length + fuel := by
          rw [List.length_drop]
          omega
        rw [← hwhole, ← hview, ← htaken]
        exact ih _ hroom ht'' hless

/-- A loop that is not refused ends with a sink that was prepared for a call. -/
theorem pull_prepared {t' : τ} {e : PullEnd ε} (h : pull src sink fuel s t = some (t', e))
    (he : ∀ r, e ≠ .refused r) : ∃ t₀, sink.prepare t₀ = .ok t' := by
  induction fuel generalizing s t with
  | zero => cases h
  | succ fuel ih =>
    rw [pull] at h
    cases hready : sink.prepare t with
    | error r =>
      rw [hready] at h
      cases h
      exact absurd rfl (he r)
    | ok t₁ =>
      rw [hready] at h
      dsimp only at h
      split_ifs at h with hcode hitems
      · cases h
        exact ⟨t, hready⟩
      · cases h
        exact ⟨t, hready⟩
      · cases hput : sink.put t₁ (src.read s (sink.room t₁)).items with
        | error r =>
          rw [hput] at h
          cases h
          exact absurd rfl (he r)
        | ok t₂ =>
          rw [hput] at h
          exact ih h

/-- What is made of a loop's end has a property if it has it at every end there can be. -/
theorem PullResult.map {r : Option (τ × PullEnd ε)} (h : PullResult sink P view code whole r)
    {α : Type*} {Q : Option α → Prop} {f : τ × PullEnd ε → α}
    (hfinished : ∀ t, code = 0 → P t → view t = whole → Q (some (f (t, .finished))))
    (hfailed : ∀ t, code ≠ 0 → P t → view t = whole → Q (some (f (t, .failed code))))
    (hrefused : ∀ t e, sink.Refuses view whole t e → P t → Q (some (f (t, .refused e)))) :
    Q (r.map f) := by
  cases h with
  | finished hcode ht hview => exact hfinished _ hcode ht hview
  | failed hcode ht hview => exact hfailed _ hcode ht hview
  | refused ht hwhy => exact hrefused _ _ hwhy ht

end Rule

end AbstractHttp.Library
