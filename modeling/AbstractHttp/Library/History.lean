import Mathlib.Data.List.Basic
import Mathlib.Tactic

/-!
# Histories of calls on an object

A caller makes any calls on an object and sees their answers. `step` is what the
object does on one call, and it has no result where the object would be used
wrongly. A specification is a relation between a value that the object stands
for, a call, its answer, and the value afterwards.
-/
namespace AbstractHttp.Library

variable {σ τ κ ρ : Type*} {step : σ → κ → Option (σ × ρ)} {spec : τ → κ → ρ → τ → Prop}
  {s : σ} {t u : τ}

/-- The calls with their answers, and the object after the last of them. -/
def history (step : σ → κ → Option (σ × ρ)) (s : σ) : List κ → Option (List (κ × ρ) × σ)
  | [] => some ([], s)
  | call :: calls =>
    (step s call).bind fun (s, answer) =>
      (history step s calls).map fun (answers, s) => ((call, answer) :: answers, s)

/-- The specification allows each answer of a history, and leads from the first value to the last
one. -/
inductive Explains (spec : τ → κ → ρ → τ → Prop) : τ → List (κ × ρ) → τ → Prop where
  | nil {t : τ} : Explains spec t [] t
  | cons {t u v : τ} {call : κ} {answer : ρ} {answers : List (κ × ρ)} :
      spec t call answer u → Explains spec u answers v →
      Explains spec t ((call, answer) :: answers) v

/-- An object whose every call is one of the specification has only histories that it explains. -/
theorem exists_history_explains {R : σ → τ → Prop}
    (hstep : ∀ s t call, R s t → ∃ s' answer t',
      step s call = some (s', answer) ∧ spec t call answer t' ∧ R s' t')
    (h : R s t) (calls : List κ) :
    ∃ answers s' t', history step s calls = some (answers, s') ∧
      Explains spec t answers t' ∧ R s' t' := by
  induction calls generalizing s t with
  | nil => exact ⟨[], s, t, rfl, .nil, h⟩
  | cons call calls ih =>
    obtain ⟨s', answer, t', hcall, hspec, hnow⟩ := hstep s t call h
    obtain ⟨answers, s'', t'', hrest, hexplains, hlast⟩ := ih hnow
    refine ⟨(call, answer) :: answers, s'', t'', ?_, .cons hspec hexplains, hlast⟩
    rw [history, hcall]
    simp [hrest]

/-- No call is bad for the object that it is made on. -/
def Allowed (step : σ → κ → Option (σ × ρ)) (Bad : σ → κ → Prop) (s : σ) (calls : List κ) : Prop :=
  ∀ p call q answers s', calls = p ++ call :: q → history step s p = some (answers, s') →
    ¬ Bad s' call

theorem allowed_cons {Bad : σ → κ → Prop} {s s' : σ} {call : κ} {answer : ρ} {calls : List κ}
    (hcall : step s call = some (s', answer)) :
    Allowed step Bad s (call :: calls) ↔ ¬ Bad s call ∧ Allowed step Bad s' calls := by
  constructor
  · intro h
    refine ⟨h [] call calls [] s rfl rfl, fun p next q answers s'' hcut hrun => ?_⟩
    refine h (call :: p) next q ((call, answer) :: answers) s'' (by rw [hcut]; rfl) ?_
    rw [history, hcall]
    simp [hrun]
  · rintro ⟨hfirst, hrest⟩ p next q answers s'' hcut hrun
    cases p with
    | nil =>
      obtain ⟨rfl, rfl⟩ := List.cons.inj hcut
      obtain ⟨-, rfl⟩ := Prod.mk.inj (Option.some.inj hrun)
      exact hfirst
    | cons first p =>
      obtain ⟨rfl, rfl⟩ := List.cons.inj hcut
      rw [history, hcall] at hrun
      obtain ⟨⟨rest, _⟩, hbehind, heq⟩ := Option.map_eq_some_iff.mp hrun
      obtain ⟨-, rfl⟩ := Prod.mk.inj heq
      exact hrest p next q rest _ rfl hbehind

theorem Allowed.or_iff {Bad Wrong : σ → κ → Prop} {s : σ} {calls : List κ} :
    Allowed step (fun s call => Bad s call ∨ Wrong s call) s calls ↔
      Allowed step Bad s calls ∧ Allowed step Wrong s calls := by
  constructor
  · intro h
    exact ⟨fun p call q answers s' hcut hrun hbad => h p call q answers s' hcut hrun (.inl hbad),
      fun p call q answers s' hcut hrun hwrong => h p call q answers s' hcut hrun (.inr hwrong)⟩
  · rintro ⟨hbad, hwrong⟩ p call q answers s' hcut hrun (hcall | hcall)
    · exact hbad p call q answers s' hcut hrun hcall
    · exact hwrong p call q answers s' hcut hrun hcall

section Exceptions

variable {R : σ → τ → Prop} {Bad : σ → κ → Prop}

/-- Where the bad calls have no result, a history has none of them. -/
theorem allowed_of_history
    (hgood : ∀ s t call, R s t → ¬ Bad s call → ∃ s' answer t',
      step s call = some (s', answer) ∧ spec t call answer t' ∧ R s' t')
    (hbad : ∀ s t call, R s t → Bad s call → step s call = none) (h : R s t) {calls : List κ}
    (hrun : (history step s calls).isSome) : Allowed step Bad s calls := by
  induction calls generalizing s t with
  | nil =>
    intro p call q _ _ hcut
    simp at hcut
  | cons call calls ih =>
    by_cases hcall : Bad s call
    · rw [history, hbad s t call h hcall] at hrun
      cases hrun
    · obtain ⟨s', answer, t', hstep, -, hnow⟩ := hgood s t call h hcall
      rw [history, hstep] at hrun
      exact (allowed_cons hstep).mpr ⟨hcall, ih hnow (by simpa using hrun)⟩

/-- An object whose calls are those of the specification, except for bad ones without a result,
has a history that the specification explains exactly when no call is bad. -/
theorem exists_history_explains_iff
    (hgood : ∀ s t call, R s t → ¬ Bad s call → ∃ s' answer t',
      step s call = some (s', answer) ∧ spec t call answer t' ∧ R s' t')
    (hbad : ∀ s t call, R s t → Bad s call → step s call = none) (h : R s t) (calls : List κ) :
    (∃ answers s' t', history step s calls = some (answers, s') ∧
      Explains spec t answers t' ∧ R s' t') ↔ Allowed step Bad s calls := by
  constructor
  · rintro ⟨answers, s', t', hrun, -⟩
    exact allowed_of_history hgood hbad h (by rw [hrun]; rfl)
  · intro hallowed
    induction calls generalizing s t with
    | nil => exact ⟨[], s, t, rfl, .nil, h⟩
    | cons call calls ih =>
      have hcall : ¬ Bad s call := hallowed [] call calls [] s rfl rfl
      obtain ⟨s', answer, t', hstep, hspec, hnow⟩ := hgood s t call h hcall
      obtain ⟨answers, s'', t'', hrest, hexplains, hlast⟩ :=
        ih hnow ((allowed_cons hstep).mp hallowed).2
      refine ⟨(call, answer) :: answers, s'', t'', ?_, .cons hspec hexplains, hlast⟩
      rw [history, hstep]
      simp [hrest]

end Exceptions

/-- What every call of the specification keeps, a history keeps. -/
theorem Explains.invariant {P : τ → Prop} {answers : List (κ × ρ)}
    (hspec : ∀ t call answer u, P t → spec t call answer u → P u)
    (h : Explains spec t answers u) (ht : P t) : P u := by
  induction h with
  | nil => exact ht
  | cons hcall _ ih => exact ih (hspec _ _ _ _ ht hcall)

end AbstractHttp.Library
