import Mathlib.Tactic

/-!
# Loops that may not end

A `while` loop is run with fuel.  A loop with a variant returns for any fuel above
the variant, and a loop whose condition an invariant keeps true never returns.
-/
namespace AbstractHttp.Library

variable {σ : Type*} {cond : σ → Bool} {body : σ → Option σ} {s t : σ} {fuel : ℕ}

/-- Run `body` as long as `cond` holds; `none` when the fuel is used up or a turn fails. -/
def whileFuel (cond : σ → Bool) (body : σ → Option σ) : ℕ → σ → Option σ
  | 0, _ => none
  | fuel + 1, s => if cond s then (body s).bind (whileFuel cond body fuel) else some s

theorem whileFuel_of_false (h : cond s = false) :
    whileFuel cond body (fuel + 1) s = some s := by
  simp [whileFuel, h]

theorem whileFuel_of_true (h : cond s = true) (hbody : body s = some t) :
    whileFuel cond body (fuel + 1) s = whileFuel cond body fuel t := by
  simp [whileFuel, h, hbody]

/-- More fuel does not change a result, also where the turns run with more fuel. -/
theorem whileFuel_mono_body {body' : σ → Option σ} {fuel' : ℕ}
    (hbody : ∀ s t, body s = some t → body' s = some t)
    (h : whileFuel cond body fuel s = some t) (hle : fuel ≤ fuel') :
    whileFuel cond body' fuel' s = some t := by
  induction fuel generalizing s fuel' with
  | zero => simp [whileFuel] at h
  | succ fuel ih =>
    obtain ⟨more, rfl⟩ := Nat.exists_eq_add_of_le hle
    rw [Nat.add_right_comm]
    rw [whileFuel] at h ⊢
    split at h
    · obtain ⟨u, hturn, hrest⟩ := Option.bind_eq_some_iff.mp h
      rw [if_pos (by assumption), hbody _ _ hturn]
      exact ih hrest (by omega)
    · rw [if_neg (by assumption)]
      exact h

theorem whileFuel_mono {fuel' : ℕ} (h : whileFuel cond body fuel s = some t)
    (hle : fuel ≤ fuel') : whileFuel cond body fuel' s = some t :=
  whileFuel_mono_body (fun _ _ hturn => hturn) h hle

/-- An invariant and a variant: the loop ends, in a state with the invariant and without the
condition. -/
theorem whileFuel_returns (cond : σ → Bool) (body : σ → Option σ) {P : σ → Prop}
    (variant : σ → ℕ)
    (hbody : ∀ s, P s → cond s = true → ∃ t, body s = some t ∧ P t ∧ variant t < variant s)
    (hs : P s) (hfuel : variant s < fuel) :
    ∃ t, whileFuel cond body fuel s = some t ∧ P t ∧ cond t = false := by
  induction fuel generalizing s with
  | zero => omega
  | succ fuel ih =>
    cases hcond : cond s with
    | false => exact ⟨s, whileFuel_of_false hcond, hs, hcond⟩
    | true =>
      obtain ⟨t, hnext, ht, hless⟩ := hbody s hs hcond
      rw [whileFuel_of_true hcond hnext]
      exact ih ht (by omega)

/-- An invariant that keeps the condition true: the loop does not end. -/
theorem whileFuel_eq_none {P : σ → Prop} (hcond : ∀ s, P s → cond s = true)
    (hbody : ∀ s t, P s → body s = some t → P t) (hs : P s) (fuel : ℕ) :
    whileFuel cond body fuel s = none := by
  induction fuel generalizing s with
  | zero => rfl
  | succ fuel ih =>
    cases hnext : body s with
    | none => simp [whileFuel, hcond s hs, hnext]
    | some t =>
      rw [whileFuel_of_true (hcond s hs) hnext]
      exact ih (hbody s t hs hnext)

end AbstractHttp.Library
