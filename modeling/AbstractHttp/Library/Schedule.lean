import Mathlib.Data.List.Basic
import Mathlib.Tactic

/-!
# Runs of a system under any scheduler

Several parties act on one state. An action is what a party does in one piece,
`step` says whether it is enabled and where it leads, and a run is any sequence
of actions that are enabled where they are taken.
-/
namespace AbstractHttp.Library

variable {σ α : Type*} {step : σ → α → Option σ} {s t u : σ} {as : List α} {a : α}

/-- A cut of a list with a last element is behind that element or before it. -/
theorem append_singleton_cut {β : Type*} {xs p q : List β} {x y : β}
    (h : xs ++ [x] = p ++ y :: q) :
    (q = [] ∧ xs = p ∧ x = y) ∨ ∃ q', q = q' ++ [x] ∧ xs = p ++ y :: q' := by
  rcases List.eq_nil_or_concat q with rfl | ⟨q', z, rfl⟩
  · obtain ⟨hxs, hx⟩ := List.append_inj' h rfl
    exact Or.inl ⟨rfl, hxs, List.singleton_inj.mp hx⟩
  · have hcut : xs ++ [x] = (p ++ y :: q') ++ [z] := by simpa using h
    obtain ⟨hxs, hx⟩ := List.append_inj' hcut rfl
    exact Or.inr ⟨q', by simp [List.singleton_inj.mp hx], hxs⟩

/-- The actions, each enabled where it is taken, lead from `s` to the last state. -/
inductive Run (step : σ → α → Option σ) (s : σ) : List α → σ → Prop where
  | start : Run step s [] s
  | next {as : List α} {t : σ} {a : α} {u : σ} :
      Run step s as t → step t a = some u → Run step s (as ++ [a]) u

/-- No action of the list is bad in the state in which it is taken. -/
def Avoids (step : σ → α → Option σ) (Bad : σ → α → Prop) (s : σ) (as : List α) : Prop :=
  ∀ p a q t, as = p ++ a :: q → Run step s p t → ¬ Bad t a

theorem run_append_singleton :
    Run step s (as ++ [a]) u ↔ ∃ t, Run step s as t ∧ step t a = some u := by
  constructor
  · intro h
    generalize hlist : as ++ [a] = bs at h
    cases h with
    | start => simp at hlist
    | next hrun hstep =>
      obtain ⟨rfl, hlast⟩ := List.append_inj' hlist rfl
      obtain rfl := List.singleton_inj.mp hlast
      exact ⟨_, hrun, hstep⟩
  · rintro ⟨t, hrun, hstep⟩
    exact hrun.next hstep

/-- A run is a computation in `Option`, so a concrete one can be evaluated. -/
theorem run_iff : Run step s as t ↔ as.foldlM step s = some t := by
  induction as using List.reverseRecOn generalizing t with
  | nil =>
    constructor
    · intro h
      generalize hlist : ([] : List α) = bs at h
      cases h with
      | start => rfl
      | next => simp at hlist
    · intro h
      obtain rfl : s = t := Option.some.inj h
      exact .start
  | append_singleton as a ih =>
    simp only [run_append_singleton, ih, List.foldlM_append, List.foldlM_cons, List.foldlM_nil,
      bind_pure, Option.bind_eq_bind, Option.bind_eq_some_iff]

namespace Run

/-- The scheduler decides everything: the actions determine the state reached. -/
theorem functional (h : Run step s as t) (h' : Run step s as u) : t = u :=
  Option.some.inj ((run_iff.mp h).symm.trans (run_iff.mp h'))

/-- A run can be continued. -/
theorem append {bs : List α} (h : Run step s as t) (h' : Run step t bs u) :
    Run step s (as ++ bs) u := by
  refine run_iff.mpr ?_
  rw [List.foldlM_append, run_iff.mp h]
  exact run_iff.mp h'

/-- Where each action has a counterpart in another system, so has a run. -/
theorem simulated {σ' α' : Type*} {step' : σ' → α' → Option σ'} {R : σ → σ' → Prop}
    {s' : σ'} (f : α → α')
    (hsim : ∀ t a u t', R t t' → step t a = some u → ∃ u', step' t' (f a) = some u' ∧ R u u')
    (hs : R s s') (h : Run step s as t) : ∃ t', Run step' s' (as.map f) t' ∧ R t t' := by
  induction h with
  | start => exact ⟨s', .start, hs⟩
  | next hrun hnext ih =>
    obtain ⟨t', hrun', ht⟩ := ih
    obtain ⟨u', hnext', hu⟩ := hsim _ _ _ _ ht hnext
    refine ⟨u', ?_, hu⟩
    rw [List.map_append]
    exact hrun'.next hnext'

/-- What every action of a kind preserves holds after a run of such actions. -/
theorem invariant {P : σ → Prop} {A : α → Prop}
    (hstep : ∀ t a u, A a → P t → step t a = some u → P u) (hs : P s) (h : Run step s as t)
    (hA : ∀ a ∈ as, A a) : P t := by
  induction h with
  | start => exact hs
  | next hrun hnext ih =>
    have hprev := ih fun a ha => hA a (List.mem_append_left _ ha)
    exact hstep _ _ _ (hA _ (by simp)) hprev hnext

end Run

theorem avoids_nil {Bad : σ → α → Prop} : Avoids step Bad s [] := by
  intro p a q t hlist
  simp at hlist

theorem avoids_append_singleton {Bad : σ → α → Prop} :
    Avoids step Bad s (as ++ [a]) ↔
      Avoids step Bad s as ∧ ∀ t, Run step s as t → ¬ Bad t a := by
  constructor
  · intro h
    exact ⟨fun p b q t hlist => h p b (q ++ [a]) t (by simp [hlist]),
      fun t hrun => h as a [] t rfl hrun⟩
  · rintro ⟨hfirst, hlast⟩ p b q t hlist hrun
    rcases append_singleton_cut hlist with ⟨-, rfl, rfl⟩ | ⟨q', -, hfirstCut⟩
    · exact hlast t hrun
    · exact hfirst p b q' t hfirstCut hrun

/-- Where the actions that are not bad keep an invariant under which no action of another kind is
taken, a run without the bad ones has none of the other kind either. -/
theorem Run.avoids_of_avoids {P : σ → Prop} {Bad Other : σ → α → Prop}
    (hstep : ∀ t a u, ¬ Bad t a → P t → step t a = some u → P u ∧ ¬ Other t a) (hs : P s)
    (h : Run step s as t) (havoids : Avoids step Bad s as) : P t ∧ Avoids step Other s as := by
  induction h with
  | start => exact ⟨hs, avoids_nil⟩
  | next hrun hnext ih =>
    obtain ⟨hfirst, hlast⟩ := avoids_append_singleton.mp havoids
    obtain ⟨hprev, hother⟩ := ih hfirst
    obtain ⟨hnow, hnot⟩ := hstep _ _ _ (hlast _ hrun) hprev hnext
    refine ⟨hnow, avoids_append_singleton.mpr ⟨hother, fun t ht => ?_⟩⟩
    rwa [ht.functional hrun]

/-- Where an action keeps the good states good exactly when it is not bad, and bad states stay
bad, a run ends well exactly when it avoids bad actions. -/
theorem Run.good_iff_avoids {P Good : σ → Prop} {A : α → Prop} {Bad : σ → α → Prop}
    (hstep : ∀ t a u, A a → P t → step t a = some u → P u)
    (hgood : ∀ t a u, A a → P t → step t a = some u → (Good u ↔ Good t ∧ ¬ Bad t a))
    (hs : P s) (hstart : Good s) (h : Run step s as t) (hA : ∀ a ∈ as, A a) :
    Good t ↔ Avoids step Bad s as := by
  induction h with
  | start => exact iff_of_true hstart avoids_nil
  | next hrun hnext ih =>
    have hprev : ∀ a ∈ _, A a := fun a ha => hA a (List.mem_append_left _ ha)
    have hlast := hA _ (List.mem_append_right _ (List.mem_singleton_self _))
    rw [hgood _ _ _ hlast (hrun.invariant hstep hs hprev) hnext, avoids_append_singleton, ih hprev]
    refine and_congr_right fun _ => ⟨fun hbad t ht => ?_, fun hbad => hbad _ hrun⟩
    rwa [ht.functional hrun]

/-- Where some action of a kind lowers a measure and keeps an invariant until the work is done, a
run of such actions gets it done. -/
theorem exists_run_of_lowers {P Done : σ → Prop} {A : α → Prop} (μ : σ → ℕ)
    (hlowers : ∀ t, P t → ¬ Done t → ∃ a u, A a ∧ step t a = some u ∧ P u ∧ μ u < μ t)
    (hs : P s) : ∃ as t, (∀ a ∈ as, A a) ∧ Run step s as t ∧ P t ∧ Done t := by
  induction hn : μ s using Nat.strong_induction_on generalizing s with
  | _ n ih =>
    subst hn
    by_cases hdone : Done s
    · exact ⟨[], s, fun a ha => absurd ha List.not_mem_nil, .start, hs, hdone⟩
    · obtain ⟨a, u, ha, hstep, hu, hless⟩ := hlowers s hs hdone
      obtain ⟨as, t, has, hrun, ht, hdone'⟩ := ih _ hless hu rfl
      exact ⟨[a] ++ as, t, List.forall_mem_cons.mpr ⟨ha, has⟩, (Run.start.next hstep).append hrun,
        ht, hdone'⟩

/-- Where every action that is not bad can be taken and keeps an invariant, so can a list of them. -/
theorem exists_run_of_avoids {P : σ → Prop} {Bad : σ → α → Prop}
    (hgood : ∀ t a, P t → ¬ Bad t a → ∃ u, step t a = some u ∧ P u) (hs : P s)
    (h : Avoids step Bad s as) : ∃ t, Run step s as t ∧ P t := by
  induction as using List.reverseRecOn with
  | nil => exact ⟨s, .start, hs⟩
  | append_singleton as a ih =>
    obtain ⟨hfirst, hlast⟩ := avoids_append_singleton.mp h
    obtain ⟨t, hrun, ht⟩ := ih hfirst
    obtain ⟨u, hstep, hu⟩ := hgood t a ht (hlast t hrun)
    exact ⟨u, hrun.next hstep, hu⟩

/-- Where good steps keep an invariant, bad ones lead nowhere or to a spoiled state, and spoiled
states stay so, a run comes to a good end exactly when it takes no bad step. -/
theorem exists_run_iff_avoids {P Spoiled Good : σ → Prop} {Bad : σ → α → Prop}
    (hgood : ∀ t a, P t → ¬ Bad t a → ∃ u, step t a = some u ∧ P u)
    (hbad : ∀ t a u, P t → Bad t a → step t a = some u → Spoiled u)
    (hspoiled : ∀ t a u, Spoiled t → step t a = some u → Spoiled u)
    (hend : ∀ t, P t → Good t) (hnever : ∀ t, Spoiled t → ¬ Good t) (hs : P s) (as : List α) :
    (∃ t, Run step s as t ∧ Good t) ↔ Avoids step Bad s as := by
  have hboth : (Avoids step Bad s as → ∃ t, Run step s as t ∧ P t) ∧
      (¬ Avoids step Bad s as → ∀ t, Run step s as t → Spoiled t) := by
    induction as using List.reverseRecOn with
    | nil => exact ⟨fun _ => ⟨s, .start, hs⟩, fun h => absurd avoids_nil h⟩
    | append_singleton as a ih =>
      rw [avoids_append_singleton]
      constructor
      · rintro ⟨hfirst, hlast⟩
        obtain ⟨t, hrun, ht⟩ := ih.1 hfirst
        obtain ⟨u, hstep, hu⟩ := hgood t a ht (hlast t hrun)
        exact ⟨u, hrun.next hstep, hu⟩
      · intro hnot u hu
        obtain ⟨t, hrun, hstep⟩ := run_append_singleton.mp hu
        by_cases hfirst : Avoids step Bad s as
        · obtain ⟨t', hrun', ht⟩ := ih.1 hfirst
          obtain rfl := hrun'.functional hrun
          refine hbad t' a u ht ?_ hstep
          by_contra hfine
          exact hnot ⟨hfirst, fun _ h => (h.functional hrun) ▸ hfine⟩
        · exact hspoiled t a u (ih.2 hfirst t hrun) hstep
  constructor
  · rintro ⟨t, hrun, ht⟩
    by_contra hnot
    exact hnever t (hboth.2 hnot t hrun) ht
  · intro havoids
    obtain ⟨t, hrun, ht⟩ := hboth.1 havoids
    exact ⟨t, hrun, hend t ht⟩

end AbstractHttp.Library
