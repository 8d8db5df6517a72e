import AbstractHttp.Library.Schedule

/-!
# Coroutines that resume one another

The `ucontext` implementation keeps two saved contexts for each coroutine and one thread-local
pointer, which `abstract_http_coroutine_resume` sets. A context is a place to continue from: the
entry of a body, or the place behind the call of a party that was the `n`-th call of all.
-/
namespace AbstractHttp.Concurrency
open Library

/-- Who runs: the thread outside of all coroutines, or a coroutine. -/
inductive Party where
  | thread
  | co (k : ℕ)
  deriving DecidableEq, Repr

/-- A saved context. -/
inductive Place where
  | entry (k : ℕ)
  | behind (party : Party) (call : ℕ)
  deriving DecidableEq, Repr

/-- Who runs from a place on. -/
def Place.party : Place → Party
  | .entry k => .co k
  | .behind party _ => party

/-- A switch of contexts: where it leads, and where the coroutine was suspended or what lies behind
the call that last activated the party that yields or returns. For a yield, `saved` is the
coroutine whose context the yield saves. -/
inductive Switch where
  | resumed (k : ℕ) (suspendedAt : Option Place) (landed : Place)
  | yielded (party : Party) (saved : ℕ) (activatedFrom landed : Option Place)
  | returned (k : ℕ) (activatedFrom landed : Option Place)
  deriving DecidableEq, Repr

/-- A resumed coroutine continues where it was suspended; a coroutine that yields is suspended, and
it continues, as after a return, behind the call that last activated it. -/
def Switch.Right : Switch → Prop
  | .resumed _ suspendedAt landed => suspendedAt = some landed
  | .yielded party saved activatedFrom landed =>
    party = .co saved ∧ landed.isSome ∧ activatedFrom = landed
  | .returned _ activatedFrom landed => landed.isSome ∧ activatedFrom = landed

/-- `ctx`, `caller_ctx` and `is_done` of the coroutines and `co_tls_key`, with the party that runs;
it is lost after a switch to a context that was never saved. The record has the calls so far, the
place where a coroutine that is not active is suspended, the place behind the call that last
activated it, and the switches. -/
structure CoroutineState where
  ctx : ℕ → Place
  callerCtx : ℕ → Option Place
  isDone : ℕ → Bool
  tls : Option ℕ
  running : Option Party
  calls : ℕ
  suspendedAt : ℕ → Option Place
  activatedFrom : ℕ → Option Place
  switches : List Switch

namespace CoroutineState

/-- The coroutines as `abstract_http_coroutine_init` makes them. -/
def init : CoroutineState where
  ctx := .entry
  callerCtx _ := none
  isDone _ := false
  tls := none
  running := some .thread
  calls := 0
  suspendedAt k := some (.entry k)
  activatedFrom _ := none
  switches := []

/-- `abstract_http_coroutine_resume`, called by `party`; for a coroutine that is done it is an
error. -/
def resume (s : CoroutineState) (party : Party) (k : ℕ) : CoroutineState :=
  if s.isDone k then { s with calls := s.calls + 1 }
  else
    { s with
      callerCtx := Function.update s.callerCtx k (some (.behind party s.calls))
      tls := some k
      running := some (s.ctx k).party
      calls := s.calls + 1
      suspendedAt := Function.update s.suspendedAt k none
      activatedFrom := Function.update s.activatedFrom k (some (.behind party s.calls))
      switches := s.switches ++ [.resumed k (s.suspendedAt k) (s.ctx k)] }

/-- The places where the coroutines are suspended once `party` is suspended at a place. -/
def suspend (s : CoroutineState) (party : Party) (place : Place) : ℕ → Option Place :=
  match party with
  | .thread => s.suspendedAt
  | .co k => Function.update s.suspendedAt k (some place)

/-- The place behind the call that last activated a party. -/
def activation (s : CoroutineState) : Party → Option Place
  | .thread => none
  | .co k => s.activatedFrom k

/-- `swapcontext` in `abstract_http_coroutine_yield`, called by `party`. -/
def swapToCaller (s : CoroutineState) (party : Party) (co : ℕ) : CoroutineState :=
  { s with
    ctx := Function.update s.ctx co (.behind party s.calls)
    running := (s.callerCtx co).map Place.party
    calls := s.calls + 1
    suspendedAt := s.suspend party (.behind party s.calls)
    switches := s.switches ++ [.yielded party co (s.activation party) (s.callerCtx co)] }

/-- `abstract_http_coroutine_yield`, called by `party`. -/
def yield (s : CoroutineState) (party : Party) : CoroutineState :=
  match s.tls with
  | none => { s with calls := s.calls + 1 }
  | some co => s.swapToCaller party co

/-- The end of `ucontext_entry` of coroutine `k`, with `uc_link`. -/
def bodyReturns (s : CoroutineState) (k : ℕ) : CoroutineState :=
  { s with
    isDone := Function.update s.isDone k true
    running := (s.callerCtx k).map Place.party
    switches := s.switches ++ [.returned k (s.activatedFrom k) (s.callerCtx k)] }

end CoroutineState

/-- What the running party does. -/
inductive CoroutineAction where
  | resume (k : ℕ)
  | yield
  | bodyReturns

/-- One action, where it is enabled. -/
def coroutineStep (s : CoroutineState) : CoroutineAction → Option CoroutineState
  | .resume k => s.running.map fun party => s.resume party k
  | .yield => s.running.map s.yield
  | .bodyReturns =>
    match s.running with
    | some (.co k) => some (s.bodyReturns k)
    | _ => none

/-- A yield while the pointer is at another coroutine than the one that runs, or a resume of a
coroutine that is active already. -/
def Misdirected (s : CoroutineState) : CoroutineAction → Prop
  | .resume k => s.isDone k = false ∧ s.suspendedAt k = none
  | .yield => ∃ co, s.tls = some co ∧ s.running ≠ some (.co co)
  | .bodyReturns => False

section Discipline

variable {s t u : CoroutineState} {active : List ℕ} {actions : List CoroutineAction}

/-- The innermost of the active coroutines, or the thread. -/
def innermost : List ℕ → Party
  | [] => .thread
  | k :: _ => .co k

/-- Each active coroutine was activated by the next one. -/
def Linked (s : CoroutineState) : List ℕ → Prop
  | [] => True
  | k :: rest =>
    (∃ call, s.callerCtx k = some (.behind (innermost rest) call) ∧
      s.activatedFrom k = some (.behind (innermost rest) call)) ∧ Linked s rest

/-- The saved contexts are those of the active coroutines, the innermost first, and of the
suspended ones. -/
structure Nested (s : CoroutineState) (active : List ℕ) : Prop where
  running : s.running = some (innermost active)
  distinct : active.Nodup
  linked : Linked s active
  unsuspended : ∀ k ∈ active, s.isDone k = false ∧ s.suspendedAt k = none
  suspended : ∀ k, k ∉ active → s.isDone k = false →
    s.suspendedAt k = some (s.ctx k) ∧ (s.ctx k).party = .co k
  tls : active ≠ [] → s.tls ≠ none

/-- Every switch so far was right. -/
def AllSwitchesRight (s : CoroutineState) : Prop := ∀ switch ∈ s.switches, switch.Right

theorem Linked.congr (h : Linked s active)
    (hsame : ∀ k ∈ active, u.callerCtx k = s.callerCtx k ∧ u.activatedFrom k = s.activatedFrom k) :
    Linked u active := by
  induction active with
  | nil => trivial
  | cons k rest ih =>
    obtain ⟨⟨call, hcaller, hactivated⟩, hrest⟩ := h
    obtain ⟨hsameCaller, hsameActivated⟩ := hsame k List.mem_cons_self
    refine ⟨⟨call, hsameCaller.trans hcaller, hsameActivated.trans hactivated⟩, ih hrest ?_⟩
    exact fun j hj => hsame j (List.mem_cons_of_mem _ hj)

theorem nested_init : Nested .init [] :=
  ⟨rfl, List.nodup_nil, trivial, fun _ hk => absurd hk List.not_mem_nil,
    fun _ _ _ => ⟨rfl, rfl⟩, fun h => absurd rfl h⟩

/-- A call that is an error changes nothing. -/
theorem Nested.of_calls (h : Nested s active) (calls : ℕ) :
    Nested { s with calls := calls } active :=
  ⟨h.running, h.distinct, h.linked.congr fun _ _ => ⟨rfl, rfl⟩, h.unsuspended, h.suspended, h.tls⟩

/-- The coroutine that is resumed becomes the innermost. -/
theorem Nested.resume {k : ℕ} (h : Nested s active) (hdone : s.isDone k = false)
    (hout : k ∉ active) : Nested (s.resume (innermost active) k) (k :: active) := by
  obtain ⟨-, hparty⟩ := h.suspended k hout hdone
  rw [CoroutineState.resume, if_neg (by simp [hdone])]
  refine ⟨congrArg some hparty, List.nodup_cons.mpr ⟨hout, h.distinct⟩, ⟨⟨s.calls, ?_, ?_⟩, ?_⟩,
    fun j hj => ?_, fun j hj hjdone => ?_, fun _ => Option.some_ne_none _⟩
  · exact Function.update_self ..
  · exact Function.update_self ..
  · refine h.linked.congr fun j hj => ?_
    have hne : j ≠ k := fun hsame => hout (hsame ▸ hj)
    exact ⟨Function.update_of_ne hne _ _, Function.update_of_ne hne _ _⟩
  · rcases List.mem_cons.mp hj with rfl | hj
    · exact ⟨hdone, Function.update_self ..⟩
    · have hne : j ≠ k := fun hsame => hout (hsame ▸ hj)
      obtain ⟨hjdone, hjactive⟩ := h.unsuspended j hj
      exact ⟨hjdone, (Function.update_of_ne hne _ _).trans hjactive⟩
  · obtain ⟨hne, hj⟩ := List.ne_and_not_mem_of_not_mem_cons hj
    obtain ⟨hsuspended, hjparty⟩ := h.suspended j hj hjdone
    exact ⟨(Function.update_of_ne hne _ _).trans hsuspended, hjparty⟩

/-- The innermost coroutine is suspended, and the next one runs. -/
theorem Nested.swapToCaller {k : ℕ} {rest : List ℕ} (h : Nested s (k :: rest)) :
    Nested (s.swapToCaller (.co k) k) rest := by
  obtain ⟨hout, hdistinct⟩ := List.nodup_cons.mp h.distinct
  obtain ⟨⟨call, hcaller, -⟩, hlinked⟩ := h.linked
  refine ⟨?_, hdistinct, hlinked.congr fun _ _ => ⟨rfl, rfl⟩, fun j hj => ?_, fun j hj hdone => ?_,
    fun _ => h.tls (List.cons_ne_nil k rest)⟩
  · rw [CoroutineState.swapToCaller, hcaller]
    rfl
  · have hne : j ≠ k := fun hsame => hout (hsame ▸ hj)
    obtain ⟨hdone, hactive⟩ := h.unsuspended j (List.mem_cons_of_mem _ hj)
    exact ⟨hdone, (Function.update_of_ne hne _ _).trans hactive⟩
  · by_cases hne : j = k
    · subst hne
      simp [CoroutineState.swapToCaller, CoroutineState.suspend, Place.party]
    · obtain ⟨hsuspended, hparty⟩ := h.suspended j (List.not_mem_cons_of_ne_of_not_mem hne hj) hdone
      simp only [CoroutineState.swapToCaller, CoroutineState.suspend, Function.update_of_ne hne]
      exact ⟨hsuspended, hparty⟩

theorem Nested.bodyReturns {k : ℕ} {rest : List ℕ} (h : Nested s (k :: rest)) :
    Nested (s.bodyReturns k) rest := by
  obtain ⟨hout, hdistinct⟩ := List.nodup_cons.mp h.distinct
  obtain ⟨⟨call, hcaller, -⟩, hlinked⟩ := h.linked
  refine ⟨?_, hdistinct, hlinked.congr fun _ _ => ⟨rfl, rfl⟩, fun j hj => ?_, fun j hj hdone => ?_,
    fun _ => h.tls (List.cons_ne_nil k rest)⟩
  · rw [CoroutineState.bodyReturns, hcaller]
    rfl
  · have hne : j ≠ k := fun hsame => hout (hsame ▸ hj)
    obtain ⟨hdone, hactive⟩ := h.unsuspended j (List.mem_cons_of_mem _ hj)
    exact ⟨(Function.update_of_ne hne _ _).trans hdone, hactive⟩
  · have hdone : Function.update s.isDone k true j = false := hdone
    have hne : j ≠ k := by
      rintro rfl
      rw [Function.update_self] at hdone
      cases hdone
    rw [Function.update_of_ne hne] at hdone
    exact h.suspended j (List.not_mem_cons_of_ne_of_not_mem hne hj) hdone

/-- One more switch was made. -/
theorem allSwitchesRight_append {switch : Switch} {P : Prop}
    (hswitches : u.switches = s.switches ++ [switch]) (hright : switch.Right ↔ P) :
    AllSwitchesRight u ↔ AllSwitchesRight s ∧ P := by
  rw [AllSwitchesRight, hswitches]
  simp only [AllSwitchesRight, List.mem_append, List.mem_singleton, or_imp, forall_and, forall_eq,
    hright]

/-- What a step from nested contexts does: it makes another right switch, or none, unless it is
misdirected. -/
structure StepsRight (s u : CoroutineState) (a : CoroutineAction) : Prop where
  right_iff : AllSwitchesRight u ↔ AllSwitchesRight s ∧ ¬ Misdirected s a
  nested : ¬ Misdirected s a → ∃ active, Nested u active

/-- A coroutine that is not done is active, or suspended. -/
theorem Nested.suspendedAt_iff {k : ℕ} (h : Nested s active) (hdone : s.isDone k = false) :
    s.suspendedAt k = some (s.ctx k) ↔ ¬ (s.isDone k = false ∧ s.suspendedAt k = none) := by
  by_cases hk : k ∈ active
  · have hactive := (h.unsuspended k hk).2
    simp [hactive, hdone]
  · have hsuspended := (h.suspended k hk hdone).1
    simp [hsuspended]

theorem Nested.stepsRight_resume {k : ℕ} (h : Nested s active) :
    StepsRight s (s.resume (innermost active) k) (.resume k) := by
  cases hdone : s.isDone k with
  | true =>
    have herror : s.resume (innermost active) k = { s with calls := s.calls + 1 } := if_pos hdone
    have hright : ¬ Misdirected s (.resume k) := fun h => by cases hdone.symm.trans h.1
    rw [herror]
    exact ⟨(and_iff_left hright).symm, fun _ => ⟨active, h.of_calls _⟩⟩
  | false =>
    have hswitches : (s.resume (innermost active) k).switches =
        s.switches ++ [.resumed k (s.suspendedAt k) (s.ctx k)] := by
      rw [CoroutineState.resume, if_neg (by simp [hdone])]
    refine ⟨allSwitchesRight_append hswitches (h.suspendedAt_iff hdone), fun hright => ?_⟩
    have hout : k ∉ active := fun hk => hright ⟨hdone, (h.unsuspended k hk).2⟩
    exact ⟨k :: active, h.resume hdone hout⟩

/-- The innermost coroutine goes back to the place behind the call that activated it. -/
theorem Nested.callerCtx {k : ℕ} {rest : List ℕ} (h : Nested s (k :: rest)) :
    (s.callerCtx k).isSome ∧ s.activatedFrom k = s.callerCtx k := by
  obtain ⟨⟨call, hcaller, hactivated⟩, -⟩ := h.linked
  rw [hcaller, hactivated]
  exact ⟨rfl, rfl⟩

theorem Nested.stepsRight_yield (h : Nested s active) :
    StepsRight s (s.yield (innermost active)) .yield := by
  cases htls : s.tls with
  | none =>
    have hright : ¬ Misdirected s .yield := by
      rintro ⟨co, hco, -⟩
      cases htls.symm.trans hco
    have herror : s.yield (innermost active) = { s with calls := s.calls + 1 } := by
      simp only [CoroutineState.yield, htls]
    rw [herror]
    exact ⟨(and_iff_left hright).symm, fun _ => ⟨active, h.of_calls _⟩⟩
  | some co =>
    have hswap : s.yield (innermost active) = s.swapToCaller (innermost active) co := by
      rw [CoroutineState.yield, htls]
    have hmisdirected : ¬ Misdirected s .yield ↔ innermost active = .co co := by
      simp [Misdirected, htls, h.running]
    rw [hswap]
    constructor
    · rw [hmisdirected]
      refine allSwitchesRight_append rfl ⟨fun hright => hright.1, fun hrunning => ⟨hrunning, ?_⟩⟩
      cases active with
      | nil => cases hrunning
      | cons k rest =>
        obtain rfl := Party.co.inj hrunning
        exact h.callerCtx
    · rw [hmisdirected]
      intro hrunning
      cases active with
      | nil => cases hrunning
      | cons k rest =>
        obtain rfl := Party.co.inj hrunning
        exact ⟨rest, h.swapToCaller⟩

theorem coroutineStep_stepsRight {a : CoroutineAction} (h : Nested s active)
    (hstep : coroutineStep s a = some u) : StepsRight s u a := by
  cases a with
  | resume k =>
    rw [coroutineStep, h.running] at hstep
    obtain rfl := Option.some.inj hstep
    exact h.stepsRight_resume
  | yield =>
    rw [coroutineStep, h.running] at hstep
    obtain rfl := Option.some.inj hstep
    exact h.stepsRight_yield
  | bodyReturns =>
    rw [coroutineStep, h.running] at hstep
    cases active with
    | nil => cases hstep
    | cons k rest =>
      obtain rfl := Option.some.inj hstep
      exact ⟨allSwitchesRight_append rfl (iff_of_true h.callerCtx id), fun _ =>
        ⟨rest, h.bodyReturns⟩⟩

theorem resume_switches (s : CoroutineState) (party : Party) (k : ℕ) :
    s.switches <+: (s.resume party k).switches := by
  rw [CoroutineState.resume]
  split
  · exact List.prefix_rfl
  · exact List.prefix_append _ _

theorem yield_switches (s : CoroutineState) (party : Party) :
    s.switches <+: (s.yield party).switches := by
  rw [CoroutineState.yield]
  split
  · exact List.prefix_rfl
  · exact List.prefix_append _ _

/-- A wrong switch stays on record. -/
theorem coroutineStep_switches {a : CoroutineAction} (hstep : coroutineStep s a = some u) :
    s.switches <+: u.switches := by
  cases a with
  | resume k =>
    obtain ⟨party, -, rfl⟩ := Option.map_eq_some_iff.mp hstep
    exact resume_switches s party k
  | yield =>
    obtain ⟨party, -, rfl⟩ := Option.map_eq_some_iff.mp hstep
    exact yield_switches s party
  | bodyReturns =>
    rw [coroutineStep] at hstep
    split at hstep
    next k hrunning =>
      obtain rfl := Option.some.inj hstep
      exact List.prefix_append _ _
    next => cases hstep

/-- Every switch of a run is right exactly as long as no party yields while the thread-local
pointer is at another coroutine, and none resumes a coroutine that is active. -/
theorem allSwitchesRight_iff (h : Run coroutineStep .init actions t) :
    AllSwitchesRight t ↔ Avoids coroutineStep Misdirected .init actions := by
  have hkept : ∀ s a u, coroutineStep s a = some u → AllSwitchesRight u → AllSwitchesRight s :=
    fun _ _ _ hstep hright switch hswitch =>
      hright switch ((coroutineStep_switches hstep).subset hswitch)
  refine h.good_iff_avoids (P := fun s => AllSwitchesRight s → ∃ active, Nested s active)
    (A := fun _ => True) ?_ ?_ (fun _ => ⟨[], nested_init⟩)
    (fun _ hswitch => absurd hswitch List.not_mem_nil) fun _ _ => trivial
  · intro s a u _ hprev hstep hright
    obtain ⟨active, hnested⟩ := hprev (hkept s a u hstep hright)
    have hsteps := coroutineStep_stepsRight hnested hstep
    exact hsteps.nested (hsteps.right_iff.mp hright).2
  · intro s a u _ hprev hstep
    by_cases hright : AllSwitchesRight s
    · obtain ⟨active, hnested⟩ := hprev hright
      exact (coroutineStep_stepsRight hnested hstep).right_iff
    · exact iff_of_false (fun hnow => hright (hkept s a u hstep hnow)) fun hboth => hright hboth.1

end Discipline

/-- The thread resumes a coroutine, which yields, resumes another one and returns when that one
has returned. -/
def yieldsFirst : List CoroutineAction :=
  [.resume 0, .yield, .resume 0, .resume 1, .bodyReturns, .bodyReturns]

/-- The thread resumes a coroutine, which resumes another one, and both yield. -/
def bothYield : List CoroutineAction := [.resume 0, .resume 1, .yield, .yield]

theorem allSwitchesRight_iff_yieldsFirst :
    Avoids coroutineStep Misdirected .init yieldsFirst := by
  obtain ⟨t, ht⟩ := Option.isSome_iff_exists.mp
    (by decide : (yieldsFirst.foldlM coroutineStep .init).isSome)
  have hswitches : (yieldsFirst.foldlM coroutineStep .init).map CoroutineState.switches =
      some [.resumed 0 (some (.entry 0)) (.entry 0),
        .yielded (.co 0) 0 (some (.behind .thread 0)) (some (.behind .thread 0)),
        .resumed 0 (some (.behind (.co 0) 1)) (.behind (.co 0) 1),
        .resumed 1 (some (.entry 1)) (.entry 1),
        .returned 1 (some (.behind (.co 0) 3)) (some (.behind (.co 0) 3)),
        .returned 0 (some (.behind .thread 2)) (some (.behind .thread 2))] := by decide
  rw [ht] at hswitches
  refine (allSwitchesRight_iff (run_iff.mpr ht)).mp fun switch hswitch => ?_
  rw [Option.some.inj hswitches] at hswitch
  revert switch
  simp [Switch.Right]

/-- The yield of the outer coroutine leads back to where the inner one yielded to. -/
theorem bothYield_wrong :
    ¬ ∀ (actions : List CoroutineAction) (t : CoroutineState),
      Run coroutineStep .init actions t → AllSwitchesRight t := by
  intro hall
  obtain ⟨t, ht⟩ := Option.isSome_iff_exists.mp
    (by decide : (bothYield.foldlM coroutineStep .init).isSome)
  have hlast : (bothYield.foldlM coroutineStep .init).bind (fun t => t.switches.getLast?) =
      some (.yielded (.co 0) 1 (some (.behind .thread 0)) (some (.behind (.co 0) 1))) := by decide
  rw [ht] at hlast
  have hright := hall _ t (run_iff.mpr ht) _ (List.mem_of_getLast? hlast)
  cases hright.1

end AbstractHttp.Concurrency
