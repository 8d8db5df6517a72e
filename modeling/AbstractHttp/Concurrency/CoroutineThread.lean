import AbstractHttp.Library.Schedule

/-!
# Coroutines on a thread of their own

Without `ucontext` a coroutine is a thread, and five flags that a mutex protects say whose turn it
is. An action is what a thread does from the lock, or from a return of a wait, to the unlock or the
next wait, or what it does without the lock in front of that. A wait may return at any time.
-/
namespace AbstractHttp.Concurrency
open Library

/-- The flags of `struct AbstractHttpCoroutine`. -/
structure CoroutineFlags where
  isDone : Bool
  shouldRun : Bool
  isStarted : Bool
  isExiting : Bool
  isReady : Bool
  deriving DecidableEq, Repr

/-- Where the resuming thread is: in its own code, in `abstract_http_coroutine_resume` in front of
the lock and in its two waits, in `abstract_http_coroutine_free` in front of the lock and in
`pthread_join`, and behind the end of it. -/
inductive CallerPlace where
  | running
  | resuming
  | awaitingReady
  | awaitingYield
  | freeing
  | joining
  | freed
  deriving DecidableEq, Repr

/-- Where the thread of the coroutine is: in `co_thread_func` in front of the lock and in its wait,
in the body, in `abstract_http_coroutine_yield` in front of the lock and in its wait, and behind
the body in front of the lock. -/
inductive ThreadPlace where
  | notCreated
  | starting
  | awaitingRun
  | body
  | yielding
  | suspended
  | finishing
  | terminated
  deriving DecidableEq, Repr

/-- The resuming thread waits. -/
def CallerPlace.blocked : CallerPlace → Bool
  | .awaitingReady => true
  | .awaitingYield => true
  | .joining => true
  | _ => false

/-- The body runs, up to the lock of the call at which it stops. -/
def ThreadPlace.executing : ThreadPlace → Bool
  | .body => true
  | .yielding => true
  | .finishing => true
  | _ => false

/-- What happens to the turn: a resume gives it to the body, the body yields or finishes, and the
resume returns success. -/
inductive TurnEvent where
  | activated
  | yielded
  | finished
  | returned
  deriving DecidableEq, Repr

/-- The flags, the two threads and what happened so far. -/
structure CoroutineThreads where
  flags : CoroutineFlags
  caller : CallerPlace
  thread : ThreadPlace
  history : List TurnEvent
  deriving DecidableEq

namespace CoroutineThreads

/-- The coroutine as `abstract_http_coroutine_init` makes it. -/
def init : CoroutineThreads := ⟨⟨false, false, false, false, false⟩, .running, .notCreated, []⟩

/-- The last loop of `abstract_http_coroutine_resume`. -/
def awaitYield (s : CoroutineThreads) : CoroutineThreads :=
  if s.flags.shouldRun && !s.flags.isDone then { s with caller := .awaitingYield }
  else { s with caller := .running, history := s.history ++ [.returned] }

/-- `co->should_run = 1` in `abstract_http_coroutine_resume`, and the rest of it. -/
def activate (s : CoroutineThreads) : CoroutineThreads :=
  awaitYield
    { s with
      flags := { s.flags with shouldRun := true }
      history := s.history ++ [.activated] }

/-- The first loop of `abstract_http_coroutine_resume`, and the rest of it. -/
def awaitReady (s : CoroutineThreads) : CoroutineThreads :=
  if !s.flags.isReady then { s with caller := .awaitingReady } else s.activate

/-- `abstract_http_coroutine_resume` from the lock on; `created` is whether `pthread_create`
succeeds. -/
def resume (s : CoroutineThreads) (created : Bool) : CoroutineThreads :=
  if !s.flags.isStarted then
    if created then
      awaitReady { s with flags := { s.flags with isStarted := true }, thread := .starting }
    else { s with caller := .running }
  else s.activate

/-- The loop of `co_thread_func`. -/
def awaitRun (s : CoroutineThreads) : CoroutineThreads :=
  { s with thread := if !s.flags.shouldRun then .awaitingRun else .body }

/-- `co_thread_func` from the lock on. -/
def coThreadFunc (s : CoroutineThreads) : CoroutineThreads :=
  awaitRun { s with flags := { s.flags with isReady := true } }

/-- The loop of `abstract_http_coroutine_yield`, and the rest of it. -/
def awaitResume (s : CoroutineThreads) : CoroutineThreads :=
  { s with
    thread :=
      if !s.flags.shouldRun && !s.flags.isExiting then .suspended
      else if s.flags.isExiting then .terminated
      else .body }

/-- `abstract_http_coroutine_yield` from the lock on. -/
def yield (s : CoroutineThreads) : CoroutineThreads :=
  awaitResume
    { s with
      flags := { s.flags with shouldRun := false }
      history := s.history ++ [.yielded] }

/-- The end of `co_thread_func` behind the body. -/
def finish (s : CoroutineThreads) : CoroutineThreads :=
  { s with
    flags := { s.flags with isDone := true, shouldRun := false }
    thread := .terminated
    history := s.history ++ [.finished] }

/-- `abstract_http_coroutine_free` from the lock on. -/
def free (s : CoroutineThreads) : CoroutineThreads :=
  { s with
    flags := { s.flags with shouldRun := true, isExiting := true }
    caller := .joining }

end CoroutineThreads

/-- The actions of the two threads. The calls read flags without the lock. -/
inductive ThreadAction where
  | callResume
  | resume (created : Bool)
  | callerWakes
  | callFree
  | free
  | joined
  | threadStarts
  | threadWakes
  | callYield
  | yield
  | bodyReturns
  | finish

/-- One action, where it is enabled. -/
def threadStep (s : CoroutineThreads) : ThreadAction → Option CoroutineThreads
  | .callResume =>
    if s.caller = .running then
      -- a coroutine that is done is an error
      some (if s.flags.isDone then s else { s with caller := .resuming })
    else none
  | .resume created => if s.caller = .resuming then some (s.resume created) else none
  | .callerWakes =>
    match s.caller with
    | .awaitingReady => some s.awaitReady
    | .awaitingYield => some s.awaitYield
    | _ => none
  | .callFree =>
    if s.caller = .running then
      some
        { s with
          caller :=
            if s.flags.isStarted && !s.flags.isDone then .freeing
            else if s.flags.isStarted then .joining
            else .freed }
    else none
  | .free => if s.caller = .freeing then some s.free else none
  | .joined =>
    if s.caller = .joining ∧ s.thread = .terminated then some { s with caller := .freed } else none
  | .threadStarts => if s.thread = .starting then some s.coThreadFunc else none
  | .threadWakes =>
    match s.thread with
    | .awaitingRun => some s.awaitRun
    | .suspended => some s.awaitResume
    | _ => none
  | .callYield => if s.thread = .body then some { s with thread := .yielding } else none
  | .yield => if s.thread = .yielding then some s.yield else none
  | .bodyReturns => if s.thread = .body then some { s with thread := .finishing } else none
  | .finish => if s.thread = .finishing then some s.finish else none

/-! Whose turn it is. -/

/-- An event may come behind the last one. -/
inductive Follows : Option TurnEvent → TurnEvent → Prop where
  | first : Follows none .activated
  | again : Follows (some .returned) .activated
  | yields : Follows (some .activated) .yielded
  | finishes : Follows (some .activated) .finished
  | returnsYielded : Follows (some .yielded) .returned
  | returnsFinished : Follows (some .finished) .returned

/-- The turn goes back and forth; the last event is given. -/
inductive Alternating : List TurnEvent → Option TurnEvent → Prop where
  | start : Alternating [] none
  | next {history : List TurnEvent} {last : Option TurnEvent} {event : TurnEvent} :
      Alternating history last → Follows last event → Alternating (history ++ [event]) (some event)

/-- The states that the flags and the two threads come to, with the last event of the turn. -/
inductive TurnPhase : CoroutineFlags → CallerPlace → ThreadPlace → Option TurnEvent → Prop where
  | fresh {caller : CallerPlace} :
      caller = .running ∨ caller = .resuming ∨ caller = .freed →
      TurnPhase ⟨false, false, false, false, false⟩ caller .notCreated none
  | starting : TurnPhase ⟨false, false, true, false, false⟩ .awaitingReady .starting none
  | ready : TurnPhase ⟨false, false, true, false, true⟩ .awaitingReady .awaitingRun none
  | released :
      TurnPhase ⟨false, true, true, false, true⟩ .awaitingYield .awaitingRun (some .activated)
  | executing {thread : ThreadPlace} : thread.executing = true →
      TurnPhase ⟨false, true, true, false, true⟩ .awaitingYield thread (some .activated)
  | yielded : TurnPhase ⟨false, false, true, false, true⟩ .awaitingYield .suspended (some .yielded)
  | suspended {caller : CallerPlace} :
      caller = .running ∨ caller = .resuming ∨ caller = .freeing →
      TurnPhase ⟨false, false, true, false, true⟩ caller .suspended (some .returned)
  | resumed : TurnPhase ⟨false, true, true, false, true⟩ .awaitingYield .suspended (some .activated)
  | exiting : TurnPhase ⟨false, true, true, true, true⟩ .joining .suspended (some .returned)
  | exited {caller : CallerPlace} : caller = .joining ∨ caller = .freed →
      TurnPhase ⟨false, true, true, true, true⟩ caller .terminated (some .returned)
  | finished : TurnPhase ⟨true, false, true, false, true⟩ .awaitingYield .terminated (some .finished)
  | done {caller : CallerPlace} : caller = .running ∨ caller = .joining ∨ caller = .freed →
      TurnPhase ⟨true, false, true, false, true⟩ caller .terminated (some .returned)

/-- The turn is where the flags say. -/
def InTurn (s : CoroutineThreads) : Prop :=
  ∃ last, Alternating s.history last ∧ TurnPhase s.flags s.caller s.thread last

section Steps

variable {s u : CoroutineThreads} {flags : CoroutineFlags} {caller : CallerPlace}
  {thread : ThreadPlace} {history : List TurnEvent} {actions : List ThreadAction}

theorem inTurn_iff : InTurn ⟨flags, caller, thread, history⟩ ↔
    ∃ last, Alternating history last ∧ TurnPhase flags caller thread last :=
  Iff.rfl

/-! One lemma for each section of the resuming thread. -/

theorem inTurn_callResume (h : InTurn ⟨flags, .running, thread, history⟩) :
    InTurn ⟨flags, if flags.isDone then .running else .resuming, thread, history⟩ := by
  obtain ⟨last, hhistory, hphase⟩ := inTurn_iff.mp h
  cases hphase with
  | fresh => exact ⟨_, hhistory, .fresh (.inr (.inl rfl))⟩
  | suspended => exact ⟨_, hhistory, .suspended (.inr (.inl rfl))⟩
  | done hcaller => exact ⟨_, hhistory, .done hcaller⟩
  | exited hcaller => exact absurd hcaller (by decide)

theorem inTurn_resume (h : InTurn ⟨flags, .resuming, thread, history⟩) (created : Bool) :
    InTurn (CoroutineThreads.resume ⟨flags, .resuming, thread, history⟩ created) := by
  obtain ⟨last, hhistory, hphase⟩ := inTurn_iff.mp h
  cases hphase with
  | fresh =>
    cases created with
    | true => exact ⟨_, hhistory, .starting⟩
    | false => exact ⟨_, hhistory, .fresh (.inl rfl)⟩
  | suspended => exact ⟨_, hhistory.next .again, .resumed⟩
  | exited hcaller => exact absurd hcaller (by decide)
  | done hcaller => exact absurd hcaller (by decide)

theorem inTurn_awaitReady (h : InTurn ⟨flags, .awaitingReady, thread, history⟩) :
    InTurn (CoroutineThreads.awaitReady ⟨flags, .awaitingReady, thread, history⟩) := by
  obtain ⟨last, hhistory, hphase⟩ := inTurn_iff.mp h
  cases hphase with
  | starting => exact ⟨_, hhistory, .starting⟩
  | ready => exact ⟨_, hhistory.next .first, .released⟩
  | fresh hcaller => exact absurd hcaller (by decide)
  | suspended hcaller => exact absurd hcaller (by decide)
  | exited hcaller => exact absurd hcaller (by decide)
  | done hcaller => exact absurd hcaller (by decide)

/-- The resume returns only where the body has given the turn back. -/
theorem inTurn_awaitYield (h : InTurn ⟨flags, .awaitingYield, thread, history⟩) :
    InTurn (CoroutineThreads.awaitYield ⟨flags, .awaitingYield, thread, history⟩) := by
  obtain ⟨last, hhistory, hphase⟩ := inTurn_iff.mp h
  cases hphase with
  | released => exact ⟨_, hhistory, .released⟩
  | executing hexecuting => exact ⟨_, hhistory, .executing hexecuting⟩
  | resumed => exact ⟨_, hhistory, .resumed⟩
  | yielded => exact ⟨_, hhistory.next .returnsYielded, .suspended (.inl rfl)⟩
  | finished => exact ⟨_, hhistory.next .returnsFinished, .done (.inl rfl)⟩
  | fresh hcaller => exact absurd hcaller (by decide)
  | suspended hcaller => exact absurd hcaller (by decide)
  | exited hcaller => exact absurd hcaller (by decide)
  | done hcaller => exact absurd hcaller (by decide)

theorem inTurn_callFree (h : InTurn ⟨flags, .running, thread, history⟩) :
    InTurn
      ⟨flags,
        if flags.isStarted && !flags.isDone then .freeing
        else if flags.isStarted then .joining
        else .freed, thread, history⟩ := by
  obtain ⟨last, hhistory, hphase⟩ := inTurn_iff.mp h
  cases hphase with
  | fresh => exact ⟨_, hhistory, .fresh (.inr (.inr rfl))⟩
  | suspended => exact ⟨_, hhistory, .suspended (.inr (.inr rfl))⟩
  | done => exact ⟨_, hhistory, .done (.inr (.inl rfl))⟩
  | exited hcaller => exact absurd hcaller (by decide)

theorem inTurn_free (h : InTurn ⟨flags, .freeing, thread, history⟩) :
    InTurn (CoroutineThreads.free ⟨flags, .freeing, thread, history⟩) := by
  obtain ⟨last, hhistory, hphase⟩ := inTurn_iff.mp h
  cases hphase with
  | suspended => exact ⟨_, hhistory, .exiting⟩
  | fresh hcaller => exact absurd hcaller (by decide)
  | exited hcaller => exact absurd hcaller (by decide)
  | done hcaller => exact absurd hcaller (by decide)

theorem inTurn_joined (h : InTurn ⟨flags, .joining, .terminated, history⟩) :
    InTurn ⟨flags, .freed, .terminated, history⟩ := by
  obtain ⟨last, hhistory, hphase⟩ := inTurn_iff.mp h
  cases hphase with
  | exited => exact ⟨_, hhistory, .exited (.inr rfl)⟩
  | done => exact ⟨_, hhistory, .done (.inr (.inr rfl))⟩

/-! And one for each section of the thread of the coroutine. -/

theorem inTurn_coThreadFunc (h : InTurn ⟨flags, caller, .starting, history⟩) :
    InTurn (CoroutineThreads.coThreadFunc ⟨flags, caller, .starting, history⟩) := by
  obtain ⟨last, hhistory, hphase⟩ := inTurn_iff.mp h
  cases hphase with
  | starting => exact ⟨_, hhistory, .ready⟩
  | executing hexecuting => exact absurd hexecuting (by decide)

/-- The body begins only where it was given the turn. -/
theorem inTurn_awaitRun (h : InTurn ⟨flags, caller, .awaitingRun, history⟩) :
    InTurn (CoroutineThreads.awaitRun ⟨flags, caller, .awaitingRun, history⟩) := by
  obtain ⟨last, hhistory, hphase⟩ := inTurn_iff.mp h
  cases hphase with
  | ready => exact ⟨_, hhistory, .ready⟩
  | released => exact ⟨_, hhistory, .executing rfl⟩
  | executing hexecuting => exact absurd hexecuting (by decide)

/-- It goes on only where it was given the turn, and where the coroutine is freed its thread ends. -/
theorem inTurn_awaitResume (h : InTurn ⟨flags, caller, .suspended, history⟩) :
    InTurn (CoroutineThreads.awaitResume ⟨flags, caller, .suspended, history⟩) := by
  obtain ⟨last, hhistory, hphase⟩ := inTurn_iff.mp h
  cases hphase with
  | yielded => exact ⟨_, hhistory, .yielded⟩
  | suspended hcaller => exact ⟨_, hhistory, .suspended hcaller⟩
  | resumed => exact ⟨_, hhistory, .executing rfl⟩
  | exiting => exact ⟨_, hhistory, .exited (.inl rfl)⟩
  | executing hexecuting => exact absurd hexecuting (by decide)

theorem inTurn_call {next : ThreadPlace} (hnext : next.executing = true)
    (h : InTurn ⟨flags, caller, .body, history⟩) : InTurn ⟨flags, caller, next, history⟩ := by
  obtain ⟨last, hhistory, hphase⟩ := inTurn_iff.mp h
  cases hphase with
  | executing => exact ⟨_, hhistory, .executing hnext⟩

theorem inTurn_yield (h : InTurn ⟨flags, caller, .yielding, history⟩) :
    InTurn (CoroutineThreads.yield ⟨flags, caller, .yielding, history⟩) := by
  obtain ⟨last, hhistory, hphase⟩ := inTurn_iff.mp h
  cases hphase with
  | executing => exact ⟨_, hhistory.next .yields, .yielded⟩

theorem inTurn_finish (h : InTurn ⟨flags, caller, .finishing, history⟩) :
    InTurn (CoroutineThreads.finish ⟨flags, caller, .finishing, history⟩) := by
  obtain ⟨last, hhistory, hphase⟩ := inTurn_iff.mp h
  cases hphase with
  | executing => exact ⟨_, hhistory.next .finishes, .finished⟩

theorem threadStep_inTurn {a : ThreadAction} (h : InTurn s) (hstep : threadStep s a = some u) :
    InTurn u := by
  obtain ⟨flags, caller, thread, history⟩ := s
  cases a with
  | callResume =>
    rw [threadStep, Option.ite_none_right_eq_some] at hstep
    obtain ⟨rfl, hu⟩ := hstep
    obtain rfl := Option.some.inj hu
    have hcalled := inTurn_callResume h
    split_ifs at hcalled ⊢
    · exact h
    · exact hcalled
  | resume created =>
    rw [threadStep, Option.ite_none_right_eq_some] at hstep
    obtain ⟨rfl, hu⟩ := hstep
    exact Option.some.inj hu ▸ inTurn_resume h created
  | callerWakes =>
    rw [threadStep] at hstep
    split at hstep
    next hcaller =>
      obtain rfl : caller = .awaitingReady := hcaller
      exact Option.some.inj hstep ▸ inTurn_awaitReady h
    next hcaller =>
      obtain rfl : caller = .awaitingYield := hcaller
      exact Option.some.inj hstep ▸ inTurn_awaitYield h
    next => cases hstep
  | callFree =>
    rw [threadStep, Option.ite_none_right_eq_some] at hstep
    obtain ⟨rfl, hu⟩ := hstep
    exact Option.some.inj hu ▸ inTurn_callFree h
  | free =>
    rw [threadStep, Option.ite_none_right_eq_some] at hstep
    obtain ⟨rfl, hu⟩ := hstep
    exact Option.some.inj hu ▸ inTurn_free h
  | joined =>
    rw [threadStep, Option.ite_none_right_eq_some] at hstep
    obtain ⟨⟨rfl, rfl⟩, hu⟩ := hstep
    exact Option.some.inj hu ▸ inTurn_joined h
  | threadStarts =>
    rw [threadStep, Option.ite_none_right_eq_some] at hstep
    obtain ⟨rfl, hu⟩ := hstep
    exact Option.some.inj hu ▸ inTurn_coThreadFunc h
  | threadWakes =>
    rw [threadStep] at hstep
    split at hstep
    next hthread =>
      obtain rfl : thread = .awaitingRun := hthread
      exact Option.some.inj hstep ▸ inTurn_awaitRun h
    next hthread =>
      obtain rfl : thread = .suspended := hthread
      exact Option.some.inj hstep ▸ inTurn_awaitResume h
    next => cases hstep
  | callYield =>
    rw [threadStep, Option.ite_none_right_eq_some] at hstep
    obtain ⟨rfl, hu⟩ := hstep
    exact Option.some.inj hu ▸ inTurn_call rfl h
  | yield =>
    rw [threadStep, Option.ite_none_right_eq_some] at hstep
    obtain ⟨rfl, hu⟩ := hstep
    exact Option.some.inj hu ▸ inTurn_yield h
  | bodyReturns =>
    rw [threadStep, Option.ite_none_right_eq_some] at hstep
    obtain ⟨rfl, hu⟩ := hstep
    exact Option.some.inj hu ▸ inTurn_call rfl h
  | finish =>
    rw [threadStep, Option.ite_none_right_eq_some] at hstep
    obtain ⟨rfl, hu⟩ := hstep
    exact Option.some.inj hu ▸ inTurn_finish h

theorem inTurn_of_run (h : Run threadStep .init actions s) : InTurn s :=
  h.invariant (P := InTurn) (A := fun _ => True) (fun _ _ _ _ hprev => threadStep_inTurn hprev)
    ⟨none, .start, .fresh (.inl rfl)⟩ fun _ _ => trivial

/-- The body yields and finishes only with a turn that it was given. -/
theorem Alternating.activated {back : TurnEvent} (h : Alternating history (some back))
    (hback : back = .yielded ∨ back = .finished) :
    ∃ earlier, history = earlier ++ [.activated, back] := by
  cases h with
  | @next before last _ hbefore hfollows =>
    obtain rfl : last = some .activated := by
      rcases hback with rfl | rfl <;> cases hfollows <;> rfl
    cases hbefore with
    | next => exact ⟨_, List.append_assoc _ _ _⟩

/-- A return stands behind what the body did with the turn that the resume gave it. -/
theorem Alternating.returned {last : Option TurnEvent} (h : Alternating history last)
    {before after : List TurnEvent} (hsplit : history = before ++ .returned :: after) :
    ∃ earlier back, before = earlier ++ [.activated, back] ∧
      (back = .yielded ∨ back = .finished) := by
  induction h generalizing after with
  | start => simp at hsplit
  | @next history last event hhistory hfollows ih =>
    rcases append_singleton_cut hsplit with ⟨-, rfl, rfl⟩ | ⟨after, -, hearlier⟩
    · cases hfollows with
      | returnsYielded =>
        obtain ⟨earlier, hearlier⟩ := hhistory.activated (.inl rfl)
        exact ⟨earlier, .yielded, hearlier, .inl rfl⟩
      | returnsFinished =>
        obtain ⟨earlier, hearlier⟩ := hhistory.activated (.inr rfl)
        exact ⟨earlier, .finished, hearlier, .inr rfl⟩
    · exact ih hearlier

/-- The caller's code and the body never run at the same time: while the body runs the caller waits
in a call, and a resume that gave the turn to the body returns success only after the body has
yielded or finished. A coroutine that is freed has no thread any more. -/
structure TurnsKept (s : CoroutineThreads) : Prop where
  blocked : s.thread.executing = true → s.caller.blocked = true
  returned : ∀ before after, s.history = before ++ .returned :: after →
    ∃ earlier back, before = earlier ++ [.activated, back] ∧ (back = .yielded ∨ back = .finished)
  freed : s.caller = .freed → s.thread = .notCreated ∨ s.thread = .terminated

/-- In every interleaving of the two threads, whenever their waits return. -/
theorem coroutine_turnsKept (h : Run threadStep .init actions s) : TurnsKept s := by
  obtain ⟨flags, caller, thread, history⟩ := s
  obtain ⟨last, hhistory, hphase⟩ := inTurn_iff.mp (inTurn_of_run h)
  refine ⟨fun hexecuting => ?_, fun before after => hhistory.returned, fun hfreed => ?_⟩
  · cases hphase with
    | executing => rfl
    | _ => cases hexecuting
  · obtain rfl : caller = .freed := hfreed
    cases hphase with
    | fresh => exact .inl rfl
    | exited => exact .inr rfl
    | done => exact .inr rfl
    | suspended hcaller => exact absurd hcaller (by decide)

end Steps

/-- The body yields once and is freed then; a wait of each thread returns too early. -/
def yieldsOnce : List ThreadAction :=
  [.callResume, .resume false, .callResume, .resume true, .callerWakes, .threadStarts, .threadWakes,
    .callerWakes, .threadWakes, .callYield, .callerWakes, .yield, .threadWakes, .callerWakes,
    .callFree, .free, .threadWakes, .joined]

theorem coroutine_turnsKept_yieldsOnce :
    ∃ s, Run threadStep .init yieldsOnce s ∧ s.caller = .freed ∧
      s.history = [.activated, .yielded, .returned] ∧ TurnsKept s := by
  obtain ⟨s, hs⟩ := Option.isSome_iff_exists.mp
    (by decide : (yieldsOnce.foldlM threadStep .init).isSome)
  have hend : (yieldsOnce.foldlM threadStep .init).map (fun s => (s.caller, s.history)) =
      some (.freed, [.activated, .yielded, .returned]) := by
    decide
  rw [hs] at hend
  obtain ⟨hcaller, hhistory⟩ := Prod.mk.inj (Option.some.inj hend)
  exact ⟨s, run_iff.mpr hs, hcaller, hhistory, coroutine_turnsKept (run_iff.mpr hs)⟩

end AbstractHttp.Concurrency
