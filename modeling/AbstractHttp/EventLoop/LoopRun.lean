import AbstractHttp.EventLoop.Dispatch
import AbstractHttp.EventLoop.SelectTimeout

/-!
# Whole runs of the event loop

`http_loop_run` on a loop without hooks, with its timers and its descriptors, while any threads
ask it to stop or wake it up. They do so at any time: `http_loop_stop` first sets the flag and
then writes to the pipe that `select` watches. The loop itself belongs to one thread, and only its
callbacks, or its owner while it does not run, add and remove timers and descriptors. A callback
that runs the loop in its turn is left out here.
-/
namespace AbstractHttp.EventLoop
open Library

variable {τ : Type*}

/-- Where the thread of the loop is in `http_loop_run`: at the condition of the while loop, in
`process_timers`, between the second look at the flag and `select`, in `select` since the clock
was read, at the pipe, or in the scan of the descriptors. -/
inductive RunPhase where
  | outside
  | condition
  | timers
  | setup
  | selecting (timeout : Option Timeval) (now : ℤ)
  | draining (ready : FdSets)
  | dispatching
  deriving DecidableEq

/-- What `select` returns: an error, such as a signal, or no descriptor in time, or some. -/
inductive SelectResult where
  | failed
  | timedOut
  | ready (sets : FdSets)

/-- `struct ModalityEventLoop` without hooks, the bytes in the wakeup pipe, and the threads that
have set the flag in `http_loop_stop` but not written to the pipe. -/
structure RunState (τ : Type*) where
  timers : TimerState ℕ
  fds : DispatchState
  stopRequested : Bool
  running : Bool
  wakeups : ℕ
  stopping : τ → Bool
  phase : RunPhase

/-- The loop as `http_loop_init` makes it. -/
def RunState.init : RunState τ := ⟨.init, .init, false, false, 0, fun _ => false, .outside⟩

inductive RunAction (τ : Type*) where
  | enter
  | condition (now : ℤ)
  | timer (action : TimerAction ℕ)
  | timersDone
  | prepare (now : ℤ)
  | select (result : SelectResult)
  | drain
  | fd (action : DispatchAction)
  | scanned
  | stopFlag (t : τ)
  | stopWakeup (t : τ)
  | wakeup

def RunAction.isSelect : RunAction τ → Bool
  | .select _ => true
  | _ => false

namespace RunState

/-- A callback runs, or the loop does not. -/
def callable (s : RunState τ) : Bool :=
  match s.phase with
  | .outside => true
  | .timers =>
    match s.timers.phase with
    | .inCallback _ => true
    | _ => false
  | .dispatching =>
    match s.fds.phase with
    | .inCallback _ _ => true
    | _ => false
  | _ => false

/-- The end of `http_loop_run`. -/
def leave (s : RunState τ) : RunState τ := { s with running := false, phase := .outside }

/-- `http_loop_wakeup`; where the pipe is full, the write fails and a byte is there already. -/
def wakeup (pipeSize : ℕ+) (s : RunState τ) : RunState τ :=
  { s with wakeups := if s.wakeups < pipeSize then s.wakeups + 1 else s.wakeups }

/-- The state with another heap. -/
def withTimers (s : RunState τ) (timers : Array (TimerNode ℕ)) : RunState τ :=
  { s with timers := { s.timers with loop := { s.timers.loop with timers := timers } } }

/-- From "Calculate next timeout" to the call of `select`. -/
def prepare (s : RunState τ) (now : ℤ) : RunState τ :=
  let next := calculateNextTimeout s.timers.loop.timers now
  match waitFor s.fds.active.length next.1 next.2 with
  | .nothingToDo => (s.withTimers next.1).leave
  | .select timeout => { s.withTimers next.1 with phase := .selecting timeout now }

/-- The descriptors of the loop that are ready besides its pipe. -/
def others (wakeupPipe : ℤ) (ready : FdSets) : List ℤ :=
  ready.read.filter (· ≠ wakeupPipe) ++ ready.write ++ ready.error

/-- `if (ret > 0)`: the scan, or the next iteration. -/
def dispatch (wakeupPipe : ℤ) (s : RunState τ) (ready : FdSets) : RunState τ :=
  if others wakeupPipe ready = [] then { s with phase := .condition }
  else { s with fds := s.fds.select wakeupPipe ready, phase := .dispatching }

end RunState

/-- What `select` can return: the pipe is readable exactly when it is not empty, and the time is
not over while a descriptor is ready. -/
def SelectResult.Possible (wakeupPipe : ℤ) (s : RunState τ) (timeout : Option Timeval) :
    SelectResult → Prop
  | .failed => True
  | .timedOut => timeout ≠ none ∧ s.wakeups = 0
  | .ready sets => sets.Within (s.fds.loop.fdSets wakeupPipe) ∧
      (wakeupPipe ∈ sets.read ↔ 0 < s.wakeups) ∧ sets ≠ ⟨[], [], []⟩

instance (wakeupPipe : ℤ) (s : RunState τ) (timeout : Option Timeval) (result : SelectResult) :
    Decidable (result.Possible wakeupPipe s timeout) := by
  cases result <;> unfold SelectResult.Possible <;> infer_instance

/-- `select` returns. -/
def RunState.selected (wakeupPipe : ℤ) (s : RunState τ) : SelectResult → RunState τ
  | .failed => { s with phase := .condition }
  | .timedOut => { s with phase := .condition }
  | .ready sets =>
    if wakeupPipe ∈ sets.read then { s with phase := .draining sets }
    else s.dispatch wakeupPipe sets

/-- One action, where it is enabled. -/
def runStep [DecidableEq τ] (wakeupPipe : ℤ) (pipeSize : ℕ+) (s : RunState τ) :
    RunAction τ → Option (RunState τ)
  | .enter =>
    if s.phase = .outside then
      some { s with running := true, stopRequested := false, phase := .condition }
    else none
  | .condition now =>
    if s.phase = .condition then
      if s.stopRequested then some s.leave
      else (timerStep s.timers (.processTimers now)).map fun timers =>
        { s with timers := timers, phase := .timers }
    else none
  | .timer action =>
    match action with
    | .processTimers _ => none
    | .round | .callbackReturns =>
      if s.phase = .timers then
        (timerStep s.timers action).map fun timers => { s with timers := timers }
      else none
    | .addTimer _ _ _ _ | .cancelTimer _ =>
      if s.callable then
        (timerStep s.timers action).map fun timers => { s with timers := timers }
      else none
  | .timersDone =>
    if s.phase = .timers ∧ s.timers.phase = .idle then
      if s.stopRequested then some s.leave else some { s with phase := .setup }
    else none
  | .prepare now => if s.phase = .setup then some (s.prepare now) else none
  | .select result =>
    match s.phase with
    | .selecting timeout _ =>
      -- the sets were made with `FD_SET`, which has a bound of its own
      if (s.fds.loop.fdSets wakeupPipe).Fits ∧ result.Possible wakeupPipe s timeout then
        some (s.selected wakeupPipe result)
      else none
    | _ => none
  | .drain =>
    match s.phase with
    | .draining ready =>
      if s.wakeups > 0 then some { s with wakeups := s.wakeups - min 64 s.wakeups }
      else some (s.dispatch wakeupPipe ready)
    | _ => none
  | .fd action =>
    match action with
    | .select _ => none
    | .scan | .callbackReturns =>
      if s.phase = .dispatching then
        (dispatchStep wakeupPipe s.fds action).map fun fds => { s with fds := fds }
      else none
    | .addFd _ _ _ | .modFd _ _ | .removeFd _ =>
      if s.callable then
        (dispatchStep wakeupPipe s.fds action).map fun fds => { s with fds := fds }
      else none
  | .scanned =>
    if s.phase = .dispatching ∧ s.fds.phase = .idle then some { s with phase := .condition }
    else none
  | .stopFlag t =>
    if s.stopping t then none
    else some { s with stopRequested := true, stopping := Function.update s.stopping t true }
  | .stopWakeup t =>
    if s.stopping t then
      some { s.wakeup pipeSize with stopping := Function.update s.stopping t false }
    else none
  | .wakeup => some (s.wakeup pipeSize)

section Fields

variable (wakeupPipe : ℤ)

theorem prepare_fields (s : RunState τ) (now : ℤ) :
    (s.prepare now).stopRequested = s.stopRequested ∧ (s.prepare now).wakeups = s.wakeups ∧
      (s.prepare now).stopping = s.stopping ∧ (s.prepare now).fds = s.fds := by
  unfold RunState.prepare
  dsimp only
  split <;> exact ⟨rfl, rfl, rfl, rfl⟩

/-- The scan, or the next iteration, is what follows `select`. -/
theorem dispatch_phase (s : RunState τ) (ready : FdSets) :
    (s.dispatch wakeupPipe ready).phase = .condition ∨
      (s.dispatch wakeupPipe ready).phase = .dispatching := by
  rw [RunState.dispatch]
  split
  · exact .inl rfl
  · exact .inr rfl

theorem dispatch_fields (s : RunState τ) (ready : FdSets) :
    (s.dispatch wakeupPipe ready).stopRequested = s.stopRequested ∧
      (s.dispatch wakeupPipe ready).timers = s.timers := by
  rw [RunState.dispatch]
  split <;> exact ⟨rfl, rfl⟩

theorem selected_fields (s : RunState τ) (result : SelectResult) :
    (s.selected wakeupPipe result).stopRequested = s.stopRequested ∧
      (s.selected wakeupPipe result).timers = s.timers := by
  cases result with
  | failed => exact ⟨rfl, rfl⟩
  | timedOut => exact ⟨rfl, rfl⟩
  | ready sets =>
    rw [RunState.selected]
    split
    · exact ⟨rfl, rfl⟩
    · exact dispatch_fields wakeupPipe s sets

theorem wakeup_pos (pipeSize : ℕ+) (s : RunState τ) : 0 < (s.wakeup pipeSize).wakeups := by
  have hsize := pipeSize.pos
  rw [RunState.wakeup]
  dsimp only
  split_ifs with hroom
  · exact Nat.succ_pos _
  · omega

end Fields

/-- All that an action can do. -/
inductive RunMoves [DecidableEq τ] (wakeupPipe : ℤ) (pipeSize : ℕ+) (s : RunState τ) :
    RunAction τ → RunState τ → Prop where
  | enter : s.phase = .outside → RunMoves wakeupPipe pipeSize s .enter
      { s with running := true, stopRequested := false, phase := .condition }
  | stops {a : RunAction τ} : (a = .timersDone ∨ ∃ now, a = .condition now) →
      s.stopRequested = true → (s.phase = .timers → s.timers.phase = .idle) →
      RunMoves wakeupPipe pipeSize s a s.leave
  | condition {now : ℤ} {timers : TimerState ℕ} : s.stopRequested = false →
      timerStep s.timers (.processTimers now) = some timers →
      RunMoves wakeupPipe pipeSize s (.condition now) { s with timers := timers, phase := .timers }
  | timer {action : TimerAction ℕ} {timers : TimerState ℕ} :
      timerStep s.timers action = some timers → (s.phase = .timers ∨ s.callable = true) →
      (∀ now, action ≠ .processTimers now) →
      RunMoves wakeupPipe pipeSize s (.timer action) { s with timers := timers }
  | timersDone : s.timers.phase = .idle → s.stopRequested = false →
      RunMoves wakeupPipe pipeSize s .timersDone { s with phase := .setup }
  | prepare {now : ℤ} : s.phase = .setup →
      RunMoves wakeupPipe pipeSize s (.prepare now) (s.prepare now)
  | select {timeout : Option Timeval} {now : ℤ} {result : SelectResult} :
      s.phase = .selecting timeout now → result.Possible wakeupPipe s timeout →
      (s.fds.loop.fdSets wakeupPipe).Fits →
      RunMoves wakeupPipe pipeSize s (.select result) (s.selected wakeupPipe result)
  | drain {ready : FdSets} : s.phase = .draining ready →
      RunMoves wakeupPipe pipeSize s .drain { s with wakeups := s.wakeups - min 64 s.wakeups }
  | drained {ready : FdSets} : s.phase = .draining ready →
      RunMoves wakeupPipe pipeSize s .drain (s.dispatch wakeupPipe ready)
  | fd {action : DispatchAction} {fds : DispatchState} :
      dispatchStep wakeupPipe s.fds action = some fds →
      (s.phase = .dispatching ∨ s.callable = true) →
      RunMoves wakeupPipe pipeSize s (.fd action) { s with fds := fds }
  | scanned : s.phase = .dispatching →
      RunMoves wakeupPipe pipeSize s .scanned { s with phase := .condition }
  | stopFlag (t : τ) : RunMoves wakeupPipe pipeSize s (.stopFlag t)
      { s with stopRequested := true, stopping := Function.update s.stopping t true }
  | stopWakeup (t : τ) : RunMoves wakeupPipe pipeSize s (.stopWakeup t)
      { s.wakeup pipeSize with stopping := Function.update s.stopping t false }
  | wakeup : RunMoves wakeupPipe pipeSize s .wakeup (s.wakeup pipeSize)

section Steps

variable [DecidableEq τ] {wakeupPipe : ℤ} {pipeSize : ℕ+} {s u : RunState τ} {a : RunAction τ}

theorem runStep_timer_moves {action : TimerAction ℕ}
    (h : runStep wakeupPipe pipeSize s (.timer action) = some u) :
    RunMoves wakeupPipe pipeSize s (.timer action) u := by
  cases action with
  | processTimers now => cases h
  | round =>
    obtain ⟨hphase, h⟩ := Option.ite_none_right_eq_some.mp h
    obtain ⟨timers, hstep, rfl⟩ := Option.map_eq_some_iff.mp h
    exact .timer hstep (.inl hphase) (by simp)
  | callbackReturns =>
    obtain ⟨hphase, h⟩ := Option.ite_none_right_eq_some.mp h
    obtain ⟨timers, hstep, rfl⟩ := Option.map_eq_some_iff.mp h
    exact .timer hstep (.inl hphase) (by simp)
  | addTimer timeoutMs clock cb granted =>
    obtain ⟨hcallable, h⟩ := Option.ite_none_right_eq_some.mp h
    obtain ⟨timers, hstep, rfl⟩ := Option.map_eq_some_iff.mp h
    exact .timer hstep (.inr hcallable) (by simp)
  | cancelTimer timerId =>
    obtain ⟨hcallable, h⟩ := Option.ite_none_right_eq_some.mp h
    obtain ⟨timers, hstep, rfl⟩ := Option.map_eq_some_iff.mp h
    exact .timer hstep (.inr hcallable) (by simp)

theorem runStep_fd_moves {action : DispatchAction}
    (h : runStep wakeupPipe pipeSize s (.fd action) = some u) :
    RunMoves wakeupPipe pipeSize s (.fd action) u := by
  cases action with
  | select ready => cases h
  | scan =>
    obtain ⟨hphase, h⟩ := Option.ite_none_right_eq_some.mp h
    obtain ⟨fds, hstep, rfl⟩ := Option.map_eq_some_iff.mp h
    exact .fd hstep (.inl hphase)
  | callbackReturns =>
    obtain ⟨hphase, h⟩ := Option.ite_none_right_eq_some.mp h
    obtain ⟨fds, hstep, rfl⟩ := Option.map_eq_some_iff.mp h
    exact .fd hstep (.inl hphase)
  | addFd fd events granted =>
    obtain ⟨hcallable, h⟩ := Option.ite_none_right_eq_some.mp h
    obtain ⟨fds, hstep, rfl⟩ := Option.map_eq_some_iff.mp h
    exact .fd hstep (.inr hcallable)
  | modFd fd events =>
    obtain ⟨hcallable, h⟩ := Option.ite_none_right_eq_some.mp h
    obtain ⟨fds, hstep, rfl⟩ := Option.map_eq_some_iff.mp h
    exact .fd hstep (.inr hcallable)
  | removeFd fd =>
    obtain ⟨hcallable, h⟩ := Option.ite_none_right_eq_some.mp h
    obtain ⟨fds, hstep, rfl⟩ := Option.map_eq_some_iff.mp h
    exact .fd hstep (.inr hcallable)

theorem runStep_moves (h : runStep wakeupPipe pipeSize s a = some u) :
    RunMoves wakeupPipe pipeSize s a u := by
  cases a with
  | enter =>
    obtain ⟨hphase, h⟩ := Option.ite_none_right_eq_some.mp h
    obtain rfl := Option.some.inj h
    exact .enter hphase
  | condition now =>
    obtain ⟨hphase, h⟩ := Option.ite_none_right_eq_some.mp h
    split_ifs at h with hstop
    · obtain rfl := Option.some.inj h
      exact .stops (.inr ⟨now, rfl⟩) hstop fun htimers => by simp [hphase] at htimers
    · obtain ⟨timers, hstep, rfl⟩ := Option.map_eq_some_iff.mp h
      exact .condition (Bool.not_eq_true _ ▸ hstop) hstep
  | timer action => exact runStep_timer_moves h
  | timersDone =>
    obtain ⟨⟨hphase, hidle⟩, h⟩ := Option.ite_none_right_eq_some.mp h
    split_ifs at h with hstop
    · obtain rfl := Option.some.inj h
      exact .stops (.inl rfl) hstop fun _ => hidle
    · obtain rfl := Option.some.inj h
      exact .timersDone hidle (Bool.not_eq_true _ ▸ hstop)
  | prepare now =>
    obtain ⟨hphase, h⟩ := Option.ite_none_right_eq_some.mp h
    obtain rfl := Option.some.inj h
    exact .prepare hphase
  | select result =>
    rw [runStep] at h
    split at h
    next timeout now hphase =>
      obtain ⟨⟨hfits, hpossible⟩, h⟩ := Option.ite_none_right_eq_some.mp h
      obtain rfl := Option.some.inj h
      exact .select hphase hpossible hfits
    next => cases h
  | drain =>
    rw [runStep] at h
    split at h
    next ready hphase =>
      split_ifs at h with hbytes
      · obtain rfl := Option.some.inj h
        exact .drain hphase
      · obtain rfl := Option.some.inj h
        exact .drained hphase
    next => cases h
  | fd action => exact runStep_fd_moves h
  | scanned =>
    obtain ⟨⟨hphase, -⟩, h⟩ := Option.ite_none_right_eq_some.mp h
    obtain rfl := Option.some.inj h
    exact .scanned hphase
  | stopFlag t =>
    rw [runStep] at h
    split_ifs at h
    obtain rfl := Option.some.inj h
    exact .stopFlag t
  | stopWakeup t =>
    obtain ⟨-, h⟩ := Option.ite_none_right_eq_some.mp h
    obtain rfl := Option.some.inj h
    exact .stopWakeup t
  | wakeup =>
    obtain rfl := Option.some.inj h
    exact .wakeup

end Steps

/-! ## Requests to stop -/

/-- The loop has looked at the flag, and `select` has not returned yet. -/
def RunPhase.waiting : RunPhase → Bool
  | .setup => true
  | .selecting _ _ => true
  | _ => false

/-- A request that the loop has overlooked has left a byte in the pipe, or is about to. -/
def StopHeard (s : RunState τ) : Prop :=
  s.phase.waiting = true → s.stopRequested = true → 0 < s.wakeups ∨ ∃ t, s.stopping t = true

theorem selected_not_waiting (wakeupPipe : ℤ) (s : RunState τ) (result : SelectResult) :
    (s.selected wakeupPipe result).phase.waiting = false := by
  cases result with
  | failed => rfl
  | timedOut => rfl
  | ready sets =>
    rw [RunState.selected]
    split
    · rfl
    · rcases dispatch_phase wakeupPipe s sets with h | h <;> rw [h] <;> rfl

section Stop

variable [DecidableEq τ] {wakeupPipe : ℤ} {pipeSize : ℕ+} {s u : RunState τ} {a : RunAction τ}

/-- The loop comes to wait only where it saw no request, and it stops waiting in `select` only. -/
theorem RunMoves.waiting (h : RunMoves wakeupPipe pipeSize s a u)
    (hwaiting : u.phase.waiting = true) :
    (∀ result, a ≠ .select result) ∧ (s.phase.waiting = true ∨ u.stopRequested = false) := by
  cases h with
  | enter => cases hwaiting
  | stops => cases hwaiting
  | condition => cases hwaiting
  | timer => exact ⟨by simp, .inl hwaiting⟩
  | timersDone hidle hstop => exact ⟨by simp, .inr hstop⟩
  | prepare hphase => exact ⟨by simp, .inl (by rw [hphase]; rfl)⟩
  | select =>
    rw [selected_not_waiting] at hwaiting
    cases hwaiting
  | drain => exact ⟨by simp, .inl hwaiting⟩
  | @drained ready =>
    rcases dispatch_phase wakeupPipe s ready with hphase | hphase <;>
      rw [hphase] at hwaiting <;> cases hwaiting
  | fd => exact ⟨by simp, .inl hwaiting⟩
  | scanned => cases hwaiting
  | stopFlag => exact ⟨by simp, .inl hwaiting⟩
  | stopWakeup => exact ⟨by simp, .inl hwaiting⟩
  | wakeup => exact ⟨by simp, .inl hwaiting⟩

theorem RunMoves.stopHeard (h : RunMoves wakeupPipe pipeSize s a u) (hheard : StopHeard s) :
    StopHeard u := by
  intro hwaiting hstop
  obtain ⟨-, hbefore⟩ := h.waiting hwaiting
  have hwas : s.phase.waiting = true := hbefore.resolve_right (by simp [hstop])
  cases h with
  | enter => cases hwaiting
  | stops => cases hwaiting
  | condition => cases hwaiting
  | timer => exact hheard hwas hstop
  | timersDone hidle hno => rw [hno] at hstop; cases hstop
  | prepare =>
    obtain ⟨hflag, hwakeups, hstopping, -⟩ := prepare_fields s _
    rw [hwakeups, hstopping]
    exact hheard hwas (hflag ▸ hstop)
  | select =>
    rw [selected_not_waiting] at hwaiting
    cases hwaiting
  | drain hphase => rw [hphase] at hwas; cases hwas
  | drained hphase => rw [hphase] at hwas; cases hwas
  | fd => exact hheard hwas hstop
  | scanned => cases hwaiting
  | stopFlag t => exact .inr ⟨t, Function.update_self t true s.stopping⟩
  | stopWakeup t => exact .inl (wakeup_pos pipeSize s)
  | wakeup => exact .inl (wakeup_pos pipeSize s)

/-- Only a new call of `http_loop_run` forgets a request. -/
theorem RunMoves.stopRequested (h : RunMoves wakeupPipe pipeSize s a u) (ha : a ≠ .enter)
    (hstop : s.stopRequested = true) : u.stopRequested = true := by
  cases h with
  | enter => exact absurd rfl ha
  | prepare => rw [(prepare_fields s _).1, hstop]
  | select => rw [(selected_fields wakeupPipe s _).1, hstop]
  | drained => rw [(dispatch_fields wakeupPipe s _).1, hstop]
  | stopFlag => rfl
  | _ => exact hstop

/-- After a request the loop uses up the one `select` that it may be in front of. -/
theorem RunMoves.selects (h : RunMoves wakeupPipe pipeSize s a u)
    (hstop : u.stopRequested = true) :
    a.isSelect.toNat + u.phase.waiting.toNat ≤ s.phase.waiting.toNat := by
  cases hwaiting : u.phase.waiting with
  | true =>
    obtain ⟨hselect, hbefore⟩ := h.waiting hwaiting
    have hnot : a.isSelect = false := by
      cases a with
      | select result => exact absurd rfl (hselect result)
      | _ => rfl
    rw [hnot, hbefore.resolve_right (by simp [hstop])]
    exact Nat.le_refl 1
  | false =>
    cases h with
    | select hphase =>
      rw [hphase]
      exact Nat.le_refl 1
    | stops ha => rcases ha with rfl | ⟨now, rfl⟩ <;> exact Nat.zero_le _
    | _ => exact Nat.zero_le _

end Stop

/-- A loop with one descriptor that is asked to stop after it has looked at the flag. -/
def stoppedLate : List (RunAction Unit) :=
  [.fd (.addFd 5 1 true), .enter, .condition 0, .timer .round, .timersDone, .stopFlag (),
    .prepare 0, .stopWakeup ()]

/-- It wakes up, empties the pipe and returns. -/
def stoppedLateReturns : List (RunAction Unit) :=
  [.select (.ready ⟨[3], [], []⟩), .drain, .drain, .condition 1]

end AbstractHttp.EventLoop
