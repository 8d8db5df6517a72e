import AbstractHttp.EventLoop.LoopRun

/-!
# When the event loop sleeps and when it returns

In every state of a run `select` waits for what the active timers and descriptors of that very
state ask for. Without a request to stop, `http_loop_run` returns only when nothing is left:
no descriptor is registered, and every timer was cancelled or has been called back.
-/
namespace AbstractHttp.EventLoop
open Library

variable {τ β : Type*}

/-! ## Timers -/

section Pruned

/-- The heap before `select`. -/
def TimerState.pruned (s : TimerState β) : TimerState β :=
  { s with loop := { s.loop with timers := pruneInactive s.loop.timers } }

theorem HeapKept.pruned {s : TimerState β} (h : HeapKept s) : HeapKept s.pruned := by
  generalize htimers : s.loop.timers = timers
  induction timers using pruneInactive.induct generalizing s with
  | case1 timers hsize hactive =>
    subst htimers
    rw [TimerState.pruned, pruneInactive, dif_pos hsize, if_pos hactive]
    exact h
  | case2 timers hsize hinactive ih =>
    subst htimers
    rw [TimerState.pruned, pruneInactive, dif_pos hsize, if_neg hinactive]
    exact ih (prune_heapKept h (Array.getElem?_eq_getElem hsize)) rfl
  | case3 timers hsize =>
    subst htimers
    rw [TimerState.pruned, pruneInactive, dif_neg hsize]
    exact h

/-- What is dropped was cancelled or invoked. -/
theorem pruned_allSettled {s : TimerState β} (h : HeapKept s) (hsettled : s.AllSettled) :
    s.pruned.AllSettled := by
  intro timer hadded hcancelled hgone
  by_cases hnode : ∃ node ∈ s.nodes, node.timer = timer
  · obtain ⟨node, hmem, rfl⟩ := hnode
    by_contra hinvoked
    have hactive := (h.balanced.active node hmem).mpr ⟨hcancelled, hinvoked⟩
    exact hgone node ((mem_of_active hactive).mpr hmem) rfl
  · exact hsettled timer hadded hcancelled fun node hmem htimer => hnode ⟨node, hmem, htimer⟩

/-- How long to wait depends on the active timers only. -/
theorem WaitsForEarliest.congr {nodes nodes' : List (TimerNode β)} {now : ℤ} {activeFds : ℕ}
    {wait : Wait} (h : WaitsForEarliest nodes now activeFds wait)
    (hnodes : ∀ node, node.active = true → (node ∈ nodes' ↔ node ∈ nodes)) :
    WaitsForEarliest nodes' now activeFds wait := by
  have hearliest (e : ℤ) : Earliest nodes' e ↔ Earliest nodes e := by
    have hset : {time | ∃ node ∈ nodes', node.active = true ∧ node.expiration = time} =
        {time | ∃ node ∈ nodes, node.active = true ∧ node.expiration = time} := by
      ext time
      exact exists_congr fun node => ⟨fun ⟨hmem, hactive, htime⟩ =>
        ⟨(hnodes node hactive).mp hmem, hactive, htime⟩, fun ⟨hmem, hactive, htime⟩ =>
        ⟨(hnodes node hactive).mpr hmem, hactive, htime⟩⟩
    rw [Earliest, Earliest, hset]
  have hinactive : (∀ node ∈ nodes', node.active = false) ↔ ∀ node ∈ nodes, node.active = false := by
    refine forall_congr' fun node => ?_
    cases hactive : node.active with
    | false => simp
    | true => rw [hnodes node hactive]
  exact ⟨fun e he => h.finite e ((hearliest e).mp he), by rw [hinactive]; exact h.infinite,
    by rw [hinactive]; exact h.leaves, fun node hmem hactive =>
      h.notPast node ((hnodes node hactive).mp hmem) hactive⟩

end Pruned

/-! ## Runs -/

section Prepare

variable {s : RunState τ} {now : ℤ}

/-- Before `select` the loop finds nothing to wait for and returns, or waits for what there is. -/
theorem prepare_cases (h : HeapKept s.timers) (now : ℤ) :
    (s.prepare now).timers = s.timers.pruned ∧
      ((s.prepare now).phase = .outside ∧ (s.prepare now).running = false ∧
          s.fds.active = [] ∧ s.timers.pruned.nodes = [] ∨
        ∃ timeout, (s.prepare now).phase = .selecting timeout now ∧
          WaitsForEarliest s.timers.pruned.nodes now s.fds.active.length (.select timeout)) := by
  have hwaits : WaitsForEarliest s.timers.pruned.nodes now s.fds.active.length _ :=
    (waitFor_waitsForEarliest h.heap now s.fds.active.length).congr fun node hactive =>
      mem_of_active hactive
  have htimers : s.withTimers (calculateNextTimeout s.timers.loop.timers now).1 =
      { s with timers := s.timers.pruned } := by
    rw [calculateNextTimeout_timers]
    rfl
  have hempty := (waitFor_waitsForEarliest h.heap now s.fds.active.length).leaves
  rw [RunState.prepare]
  dsimp only
  rw [htimers]
  split
  next hnothing =>
    obtain ⟨hfds, hinactive⟩ := hempty.mp hnothing
    refine ⟨rfl, .inl ⟨rfl, rfl, List.eq_nil_of_length_eq_zero hfds, ?_⟩⟩
    refine List.eq_nil_of_length_eq_zero ?_
    exact (Array.length_toList).trans (pruneInactive_size_eq_zero.mpr hinactive)
  next timeout hselect =>
    rw [hselect] at hwaits
    exact ⟨rfl, .inr ⟨timeout, rfl, hwaits⟩⟩

end Prepare

/-- What holds between any two actions: the heap is right, timers fire in `process_timers` only,
and where the loop waits, it does so for the timers and descriptors that it has. -/
structure RunKept (s : RunState τ) : Prop where
  timers : HeapKept s.timers
  idle : s.phase ≠ .timers → s.timers.phase = .idle
  waits : ∀ timeout now, s.phase = .selecting timeout now →
    WaitsForEarliest s.timers.nodes now s.fds.active.length (.select timeout)

/-- A callback adds a timer that had expired before `process_timers` read the clock. -/
def RunAddsOverdue (s : RunState τ) (a : RunAction τ) : Prop :=
  ∃ action, a = .timer action ∧ AddsOverdue s.timers action

/-- As long as no timer was lost: the timer whose callback runs is at the root, and what is out of
the heap was cancelled or invoked. -/
structure RunSettled (s : RunState τ) : Prop where
  kept : RunKept s
  fired : RootFired s.timers
  settled : s.timers.AllSettled

section Waiting

variable {wakeupPipe : ℤ} {s : RunState τ}

/-- Nobody changes timers or descriptors while the loop waits. -/
theorem not_selecting_of_callable {timeout : Option Timeval} {now : ℤ}
    (h : s.phase = .timers ∨ s.phase = .dispatching ∨ s.callable = true) :
    s.phase ≠ .selecting timeout now := by
  intro hphase
  rcases h with h | h | h
  · rw [hphase] at h; cases h
  · rw [hphase] at h; cases h
  · rw [RunState.callable, hphase] at h; cases h

theorem selected_phase (s : RunState τ) (result : SelectResult) (timeout : Option Timeval)
    (now : ℤ) : (s.selected wakeupPipe result).phase ≠ .selecting timeout now := by
  intro hphase
  have hnot := selected_not_waiting wakeupPipe s result
  rw [hphase] at hnot
  cases hnot

theorem dispatch_not_selecting (s : RunState τ) (ready : FdSets) (timeout : Option Timeval)
    (now : ℤ) : (s.dispatch wakeupPipe ready).phase ≠ .selecting timeout now := by
  rcases dispatch_phase wakeupPipe s ready with h | h <;> rw [h] <;> simp

theorem runKept_init : RunKept (RunState.init : RunState τ) := by
  refine ⟨⟨balanced_init, fun i hi => ?_⟩, fun _ => rfl, by simp [RunState.init]⟩
  cases hi

end Waiting

section Runs

variable [DecidableEq τ] {wakeupPipe : ℤ} {pipeSize : ℕ+} {s u : RunState τ} {a : RunAction τ}

/-- Adding and cancelling a timer does not start a pass. -/
theorem timerStep_idle {t t' : TimerState β} {action : TimerAction β}
    (h : timerStep t action = some t') (hidle : t.phase = .idle)
    (haction : ∀ now, action ≠ .processTimers now) : t'.phase = .idle := by
  cases timerStep_moves h with
  | addTimer timeoutMs clock cb granted =>
    unfold TimerState.addTimer
    split <;> exact hidle
  | cancelTimer timerId =>
    rw [TimerState.cancelTimer]
    split <;> exact hidle
  | processTimers now => exact absurd rfl (haction now)
  | round hphase => rw [hidle] at hphase; cases hphase
  | callbackReturns hphase => rw [hidle] at hphase; cases hphase

theorem RunMoves.kept (h : RunMoves wakeupPipe pipeSize s a u) (hkept : RunKept s) :
    RunKept u := by
  have hidle := hkept.idle
  cases h with
  | enter hphase => exact ⟨hkept.timers, fun _ => hidle (by simp [hphase]), by simp⟩
  | stops hselect hstop hdone =>
    refine ⟨hkept.timers, fun _ => ?_, by simp [RunState.leave]⟩
    by_cases hphase : s.phase = .timers
    · exact hdone hphase
    · exact hidle hphase
  | condition hstop hstep =>
    exact ⟨timerStep_heapKept hkept.timers hstep, fun hphase => absurd rfl hphase, by simp⟩
  | timer hstep hturn haction =>
    have hnot (timeout : Option Timeval) (now : ℤ) : s.phase ≠ .selecting timeout now :=
      not_selecting_of_callable (hturn.imp_right .inr)
    exact ⟨timerStep_heapKept hkept.timers hstep,
      fun hphase => timerStep_idle hstep (hidle hphase) haction,
      fun timeout now hphase => absurd hphase (hnot timeout now)⟩
  | timersDone hdone => exact ⟨hkept.timers, fun _ => hdone, by simp⟩
  | @prepare now hphase =>
    obtain ⟨htimers, hcases⟩ := prepare_cases hkept.timers now
    refine ⟨htimers ▸ hkept.timers.pruned, fun _ => ?_, fun timeout now' hselecting => ?_⟩
    · rw [htimers]
      exact hidle (by simp [hphase])
    · obtain ⟨-, -, -, hfds⟩ := prepare_fields s now
      rcases hcases with ⟨houtside, -⟩ | ⟨timeout', hselecting', hwaits⟩
      · rw [houtside] at hselecting
        cases hselecting
      · obtain ⟨rfl, rfl⟩ := RunPhase.selecting.inj (hselecting'.symm.trans hselecting)
        rw [htimers, hfds]
        exact hwaits
  | select hphase =>
    obtain ⟨-, htimers⟩ := selected_fields wakeupPipe s _
    exact ⟨htimers ▸ hkept.timers, fun _ => htimers ▸ hidle (by simp [hphase]),
      fun timeout now hselecting => absurd hselecting (selected_phase s _ timeout now)⟩
  | drain hphase => exact ⟨hkept.timers, hidle, hkept.waits⟩
  | drained hphase =>
    obtain ⟨-, htimers⟩ := dispatch_fields wakeupPipe s _
    exact ⟨htimers ▸ hkept.timers, fun _ => htimers ▸ hidle (by simp [hphase]),
      fun timeout now hselecting => absurd hselecting (dispatch_not_selecting s _ timeout now)⟩
  | fd hstep hturn =>
    have hnot (timeout : Option Timeval) (now : ℤ) : s.phase ≠ .selecting timeout now :=
      not_selecting_of_callable (.inr hturn)
    exact ⟨hkept.timers, hidle, fun timeout now hphase => absurd hphase (hnot timeout now)⟩
  | scanned hphase => exact ⟨hkept.timers, fun _ => hidle (by simp [hphase]), by simp⟩
  | stopFlag t => exact ⟨hkept.timers, hidle, hkept.waits⟩
  | stopWakeup t => exact ⟨hkept.timers, hidle, hkept.waits⟩
  | wakeup => exact ⟨hkept.timers, hidle, hkept.waits⟩

/-- An action does nothing to the timers but a step of theirs, or drops inactive ones while no
callback of a timer runs. -/
theorem RunMoves.timers_cases (h : RunMoves wakeupPipe pipeSize s a u) (hkept : RunKept s) :
    u.timers = s.timers ∨ (∃ action, timerStep s.timers action = some u.timers ∧
      (a = .timer action ∨ ∃ now, action = .processTimers now)) ∨
        u.timers = s.timers.pruned ∧ s.timers.phase = .idle := by
  cases h with
  | condition hstop hstep => exact .inr (.inl ⟨_, hstep, .inr ⟨_, rfl⟩⟩)
  | timer hstep => exact .inr (.inl ⟨_, hstep, .inl rfl⟩)
  | prepare hphase =>
    exact .inr (.inr ⟨(prepare_cases hkept.timers _).1, hkept.idle (by simp [hphase])⟩)
  | select => exact .inl (selected_fields wakeupPipe s _).2
  | drained => exact .inl (dispatch_fields wakeupPipe s _).2
  | _ => exact .inl rfl

theorem RunMoves.phase_of_timer {action : TimerAction ℕ}
    (h : RunMoves wakeupPipe pipeSize s (.timer action) u) : u.phase = s.phase := by
  cases h with
  | stops ha => simp at ha
  | timer => rfl

theorem not_addsOverdue_processTimers {t : TimerState β} (now : ℤ) :
    ¬ AddsOverdue t (.processTimers now) := by
  rintro ⟨_, _, _, _, _, -, haction, -⟩
  cases haction

theorem RunMoves.settled (h : RunMoves wakeupPipe pipeSize s a u) (hnot : ¬ RunAddsOverdue s a)
    (hsettled : RunSettled s) : RunSettled u := by
  suffices hboth : RootFired u.timers ∧ u.timers.AllSettled from
    ⟨h.kept hsettled.kept, hboth.1, hboth.2⟩
  rcases h.timers_cases hsettled.kept with hsame | ⟨action, hstep, haction⟩ | ⟨hpruned, hidle⟩
  · rw [hsame]
    exact ⟨hsettled.fired, hsettled.settled⟩
  · have hfresh : ¬ AddsOverdue s.timers action := by
      rcases haction with rfl | ⟨now, rfl⟩
      · exact fun hoverdue => hnot ⟨action, rfl, hoverdue⟩
      · exact not_addsOverdue_processTimers now
    obtain ⟨hfired, hkeeps⟩ := timerStep_rootFired hfresh hsettled.fired hstep
    refine ⟨hfired, ?_⟩
    exact ((timerStep_effect hstep).allSettled_iff hsettled.kept.timers.balanced).mpr
      ⟨hsettled.settled, hkeeps⟩
  · rw [hpruned]
    refine ⟨rootFired_of_phase fun now hphase => ?_, ?_⟩
    · rw [show s.timers.pruned.phase = s.timers.phase from rfl, hidle] at hphase
      cases hphase
    · exact pruned_allSettled hsettled.kept.timers hsettled.settled

/-- The loop is left at a request to stop, or where nothing is left to wait for. -/
theorem RunMoves.leaves (h : RunMoves wakeupPipe pipeSize s a u) (hkept : RunKept s)
    (hinside : s.phase ≠ .outside) (houtside : u.phase = .outside) :
    u.running = false ∧
      (s.stopRequested = true ∨ u.fds.active = [] ∧ u.timers.nodes = []) := by
  cases h with
  | enter hphase => exact absurd hphase hinside
  | stops hselect hstop => exact ⟨rfl, .inl hstop⟩
  | condition => cases houtside
  | timersDone => cases houtside
  | @prepare now hphase =>
    obtain ⟨htimers, hcases⟩ := prepare_cases hkept.timers now
    obtain ⟨-, -, -, hfds⟩ := prepare_fields s now
    rcases hcases with ⟨-, hrunning, hnone, hempty⟩ | ⟨timeout, hselecting, -⟩
    · exact ⟨hrunning, .inr ⟨hfds ▸ hnone, htimers ▸ hempty⟩⟩
    · rw [hselecting] at houtside
      cases houtside
  | @select timeout now result =>
    cases result with
    | failed => cases houtside
    | timedOut => cases houtside
    | ready sets =>
      rw [RunState.selected] at houtside
      split at houtside
      · cases houtside
      · rcases dispatch_phase wakeupPipe s sets with hphase | hphase <;>
          rw [hphase] at houtside <;> cases houtside
  | @drained ready =>
    rcases dispatch_phase wakeupPipe s ready with hphase | hphase <;>
      rw [hphase] at houtside <;> cases houtside
  | scanned => cases houtside
  | _ => exact absurd houtside hinside

end Runs

/-- A descriptor that the callback of a timer removes. -/
def timedDescriptor : List (RunAction Unit) :=
  [.timer (.addTimer 10 0 (some 7) true), .fd (.addFd 5 1 true), .enter, .condition 0,
    .timer .round, .timersDone, .prepare 0, .select .timedOut, .condition 10, .timer .round,
    .fd (.removeFd 5), .timer .callbackReturns, .timer .round, .timersDone]

end AbstractHttp.EventLoop
