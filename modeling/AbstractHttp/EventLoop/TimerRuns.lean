import AbstractHttp.EventLoop.Timers
import AbstractHttp.Library.Schedule

/-!
# Which timers a run of the event loop keeps

The callback of the root runs while the root is still in the heap. What it may do, add and
cancel timers, is made of the same actions as outside of `process_timers`, so a run is any
sequence of actions with any readings of the clock.
-/
namespace AbstractHttp.EventLoop

variable {β : Type*}

/-- Where `process_timers` is; it reads the clock once, into `now`. -/
inductive TimerPhase where
  | idle
  | processing (now : ℤ)
  | inCallback (now : ℤ)
  deriving DecidableEq, Repr

/-- Between two rounds of `process_timers` no one else acts. -/
def TimerPhase.callable : TimerPhase → Bool
  | .processing _ => false
  | _ => true

/-- The loop with a record of its past: the timers that were added, the identifiers that
were cancelled and the timers whose callback was invoked. -/
structure TimerState (β : Type*) where
  loop : ModalityEventLoop β
  phase : TimerPhase
  added : List (ℤ × β)
  cancelled : List ℤ
  invoked : List (ℤ × β)
  deriving DecidableEq

/-- The loop as `http_loop_init` makes it. -/
def TimerState.init : TimerState β := ⟨.init, .idle, [], [], []⟩

namespace TimerState

/-- The nodes of the heap. -/
def nodes (s : TimerState β) : List (TimerNode β) := s.loop.timers.toList

/-- A call of `http_loop_add_timer`. -/
def addTimer (s : TimerState β) (timeoutMs clock : ℤ) (cb : Option β) (granted : Bool) :
    TimerState β :=
  match cb, EventLoop.addTimer s.loop timeoutMs clock cb granted with
  | some cb, .ok (loop, id) => { s with loop := loop, added := s.added ++ [(id, cb)] }
  | _, _ => s

/-- A call of `http_loop_cancel_timer`. -/
def cancelTimer (s : TimerState β) (timerId : ℤ) : TimerState β :=
  match EventLoop.cancelTimer s.loop timerId with
  | .ok loop => { s with loop := loop, cancelled := s.cancelled ++ [timerId] }
  | .error _ => s

/-- The end of a round of `process_timers`. -/
def removeMin (s : TimerState β) (now : ℤ) : TimerState β :=
  { s with
    loop := { s.loop with timers := removeMinElement s.loop.timers }
    phase := .processing now }

/-- A round of `process_timers` as far as the call of the callback. -/
def round (s : TimerState β) (now : ℤ) : TimerState β :=
  match s.loop.timers[0]? with
  | none => { s with phase := .idle }
  | some root =>
    if root.expiration > now then { s with phase := .idle }
    else if root.active then
      { s with
        loop := { s.loop with timers := deactivate s.loop.timers 0 }
        phase := .inCallback now
        invoked := s.invoked ++ [root.timer] }
    else s.removeMin now

end TimerState

/-- The actions of the loop and of its callers. -/
inductive TimerAction (β : Type*) where
  | addTimer (timeoutMs clock : ℤ) (cb : Option β) (granted : Bool)
  | cancelTimer (timerId : ℤ)
  | processTimers (now : ℤ)
  | round
  | callbackReturns

/-- One action, where it is enabled. There is no state behind a removal from an empty heap, where
`timer_count` would wrap around. -/
def timerStep (s : TimerState β) : TimerAction β → Option (TimerState β)
  | .addTimer timeoutMs clock cb granted =>
    if s.phase.callable then some (s.addTimer timeoutMs clock cb granted) else none
  | .cancelTimer timerId => if s.phase.callable then some (s.cancelTimer timerId) else none
  | .processTimers now =>
    if s.phase = .idle then some { s with phase := .processing now } else none
  | .round =>
    match s.phase with
    | .processing now => some (s.round now)
    | _ => none
  | .callbackReturns =>
    match s.phase with
    | .inCallback now => if s.loop.timers.size > 0 then some (s.removeMin now) else none
    | _ => none

/-- Where an enabled action leads. -/
inductive TimerMove (s : TimerState β) : TimerAction β → TimerState β → Prop where
  | addTimer (timeoutMs clock : ℤ) (cb : Option β) (granted : Bool) :
      TimerMove s (.addTimer timeoutMs clock cb granted) (s.addTimer timeoutMs clock cb granted)
  | cancelTimer (timerId : ℤ) : TimerMove s (.cancelTimer timerId) (s.cancelTimer timerId)
  | processTimers (now : ℤ) :
      TimerMove s (.processTimers now) { s with phase := .processing now }
  | round {now : ℤ} : s.phase = .processing now → TimerMove s .round (s.round now)
  | callbackReturns {now : ℤ} : s.phase = .inCallback now → s.loop.timers.size > 0 →
      TimerMove s .callbackReturns (s.removeMin now)

theorem timerStep_moves {s u : TimerState β} {a : TimerAction β} (h : timerStep s a = some u) :
    TimerMove s a u := by
  cases a with
  | addTimer timeoutMs clock cb granted =>
    rw [timerStep, Option.ite_none_right_eq_some] at h
    obtain rfl := Option.some.inj h.2
    exact .addTimer timeoutMs clock cb granted
  | cancelTimer timerId =>
    rw [timerStep, Option.ite_none_right_eq_some] at h
    obtain rfl := Option.some.inj h.2
    exact .cancelTimer timerId
  | processTimers now =>
    rw [timerStep, Option.ite_none_right_eq_some] at h
    obtain rfl := Option.some.inj h.2
    exact .processTimers now
  | round =>
    rw [timerStep] at h
    split at h
    next now hphase =>
      obtain rfl := Option.some.inj h
      exact .round hphase
    next => cases h
  | callbackReturns =>
    rw [timerStep] at h
    split at h
    next now hphase =>
      rw [Option.ite_none_right_eq_some] at h
      obtain rfl := Option.some.inj h.2
      exact .callbackReturns hphase h.1
    next => cases h

/-- A callback returns while an active timer is at the root. -/
def RemovesActive (s : TimerState β) (action : TimerAction β) : Prop :=
  action = .callbackReturns ∧ ∃ root, s.loop.timers[0]? = some root ∧ root.active = true

/-! What an action does to the nodes and to the record. -/

/-- What an action may do, up to the order of the nodes; `lost` tells whether it removes an
active one. -/
inductive TimerEffect (lost : Prop) (s : TimerState β) : TimerState β → Prop where
  | silent (phase : TimerPhase) : ¬ lost → TimerEffect lost s { s with phase := phase }
  | add {node : TimerNode β} {loop : ModalityEventLoop β} : ¬ lost → node.active = true →
      node.id = s.loop.nextTimerId + 1 → loop.nextTimerId = node.id →
      loop.timers.toList.Perm (node :: s.nodes) →
      TimerEffect lost s { s with loop := loop, added := s.added ++ [node.timer] }
  | cancel {node : TimerNode β} {timers : Array (TimerNode β)} {rest : List (TimerNode β)} :
      ¬ lost → node.active = true → s.nodes.Perm (node :: rest) →
      timers.toList.Perm (node.deactivated :: rest) →
      TimerEffect lost s
        { s with
          loop := { s.loop with timers := timers }
          cancelled := s.cancelled ++ [node.id] }
  | fire {node : TimerNode β} {timers : Array (TimerNode β)} {rest : List (TimerNode β)}
      {phase : TimerPhase} :
      ¬ lost → node.active = true → s.nodes.Perm (node :: rest) →
      timers.toList.Perm (node.deactivated :: rest) →
      TimerEffect lost s
        { s with
          loop := { s.loop with timers := timers }
          phase := phase
          invoked := s.invoked ++ [node.timer] }
  | remove {root : TimerNode β} {timers : Array (TimerNode β)} {phase : TimerPhase} :
      (lost ↔ root.active = true) → s.nodes.Perm (root :: timers.toList) →
      TimerEffect lost s
        { s with loop := { s.loop with timers := timers }, phase := phase }

section Effects

variable {s u : TimerState β} {lost : Prop}

theorem addTimer_effect (hlost : ¬ lost) (timeoutMs clock : ℤ) (cb : Option β) (granted : Bool) :
    TimerEffect lost s (s.addTimer timeoutMs clock cb granted) := by
  unfold TimerState.addTimer
  split
  next cb loop id hadd =>
    obtain ⟨hid, hnext, idx, htimers, -⟩ := addTimer_ok hadd
    have hnodes : loop.timers.toList.Perm (⟨clock + timeoutMs, id, cb, true⟩ :: s.nodes) := by
      rw [htimers]
      refine (Array.perm_iff_toList_perm.mp (Library.siftUp_perm idx)).trans ?_
      rw [Array.toList_push]
      exact List.perm_append_singleton _ _
    exact .add hlost rfl hid hnext hnodes
  next => exact .silent s.phase hlost

theorem cancelTimer_effect (hlost : ¬ lost) (timerId : ℤ) :
    TimerEffect lost s (s.cancelTimer timerId) := by
  rw [TimerState.cancelTimer]
  split
  next loop hcancel =>
    obtain ⟨i, node, hnode, rfl, hactive, rfl⟩ := cancelTimer_ok hcancel
    obtain ⟨rest, hbefore, hafter⟩ := deactivate_perm hnode
    exact .cancel hlost hactive hbefore hafter
  next => exact .silent s.phase hlost

theorem removeMin_effect {now : ℤ} {root : TimerNode β} (hroot : s.loop.timers[0]? = some root)
    (hlost : lost ↔ root.active = true) : TimerEffect lost s (s.removeMin now) := by
  refine .remove hlost ?_
  have hhead : s.nodes = root :: s.nodes.tail := by
    rw [← Array.getElem?_toList] at hroot
    exact (List.cons_head?_tail (by rwa [List.head?_eq_getElem?])).symm
  rw [hhead]
  exact ((removeMinElement_perm s.loop.timers).symm).cons root

theorem round_effect (hlost : ¬ lost) (now : ℤ) : TimerEffect lost s (s.round now) := by
  rw [TimerState.round]
  split
  next => exact .silent .idle hlost
  next root hroot =>
    split_ifs with hfuture hactive
    · exact .silent .idle hlost
    · obtain ⟨rest, hbefore, hafter⟩ := deactivate_perm hroot
      exact .fire hlost hactive hbefore hafter
    · exact removeMin_effect hroot (iff_of_false hlost hactive)

theorem not_removesActive {a : TimerAction β} (h : a ≠ .callbackReturns) : ¬ RemovesActive s a :=
  fun hremoves => h hremoves.1

/-- An action does one of these to the loop, and it loses a timer where `RemovesActive` says so. -/
theorem timerStep_effect {a : TimerAction β} (h : timerStep s a = some u) :
    TimerEffect (RemovesActive s a) s u := by
  cases timerStep_moves h with
  | addTimer => exact addTimer_effect (not_removesActive (by simp)) ..
  | cancelTimer timerId => exact cancelTimer_effect (not_removesActive (by simp)) timerId
  | processTimers now => exact .silent _ (not_removesActive (by simp))
  | round => exact round_effect (not_removesActive (by simp)) _
  | callbackReturns _ hpos =>
    have hroot := Array.getElem?_eq_getElem hpos
    exact removeMin_effect hroot (by simp [RemovesActive, hroot])

/-- Only an addition adds to the record. -/
theorem timerStep_added {a : TimerAction β} (h : timerStep s a = some u) :
    u.added = s.added ∨
      ∃ timeoutMs clock cb granted id, a = .addTimer timeoutMs clock (some cb) granted ∧
        u.added = s.added ++ [(id, cb)] := by
  cases timerStep_moves h with
  | addTimer timeoutMs clock cb granted =>
    unfold TimerState.addTimer
    split
    next cb loop id hadd => exact .inr ⟨_, _, _, _, _, rfl, rfl⟩
    next => exact .inl rfl
  | cancelTimer timerId =>
    rw [TimerState.cancelTimer]
    split <;> exact .inl rfl
  | processTimers now => exact .inl rfl
  | round =>
    rw [TimerState.round]
    split
    · exact .inl rfl
    · split_ifs <;> exact .inl rfl
  | callbackReturns => exact .inl rfl

/-- Only a cancellation is recorded as one. -/
theorem timerStep_cancelled {a : TimerAction β} (h : timerStep s a = some u) :
    u.cancelled = s.cancelled ∨
      ∃ timerId, a = .cancelTimer timerId ∧ u.cancelled = s.cancelled ++ [timerId] := by
  cases timerStep_moves h with
  | addTimer timeoutMs clock cb granted =>
    unfold TimerState.addTimer
    split <;> exact .inl rfl
  | cancelTimer timerId =>
    rw [TimerState.cancelTimer]
    split
    · exact .inr ⟨_, rfl, rfl⟩
    · exact .inl rfl
  | processTimers now => exact .inl rfl
  | round =>
    rw [TimerState.round]
    split
    · exact .inl rfl
    · split_ifs <;> exact .inl rfl
  | callbackReturns => exact .inl rfl

/-- A node was there before, perhaps active, or it has just been added. -/
theorem TimerEffect.node (heffect : TimerEffect lost s u) {node : TimerNode β}
    (hnode : node ∈ u.nodes) :
    (∃ old ∈ s.nodes, node = old ∨ node = old.deactivated) ∨
      node.id = s.loop.nextTimerId + 1 ∧ u.added = s.added ++ [node.timer] := by
  cases heffect with
  | silent => exact .inl ⟨node, hnode, .inl rfl⟩
  | add _ _ hid _ hperm =>
    rcases List.mem_cons.mp (hperm.mem_iff.mp hnode) with rfl | hold
    · exact .inr ⟨hid, rfl⟩
    · exact .inl ⟨node, hold, .inl rfl⟩
  | cancel _ _ hbefore hafter =>
    rcases List.mem_cons.mp (hafter.mem_iff.mp hnode) with rfl | hold
    · exact .inl ⟨_, hbefore.mem_iff.mpr List.mem_cons_self, .inr rfl⟩
    · exact .inl ⟨node, hbefore.mem_iff.mpr (List.mem_cons_of_mem _ hold), .inl rfl⟩
  | fire _ _ hbefore hafter =>
    rcases List.mem_cons.mp (hafter.mem_iff.mp hnode) with rfl | hold
    · exact .inl ⟨_, hbefore.mem_iff.mpr List.mem_cons_self, .inr rfl⟩
    · exact .inl ⟨node, hbefore.mem_iff.mpr (List.mem_cons_of_mem _ hold), .inl rfl⟩
  | remove _ hbefore =>
    exact .inl ⟨node, hbefore.mem_iff.mpr (List.mem_cons_of_mem _ hnode), .inl rfl⟩

theorem TimerEffect.nextTimerId_le (heffect : TimerEffect lost s u) :
    s.loop.nextTimerId ≤ u.loop.nextTimerId := by
  cases heffect with
  | add _ _ hid hnext =>
    dsimp only
    omega
  | _ => exact le_rfl

end Effects

end AbstractHttp.EventLoop
