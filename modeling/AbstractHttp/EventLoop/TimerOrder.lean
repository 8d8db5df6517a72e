import AbstractHttp.EventLoop.TimerLoss
import AbstractHttp.Library.HeapOrder

/-!
# The order in which timers fire

The timers are a heap in every state that a loop reaches, whatever the callbacks do and however
the clock runs. A pass of `process_timers` during which no callback calls back into the loop
therefore fires the expired timers in the order of their expirations and leaves the others.
-/
namespace AbstractHttp.EventLoop
open Library

variable {β : Type*}

/-- One round of the loop in `http_loop_run` and `http_loop_tick` that drops cancelled timers at
the root; there `timer_count` is lowered before `timer_heap_down`. -/
def pruneRoot (timers : Array (TimerNode β)) : Array (TimerNode β) :=
  if h : timers.size > 0 then
    let moved := (timers.set 0 timers[timers.size - 1]).pop
    if hmoved : moved.size > 0 then timerHeapDown moved ⟨0, hmoved⟩ else moved
  else timers

theorem deactivate_size (timers : Array (TimerNode β)) (i : ℕ) :
    (deactivate timers i).size = timers.size :=
  Array.size_modify

theorem removeMinElement_size (timers : Array (TimerNode β)) :
    (removeMinElement timers).size = timers.size - 1 := by
  have hperm := (removeMinElement_perm timers).length_eq
  rwa [List.length_tail, Array.length_toList, Array.length_toList] at hperm

/-- `process_timers` when no callback calls back into the loop: the nodes whose callbacks are
invoked, and the timers left. -/
def processTimers (now : ℤ) (timers : Array (TimerNode β)) :
    List (TimerNode β) × Array (TimerNode β) :=
  if h : timers.size > 0 then
    if timers[0].expiration > now then ([], timers)
    else if timers[0].active then
      let rest := processTimers now (removeMinElement (deactivate timers 0))
      (timers[0] :: rest.1, rest.2)
    else processTimers now (removeMinElement timers)
  else ([], timers)
termination_by timers.size
decreasing_by
  · rw [removeMinElement_size, deactivate_size]
    omega
  · rw [removeMinElement_size]
    omega

/-- The loop with the passes of `process_timers` whose callbacks called `http_loop_tick` or
`http_loop_run` in their turn, the last one first. -/
structure LoopState (β : Type*) where
  timers : TimerState β
  suspended : List TimerPhase
  deriving DecidableEq

/-- The loop as `http_loop_init` makes it. -/
def LoopState.init : LoopState β := ⟨.init, []⟩

/-- The actions of the loop and of its callers, with those around `process_timers`. -/
inductive LoopAction (β : Type*) where
  | timer (action : TimerAction β)
  | prune
  | enterLoop
  | leaveLoop

/-- One action, where it is enabled. -/
def loopStep (s : LoopState β) : LoopAction β → Option (LoopState β)
  | .timer action => (timerStep s.timers action).map fun timers => { s with timers := timers }
  | .prune =>
    match s.timers.loop.timers[0]? with
    | some root =>
      if s.timers.phase = .idle ∧ ¬ root.active then
        let loop := { s.timers.loop with timers := pruneRoot s.timers.loop.timers }
        some { s with timers := { s.timers with loop := loop } }
      else none
    | none => none
  | .enterLoop =>
    match s.timers.phase with
    | .inCallback now => some ⟨{ s.timers with phase := .idle }, .inCallback now :: s.suspended⟩
    | _ => none
  | .leaveLoop =>
    match s.timers.phase, s.suspended with
    | .idle, phase :: suspended => some ⟨{ s.timers with phase := phase }, suspended⟩
    | _, _ => none

/-- What each action of the loop needs and does. -/
inductive LoopMove (s : LoopState β) : LoopAction β → LoopState β → Prop where
  | timer {action : TimerAction β} {timers : TimerState β}
      (hstep : timerStep s.timers action = some timers) :
      LoopMove s (.timer action) { s with timers := timers }
  | prune {root : TimerNode β} (hroot : s.timers.loop.timers[0]? = some root)
      (hidle : s.timers.phase = .idle) (hinactive : ¬ root.active) :
      LoopMove s .prune
        { s with
          timers :=
            { s.timers with
              loop := { s.timers.loop with timers := pruneRoot s.timers.loop.timers } } }
  | enterLoop {now : ℤ} (hphase : s.timers.phase = .inCallback now) :
      LoopMove s .enterLoop ⟨{ s.timers with phase := .idle }, .inCallback now :: s.suspended⟩
  | leaveLoop {phase : TimerPhase} {suspended : List TimerPhase}
      (hphase : s.timers.phase = .idle) (hsuspended : s.suspended = phase :: suspended) :
      LoopMove s .leaveLoop ⟨{ s.timers with phase := phase }, suspended⟩

theorem loopStep_moves {s u : LoopState β} {a : LoopAction β} (h : loopStep s a = some u) :
    LoopMove s a u := by
  cases a with
  | timer action =>
    obtain ⟨timers, hstep, rfl⟩ := Option.map_eq_some_iff.mp h
    exact .timer hstep
  | prune =>
    rw [loopStep] at h
    split at h
    next root hroot =>
      rw [Option.ite_none_right_eq_some] at h
      obtain ⟨⟨hidle, hinactive⟩, hu⟩ := h
      obtain rfl := Option.some.inj hu
      exact .prune hroot hidle hinactive
    next => cases h
  | enterLoop =>
    rw [loopStep] at h
    split at h
    next now hphase =>
      obtain rfl := Option.some.inj h
      exact .enterLoop hphase
    next => cases h
  | leaveLoop =>
    rw [loopStep] at h
    split at h
    next phase suspended hphase hsuspended =>
      obtain rfl := Option.some.inj h
      exact .leaveLoop hphase hsuspended
    next => cases h

/-! The heap. -/

/-- No timer expires before its parent in the heap. -/
def InHeapOrder (timers : Array (TimerNode β)) : Prop :=
  HeapOrdered TimerNode.expiration timers

section Order

variable {loop loop' : ModalityEventLoop β} {timers : Array (TimerNode β)}

theorem addTimer_inHeapOrder {timeoutMs clock id : ℤ} {cb : Option β} {granted : Bool}
    (horder : InHeapOrder loop.timers)
    (h : addTimer loop timeoutMs clock cb granted = .ok (loop', id)) :
    InHeapOrder loop'.timers := by
  cases cb with
  | none => cases h
  | some cb =>
    obtain ⟨-, -, idx, htimers, hidx⟩ := addTimer_ok h
    rw [htimers]
    refine siftUp_ordered idx ?_
    rw [hidx]
    exact HeapOrdered.upReady_push horder _

theorem deactivate_inHeapOrder (horder : InHeapOrder timers) (i : ℕ) :
    InHeapOrder (deactivate timers i) := by
  refine (heapOrdered_congr fun j => ?_).mpr horder
  rw [keyAt, keyAt, deactivate, Array.getElem?_modify]
  split_ifs with hij
  · rw [Option.map_map]
    rfl
  · rfl

theorem removeMinElement_inHeapOrder (horder : InHeapOrder timers) :
    InHeapOrder (removeMinElement timers) := by
  rw [removeMinElement]
  split
  next h => exact (siftDown_ordered _ (horder.downReady_set _ (by omega))).pop
  next => exact horder.pop

theorem pruneRoot_inHeapOrder (horder : InHeapOrder timers) : InHeapOrder (pruneRoot timers) := by
  rw [pruneRoot]
  split
  next h =>
    dsimp only
    split
    · exact siftDown_ordered _ (horder.downReady_set _ h).pop
    next hempty =>
      intro i hi
      omega
  next => exact horder

/-- The last node takes the root's place. -/
theorem pop_set_root_perm (h : timers.size > 0) :
    ((timers.set 0 timers[timers.size - 1]).pop).toList.Perm timers.toList.tail := by
  have hlist : timers.toList ≠ [] := by
    rw [← List.length_pos_iff, Array.length_toList]
    exact h
  have hlast : timers[timers.size - 1] = timers.toList.getLast hlist := by
    simp only [List.getLast_eq_getElem, Array.getElem_toList, Array.length_toList]
  rw [Array.toList_pop, Array.toList_set, hlast]
  exact Library.dropLast_set_getLast_perm hlist

/-- The root and nothing else is dropped. -/
theorem pruneRoot_perm (timers : Array (TimerNode β)) :
    (pruneRoot timers).toList.Perm timers.toList.tail := by
  rw [pruneRoot]
  split
  next h =>
    dsimp only
    split
    · exact (Array.perm_iff_toList_perm.mp (siftDown_perm _)).trans (pop_set_root_perm h)
    · exact pop_set_root_perm h
  next h =>
    have hempty : timers.toList = [] := List.eq_nil_of_length_eq_zero (by simpa using h)
    rw [hempty]
    exact .refl _

/-- The root, and what is left without it. -/
theorem perm_pruneRoot (h : timers.size > 0) :
    timers.toList.Perm (timers[0] :: (pruneRoot timers).toList) :=
  (List.Perm.of_eq (toList_eq_root_cons h)).trans ((pruneRoot_perm timers).symm.cons timers[0])

end Order

section Pass

variable {timers : Array (TimerNode β)} {now : ℤ}

/-- The node at the root, and those that stay when it is removed. -/
theorem perm_removeMinElement (h : timers.size > 0) :
    timers.toList.Perm (timers[0] :: (removeMinElement timers).toList) :=
  (List.Perm.of_eq (toList_eq_root_cons h)).trans ((removeMinElement_perm timers).symm.cons timers[0])

theorem removeMinElement_deactivate (timers : Array (TimerNode β)) :
    (removeMinElement (deactivate timers 0)).toList.Perm (removeMinElement timers).toList := by
  refine (removeMinElement_perm _).trans (.trans ?_ (removeMinElement_perm _).symm)
  rw [deactivate, Array.toList_modify]
  cases timers.toList <;> rfl

/-- What a pass does to the timers, `fired` in this order. -/
structure FiresExpired (now : ℤ) (nodes fired : List (TimerNode β))
    (left : Array (TimerNode β)) : Prop where
  exactly : fired.Perm (nodes.filter fun node => node.active ∧ node.expiration ≤ now)
  inOrder : fired.Pairwise fun node later => node.expiration ≤ later.expiration
  others : left.toList.Perm (nodes.filter fun node => now < node.expiration)
  heap : InHeapOrder left

theorem processTimers_fires (horder : InHeapOrder timers) :
    FiresExpired now timers.toList (processTimers now timers).1 (processTimers now timers).2 := by
  fun_induction processTimers now timers with
  | case1 timers h hfuture =>
    have hlater : ∀ node ∈ timers.toList, now < node.expiration := fun node hnode =>
      lt_of_lt_of_le hfuture (horder.root_le_of_mem h hnode)
    constructor
    · rw [List.filter_eq_nil_iff.mpr fun node hnode => by simp [hlater node hnode]]
    · exact .nil
    · rw [List.filter_eq_self.mpr fun node hnode => by simp [hlater node hnode]]
    · exact horder
  | case2 timers h hexpired hactive rest ih =>
    have hrest := ih (removeMinElement_inHeapOrder (deactivate_inHeapOrder horder 0))
    have hsplit := (perm_removeMinElement h).trans
      ((removeMinElement_deactivate timers).symm.cons timers[0])
    constructor
    · refine (hrest.exactly.cons timers[0]).trans ((hsplit.filter _).trans ?_).symm
      rw [List.filter_cons_of_pos]
      simp [hactive, not_lt.mp hexpired]
    · refine List.pairwise_cons.mpr ⟨fun node hnode => ?_, hrest.inOrder⟩
      have hmem := (List.mem_filter.mp (hrest.exactly.mem_iff.mp hnode)).1
      exact horder.root_le_of_mem h (hsplit.mem_iff.mpr (List.mem_cons_of_mem _ hmem))
    · refine hrest.others.trans ((hsplit.filter _).trans ?_).symm
      rw [List.filter_cons_of_neg]
      simp [not_lt.mp hexpired]
    · exact hrest.heap
  | case3 timers h hexpired hactive ih =>
    have hrest := ih (removeMinElement_inHeapOrder horder)
    have hsplit := perm_removeMinElement h
    constructor
    · refine hrest.exactly.trans ((hsplit.filter _).trans ?_).symm
      rw [List.filter_cons_of_neg]
      simp [hactive]
    · exact hrest.inOrder
    · refine hrest.others.trans ((hsplit.filter _).trans ?_).symm
      rw [List.filter_cons_of_neg]
      simp [not_lt.mp hexpired]
    · exact hrest.heap
  | case4 timers h =>
    have hempty : timers.toList = [] := List.eq_nil_of_length_eq_zero (by simpa using h)
    rw [hempty]
    constructor
    · exact .refl _
    · exact .nil
    · rw [hempty]
      exact .refl _
    · exact horder

end Pass

/-! Runs of the loop. -/

section Runs

variable {s u : TimerState β} {now : ℤ}

/-- What holds between any two actions. -/
structure HeapKept (s : TimerState β) : Prop where
  balanced : s.Balanced
  heap : InHeapOrder s.loop.timers

theorem round_inHeapOrder (horder : InHeapOrder s.loop.timers) (now : ℤ) :
    InHeapOrder (s.round now).loop.timers := by
  rw [TimerState.round]
  split
  next => exact horder
  next root hroot =>
    split_ifs with hfuture hactive
    · exact horder
    · exact deactivate_inHeapOrder horder 0
    · exact removeMinElement_inHeapOrder horder

theorem timerStep_heapKept {a : TimerAction β} (hkept : HeapKept s)
    (h : timerStep s a = some u) : HeapKept u := by
  refine ⟨(timerStep_effect h).balanced hkept.balanced, ?_⟩
  have horder := hkept.heap
  cases timerStep_moves h with
  | addTimer timeoutMs clock cb granted =>
    unfold TimerState.addTimer
    split
    next hadd => exact addTimer_inHeapOrder horder hadd
    next => exact horder
  | cancelTimer timerId =>
    rw [TimerState.cancelTimer]
    split
    next hcancel =>
      obtain ⟨i, -, -, -, -, rfl⟩ := cancelTimer_ok hcancel
      exact deactivate_inHeapOrder horder i
    next => exact horder
  | processTimers now => exact horder
  | round => exact round_inHeapOrder horder _
  | callbackReturns => exact removeMinElement_inHeapOrder horder

theorem prune_heapKept {root : TimerNode β} (hkept : HeapKept s)
    (hroot : s.loop.timers[0]? = some root) :
    HeapKept { s with loop := { s.loop with timers := pruneRoot s.loop.timers } } := by
  obtain ⟨hsize, rfl⟩ := Array.getElem?_eq_some_iff.mp hroot
  have hsplit := perm_pruneRoot hsize
  exact ⟨(hkept.balanced.perm hsplit.symm).remove, pruneRoot_inHeapOrder hkept.heap⟩

theorem loopStep_heapKept {s u : LoopState β} {a : LoopAction β} (hkept : HeapKept s.timers)
    (h : loopStep s a = some u) : HeapKept u.timers := by
  cases loopStep_moves h with
  | timer hstep => exact timerStep_heapKept hkept hstep
  | prune hroot => exact prune_heapKept hkept hroot
  | enterLoop => exact ⟨hkept.balanced, hkept.heap⟩
  | leaveLoop => exact ⟨hkept.balanced, hkept.heap⟩

theorem heapKept_of_run {s : LoopState β} {actions : List (LoopAction β)}
    (h : Run loopStep .init actions s) : HeapKept s.timers := by
  refine h.invariant (P := fun s => HeapKept s.timers) (A := fun _ => True)
    (fun _ _ _ _ hprev hstep => loopStep_heapKept hprev hstep) ⟨balanced_init, ?_⟩
    fun _ _ => trivial
  intro i hi
  cases hi

/-- The callbacks of a pass return at once. -/
def Quiet (action : TimerAction β) : Prop := action = .round ∨ action = .callbackReturns

/-- The state after a pass of `process_timers` with quiet callbacks. -/
def TimerState.afterPass (s : TimerState β) (now : ℤ) : TimerState β :=
  { s with
    loop := { s.loop with timers := (EventLoop.processTimers now s.loop.timers).2 }
    phase := .idle
    invoked := s.invoked ++ (EventLoop.processTimers now s.loop.timers).1.map TimerNode.timer }

/-- The rounds of a pass come to its end. -/
def PassEnds (s : TimerState β) (now : ℤ) : Prop :=
  ∃ rounds : List (TimerAction β), (∀ a ∈ rounds, Quiet a) ∧
    rounds.foldlM timerStep s = some (s.afterPass now)

theorem PassEnds.of_rounds {t : TimerState β} (rounds : List (TimerAction β))
    (hends : PassEnds t now) (hquiet : ∀ a ∈ rounds, Quiet a)
    (hrounds : rounds.foldlM timerStep s = some t) (hsame : t.afterPass now = s.afterPass now) :
    PassEnds s now := by
  obtain ⟨later, hlater, hend⟩ := hends
  refine ⟨rounds ++ later, fun a ha => ?_, ?_⟩
  · exact (List.mem_append.mp ha).elim (hquiet a) (hlater a)
  · rw [List.foldlM_append, hrounds, ← hsame]
    exact hend

theorem timerStep_round (hphase : s.phase = .processing now) :
    timerStep s .round = some (s.round now) := by
  rw [timerStep, hphase]

/-- No timer is expired. -/
theorem passEnds_of_done (hphase : s.phase = .processing now)
    (hpass : processTimers now s.loop.timers = ([], s.loop.timers))
    (hround : s.round now = { s with phase := .idle }) : PassEnds s now := by
  refine ⟨[.round], by simp [Quiet], ?_⟩
  rw [List.foldlM_cons, timerStep_round hphase, hround, TimerState.afterPass, hpass, List.map_nil,
    List.append_nil]
  rfl

theorem passEnds (hphase : s.phase = .processing now) : PassEnds s now := by
  generalize htimers : s.loop.timers = timers
  induction timers using processTimers.induct now generalizing s with
  | case1 timers h hfuture =>
    subst htimers
    refine passEnds_of_done hphase ?_ ?_
    · rw [processTimers, dif_pos h, if_pos hfuture]
    · rw [TimerState.round, Array.getElem?_eq_getElem h]
      exact if_pos hfuture
  | case2 timers h hexpired hactive ih =>
    subst htimers
    have hround : s.round now =
        { s with
          loop := { s.loop with timers := deactivate s.loop.timers 0 }
          phase := .inCallback now
          invoked := s.invoked ++ [s.loop.timers[0].timer] } := by
      rw [TimerState.round, Array.getElem?_eq_getElem h]
      exact (if_neg hexpired).trans (if_pos hactive)
    have hends : PassEnds ((s.round now).removeMin now) now := by
      refine ih rfl ?_
      rw [hround, TimerState.removeMin]
    refine hends.of_rounds [.round, .callbackReturns] (by simp [Quiet]) ?_ ?_
    · have hpos : (s.round now).loop.timers.size > 0 := by
        rw [hround]
        exact (deactivate_size _ 0).symm ▸ h
      have hreturns : timerStep (s.round now) .callbackReturns =
          some ((s.round now).removeMin now) := by
        rw [hround] at hpos ⊢
        exact if_pos hpos
      simp only [List.foldlM_cons, timerStep_round hphase]
      exact congrArg (Option.bind · _) hreturns
    · rw [hround, TimerState.removeMin, TimerState.afterPass, TimerState.afterPass]
      conv_rhs => rw [processTimers, dif_pos h, if_neg hexpired, if_pos hactive]
      simp only [List.map_cons, List.append_assoc, List.singleton_append]
  | case3 timers h hexpired hactive ih =>
    subst htimers
    have hround : s.round now = s.removeMin now := by
      rw [TimerState.round, Array.getElem?_eq_getElem h]
      exact (if_neg hexpired).trans (if_neg hactive)
    have hends : PassEnds (s.removeMin now) now := ih rfl rfl
    refine hends.of_rounds [.round] (by simp [Quiet]) ?_ ?_
    · rw [List.foldlM_cons, timerStep_round hphase, hround]
      rfl
    · rw [TimerState.removeMin, TimerState.afterPass, TimerState.afterPass]
      conv_rhs => rw [processTimers, dif_pos h, if_neg hexpired, if_neg hactive]
  | case4 timers h =>
    subst htimers
    refine passEnds_of_done hphase ?_ ?_
    · rw [processTimers, dif_neg h]
    · rw [TimerState.round, Array.getElem?_eq_none (by omega)]

/-- A pass with quiet callbacks ends, and what it does to the timers. -/
structure PassServes (s : TimerState β) (now : ℤ) : Prop where
  ends : PassEnds { s with phase := .processing now } now
  fires : FiresExpired now s.nodes (processTimers now s.loop.timers).1
    (processTimers now s.loop.timers).2
  once : ((processTimers now s.loop.timers).1.map TimerNode.id).Nodup
  fresh : ∀ node ∈ (processTimers now s.loop.timers).1,
    node.id ∉ s.cancelled ∧ node.timer ∉ s.invoked

theorem HeapKept.passServes (h : HeapKept s) (now : ℤ) : PassServes s now := by
  have hfires : FiresExpired now s.nodes (processTimers now s.loop.timers).1
      (processTimers now s.loop.timers).2 := processTimers_fires h.heap
  refine ⟨passEnds rfl, hfires, ?_, fun node hnode => ?_⟩
  · have hsub := (List.filter_sublist (l := s.nodes)
      (p := fun node => node.active ∧ node.expiration ≤ now)).map TimerNode.id
    exact ((hfires.exactly.map _).nodup_iff).mpr (hsub.nodup h.balanced.distinct)
  · obtain ⟨hmem, hactive⟩ := List.mem_filter.mp (hfires.exactly.mem_iff.mp hnode)
    exact (h.balanced.active node hmem).mp (of_decide_eq_true hactive).1

/-- What adding a timer and cancelling one do to the heap of a state. -/
structure KeepsOthers (s : TimerState β) : Prop where
  add : ∀ timeoutMs clock cb granted loop id,
    addTimer s.loop timeoutMs clock (some cb) granted = .ok (loop, id) →
      InHeapOrder loop.timers ∧
        loop.timers.toList.Perm (⟨clock + timeoutMs, id, cb, true⟩ :: s.nodes)
  cancel : ∀ timerId loop, cancelTimer s.loop timerId = .ok loop →
    InHeapOrder loop.timers ∧ ∃ node rest, node.id = timerId ∧ s.nodes.Perm (node :: rest) ∧
      loop.timers.toList.Perm (node.deactivated :: rest)

theorem HeapKept.keepsOthers (h : HeapKept s) : KeepsOthers s := by
  constructor
  · intro timeoutMs clock cb granted loop id hadd
    obtain ⟨-, -, idx, htimers, -⟩ := addTimer_ok hadd
    refine ⟨addTimer_inHeapOrder h.heap hadd, ?_⟩
    rw [htimers]
    refine (Array.perm_iff_toList_perm.mp (siftUp_perm idx)).trans ?_
    rw [Array.toList_push]
    exact List.perm_append_singleton _ _
  · intro timerId loop hcancel
    obtain ⟨i, node, hnode, hid, -, rfl⟩ := cancelTimer_ok hcancel
    obtain ⟨rest, hbefore, hafter⟩ := deactivate_perm hnode
    exact ⟨deactivate_inHeapOrder h.heap i, node, rest, hid, hbefore, hafter⟩

/-- In every state that a loop reaches, a pass of `process_timers` whose callbacks are quiet fires
the expired timers in order, and the heap is kept by whoever adds or cancels a timer. -/
theorem timers_fire_in_order {s : LoopState β} {actions : List (LoopAction β)}
    (h : Run loopStep .init actions s) :
    InHeapOrder s.timers.loop.timers ∧ (∀ now, PassServes s.timers now) ∧ KeepsOthers s.timers :=
  have hkept := heapKept_of_run h
  ⟨hkept.heap, hkept.passServes, hkept.keepsOthers⟩

end Runs

/-- Three timers, one of them cancelled; the last one is the first to expire. -/
def threeTimers : List (LoopAction ℕ) :=
  [.timer (.addTimer 10 0 (some 7) true), .timer (.addTimer 5 1 (some 8) true),
    .timer (.addTimer 4 2 (some 9) true), .timer (.cancelTimer 2)]

theorem timers_fire_in_order_threeTimers :
    (processTimers 10 #[⟨6, 2, 8, false⟩, ⟨10, 1, 7, true⟩, ⟨6, 3, 9, true⟩]).1 =
        [⟨6, 3, 9, true⟩, ⟨10, 1, 7, true⟩] ∧
      PassServes ⟨⟨#[⟨6, 2, 8, false⟩, ⟨10, 1, 7, true⟩, ⟨6, 3, 9, true⟩], 16, 3⟩, .idle,
        [(1, 7), (2, 8), (3, 9)], [2], []⟩ 10 := by
  have hrun : Run loopStep .init threeTimers
      ⟨⟨⟨#[⟨6, 2, 8, false⟩, ⟨10, 1, 7, true⟩, ⟨6, 3, 9, true⟩], 16, 3⟩, .idle,
        [(1, 7), (2, 8), (3, 9)], [2], []⟩, []⟩ := run_iff.mpr (by decide +kernel)
  exact ⟨by decide +kernel, (timers_fire_in_order hrun).2.1 10⟩

end AbstractHttp.EventLoop
