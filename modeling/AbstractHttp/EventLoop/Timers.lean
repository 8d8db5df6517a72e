import AbstractHttp.ErrorCode
import AbstractHttp.Library.Heap

/-!
# The timers of the event loop

`event_loop.c` keeps its timers in a heap ordered by expiration. A cancelled timer stays there,
inactive, until it comes to the root. Identifiers and times do not wrap: C leaves an overflow of
theirs undefined.
-/
namespace AbstractHttp.EventLoop

variable {β : Type*}

/-- `struct TimerNode`; `cb` stands for the callback with its `user_data`. -/
structure TimerNode (β : Type*) where
  expiration : ℤ
  id : ℤ
  cb : β
  active : Bool
  deriving DecidableEq, Repr

/-- The timer that a node stands for. -/
def TimerNode.timer (node : TimerNode β) : ℤ × β := (node.id, node.cb)

/-- `struct ModalityEventLoop` as far as its timers go; `timer_count` is the size of `timers`. -/
structure ModalityEventLoop (β : Type*) where
  timers : Array (TimerNode β)
  timerCapacity : ℕ
  nextTimerId : ℤ
  deriving DecidableEq

/-- `http_loop_init`. -/
def ModalityEventLoop.init : ModalityEventLoop β := ⟨#[], 16, 0⟩

/-- `timer_heap_up`. -/
def timerHeapUp (timers : Array (TimerNode β)) (idx : Fin timers.size) : Array (TimerNode β) :=
  Library.siftUp TimerNode.expiration timers idx

/-- `timer_heap_down`. -/
def timerHeapDown (timers : Array (TimerNode β)) (idx : Fin timers.size) : Array (TimerNode β) :=
  Library.siftDown TimerNode.expiration timers idx

/-- "Remove min element" in `process_timers`: while the last node sinks from the root, its old slot
still counts. -/
def removeMinElement (timers : Array (TimerNode β)) : Array (TimerNode β) :=
  (if h : timers.size > 1 then
    timerHeapDown (timers.set 0 timers[timers.size - 1]) ⟨0, by rw [Array.size_set]; omega⟩
  else timers).pop

/-- Room for one more timer; `granted` is whether `realloc` succeeds. -/
def growTimers (loop : ModalityEventLoop β) (granted : Bool) :
    Except ErrorCode (ModalityEventLoop β) :=
  if loop.timers.size ≥ loop.timerCapacity then
    if granted then .ok { loop with timerCapacity := loop.timerCapacity * 2 } else .error .nomem
  else .ok loop

/-- `http_loop_add_timer`, and the timer's identifier; no `cb` is NULL, and `clock` is what
`math_get_current_time_ms` returns. -/
def addTimer (loop : ModalityEventLoop β) (timeoutMs clock : ℤ) (cb : Option β) (granted : Bool) :
    Except ErrorCode (ModalityEventLoop β × ℤ) :=
  match cb with
  | none => .error .inval
  | some cb => do
    let loop ← growTimers loop granted
    let id := loop.nextTimerId + 1
    let timers := loop.timers.push ⟨clock + timeoutMs, id, cb, true⟩
    let idx : Fin timers.size := ⟨loop.timers.size, by simp [timers]⟩
    return (⟨timerHeapUp timers idx, loop.timerCapacity, id⟩, id)

/-- The node, no longer active. -/
def TimerNode.deactivated (node : TimerNode β) : TimerNode β := { node with active := false }

@[simp] theorem TimerNode.deactivated_id (node : TimerNode β) : node.deactivated.id = node.id := rfl

@[simp] theorem TimerNode.deactivated_timer (node : TimerNode β) :
    node.deactivated.timer = node.timer := rfl

@[simp] theorem TimerNode.deactivated_active (node : TimerNode β) :
    node.deactivated.active = false := rfl

/-- `timers[i].active = 0`. -/
def deactivate (timers : Array (TimerNode β)) (i : ℕ) : Array (TimerNode β) :=
  timers.modify i TimerNode.deactivated

/-- `http_loop_cancel_timer`. -/
def cancelTimer (loop : ModalityEventLoop β) (timerId : ℤ) :
    Except ErrorCode (ModalityEventLoop β) :=
  match loop.timers.findIdx? fun node => node.id = timerId ∧ node.active with
  | some i => .ok { loop with timers := deactivate loop.timers i }
  | none => .error .inval

section Nodes

variable {loop loop' : ModalityEventLoop β} {timers : Array (TimerNode β)} {i : ℕ}

theorem growTimers_keeps {granted : Bool} (h : growTimers loop granted = .ok loop') :
    loop'.timers = loop.timers ∧ loop'.nextTimerId = loop.nextTimerId := by
  rw [growTimers] at h
  split_ifs at h with hfull hgranted
  · obtain rfl := Except.ok.inj h
    exact ⟨rfl, rfl⟩
  · obtain rfl := Except.ok.inj h
    exact ⟨rfl, rfl⟩

/-- A timer is added active, under the next identifier, and moves up from the end. -/
theorem addTimer_ok {timeoutMs clock id : ℤ} {cb : β} {granted : Bool}
    (h : addTimer loop timeoutMs clock (some cb) granted = .ok (loop', id)) :
    id = loop.nextTimerId + 1 ∧ loop'.nextTimerId = id ∧
      ∃ idx, loop'.timers =
        timerHeapUp (loop.timers.push ⟨clock + timeoutMs, id, cb, true⟩) idx ∧
          idx.val = loop.timers.size := by
  rw [addTimer] at h
  cases hgrow : growTimers loop granted with
  | error e =>
    rw [hgrow] at h
    cases h
  | ok grown =>
    obtain ⟨htimers, hnext⟩ := growTimers_keeps hgrow
    rw [hgrow] at h
    obtain ⟨rfl, rfl⟩ := Prod.mk.inj (Except.ok.inj h)
    obtain ⟨timers, capacity, next⟩ := grown
    obtain rfl : timers = loop.timers := htimers
    obtain rfl : next = loop.nextTimerId := hnext
    exact ⟨rfl, rfl, ⟨loop.timers.size, by simp⟩, rfl, rfl⟩

/-- A timer does not take the root's place unless it expires earlier. -/
theorem addTimer_root {timeoutMs clock id : ℤ} {cb : β} {granted : Bool} {root : TimerNode β}
    (h : addTimer loop timeoutMs clock (some cb) granted = .ok (loop', id))
    (hroot : loop.timers[0]? = some root) (hlate : root.expiration ≤ clock + timeoutMs) :
    loop'.timers[0]? = some root := by
  obtain ⟨-, -, idx, htimers, hidx⟩ := addTimer_ok h
  have hpos : 0 < loop.timers.size := (Array.getElem?_eq_some_iff.mp hroot).1
  have hpushed : (loop.timers.push ⟨clock + timeoutMs, id, cb, true⟩)[0]? = some root := by
    rw [Array.getElem?_push, if_neg hpos.ne, hroot]
  rw [htimers, timerHeapUp]
  rcases Library.siftUp_root TimerNode.expiration idx with hkept | ⟨-, hless⟩
  · rw [hkept, hpushed]
  · have hearlier := hless root hpushed
    simp only [Fin.getElem_fin, hidx, Array.getElem_push_eq] at hearlier
    omega

theorem cancelTimer_ok {timerId : ℤ} (h : cancelTimer loop timerId = .ok loop') :
    ∃ i node, loop.timers[i]? = some node ∧ node.id = timerId ∧ node.active = true ∧
      loop' = { loop with timers := deactivate loop.timers i } := by
  rw [cancelTimer] at h
  split at h
  next i hi =>
    obtain rfl := Except.ok.inj h
    obtain ⟨hsize, hfound, -⟩ := Array.findIdx?_eq_some_iff_getElem.mp hi
    rw [decide_eq_true_iff] at hfound
    exact ⟨i, _, Array.getElem?_eq_getElem hsize, hfound.1, hfound.2, rfl⟩
  next => cases h

/-- Where no timer is found, none that is active has the identifier. -/
theorem cancelTimer_error {timerId : ℤ} {e : ErrorCode}
    (h : cancelTimer loop timerId = .error e) :
    e = .inval ∧ ∀ node ∈ loop.timers.toList, node.active = true → node.id ≠ timerId := by
  rw [cancelTimer] at h
  split at h
  next => cases h
  next hnone =>
    refine ⟨(Except.error.inj h).symm, fun node hnode hactive hid => ?_⟩
    rw [Array.findIdx?_eq_none_iff] at hnone
    have hnot := hnone node (Array.mem_toList_iff.mp hnode)
    rw [decide_eq_false_iff_not] at hnot
    exact hnot ⟨hid, hactive⟩

/-- The root and nothing else is removed. -/
theorem removeMinElement_perm (timers : Array (TimerNode β)) :
    (removeMinElement timers).toList.Perm timers.toList.tail := by
  rw [removeMinElement]
  split
  next h => exact Library.siftDown_set_root (Array.getElem?_eq_getElem _) h _
  next h =>
    have hshort : timers.toList.length ≤ 1 := by simpa using h
    match hlist : timers.toList, hshort with
    | [], _ => simp [Array.toList_pop, hlist]
    | [x], _ => simp [Array.toList_pop, hlist]

/-- One node is deactivated, and the others stay as they are. -/
theorem deactivate_perm {target : TimerNode β} (htarget : timers[i]? = some target) :
    ∃ rest, timers.toList.Perm (target :: rest) ∧
      (deactivate timers i).toList.Perm (target.deactivated :: rest) := by
  have hi : i < timers.toList.length := (Array.getElem?_eq_some_iff.mp htarget).1
  obtain ⟨before, node, after, hsplit, rfl, hmodified⟩ :=
    List.exists_of_modify TimerNode.deactivated hi
  obtain rfl : node = target := by
    rw [← Array.getElem?_toList, hsplit] at htarget
    simpa using htarget
  refine ⟨before ++ after, ?_, ?_⟩
  · rw [hsplit]
    exact List.perm_middle
  · rw [deactivate, Array.toList_modify, hmodified]
    exact List.perm_middle

end Nodes

end AbstractHttp.EventLoop
