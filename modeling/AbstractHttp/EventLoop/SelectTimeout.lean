import AbstractHttp.EventLoop.TimerOrder
import Mathlib.Order.Bounds.Basic

/-!
# How long the event loop sleeps

`http_loop_run` drops inactive timers only as they come to the root of the heap, and waits in
`select` until the root expires. The heap order makes that the first expiration of all active
timers, wherever inactive ones are left. A timer whose callback is still running is inactive too:
a callback that runs the loop may see it dropped.
-/
namespace AbstractHttp.EventLoop
open Library

variable {β : Type*}

theorem pruneRoot_size (timers : Array (TimerNode β)) :
    (pruneRoot timers).size = timers.size - 1 := by
  have hperm := (pruneRoot_perm timers).length_eq
  rwa [List.length_tail, Array.length_toList, Array.length_toList] at hperm

/-- The loop in `http_loop_run` that drops the inactive timers at the root. -/
def pruneInactive (timers : Array (TimerNode β)) : Array (TimerNode β) :=
  if h : timers.size > 0 then
    if timers[0].active then timers else pruneInactive (pruneRoot timers)
  else timers
termination_by timers.size
decreasing_by
  rw [pruneRoot_size]
  omega

/-- "Calculate next timeout": the timers that stay, and `next_timeout`. -/
def calculateNextTimeout (timers : Array (TimerNode β)) (now : ℤ) : Array (TimerNode β) × ℤ :=
  if timers.size > 0 then
    let timers := pruneInactive timers
    if h : timers.size > 0 then
      let timerTimeout := timers[0].expiration - now
      (timers, if timerTimeout < 0 then 0 else timerTimeout)
    else (timers, -1)
  else (timers, -1)

/-- `struct timeval`. -/
structure Timeval where
  tvSec : ℤ
  tvUsec : ℤ
  deriving DecidableEq, Repr

/-- The time that a `struct timeval` stands for, in microseconds. -/
def Timeval.microseconds (tv : Timeval) : ℤ := tv.tvSec * 1000000 + tv.tvUsec

/-- `select` takes no other ones. -/
def Timeval.Valid (tv : Timeval) : Prop := 0 ≤ tv.tvSec ∧ 0 ≤ tv.tvUsec ∧ tv.tvUsec < 1000000

/-- How an iteration of `http_loop_run` goes on: it leaves the loop, or it calls `select`, which
waits for ever where the timeout is NULL. -/
inductive Wait where
  | nothingToDo
  | select (timeout : Option Timeval)
  deriving DecidableEq, Repr

/-- The call of `select`, for the number of active descriptors and the timers that are left. -/
def waitFor (activeFds : ℕ) (timers : Array (TimerNode β)) (nextTimeout : ℤ) : Wait :=
  if activeFds = 0 ∧ timers.size = 0 then .nothingToDo
  else
    .select
      (if nextTimeout ≥ 0 then some ⟨nextTimeout.tdiv 1000, nextTimeout.tmod 1000 * 1000⟩ else none)

/-- An active timer expires at this time, and no active timer does so earlier. -/
def Earliest (nodes : List (TimerNode β)) (expiration : ℤ) : Prop :=
  IsLeast {time | ∃ node ∈ nodes, node.active = true ∧ node.expiration = time} expiration

section Pruning

variable {timers : Array (TimerNode β)} {now : ℤ}

/-- Only inactive timers are dropped. -/
theorem pruneInactive_perm (timers : Array (TimerNode β)) :
    ∃ removed : List (TimerNode β), timers.toList.Perm (removed ++ (pruneInactive timers).toList) ∧
      ∀ node ∈ removed, node.active = false := by
  fun_induction pruneInactive timers with
  | case1 timers h hactive => exact ⟨[], .refl _, by simp⟩
  | case2 timers h hinactive ih =>
    obtain ⟨removed, hperm, hremoved⟩ := ih
    refine ⟨timers[0] :: removed, (perm_pruneRoot h).trans (hperm.cons _), ?_⟩
    exact List.forall_mem_cons.mpr ⟨Bool.not_eq_true _ ▸ hinactive, hremoved⟩
  | case3 timers h => exact ⟨[], .refl _, by simp⟩

theorem pruneInactive_inHeapOrder (horder : InHeapOrder timers) :
    InHeapOrder (pruneInactive timers) := by
  fun_induction pruneInactive timers with
  | case1 => exact horder
  | case2 timers h hinactive ih => exact ih (pruneRoot_inHeapOrder horder)
  | case3 => exact horder

/-- The root that stays is active. -/
theorem pruneInactive_root (h : (pruneInactive timers).size > 0) :
    (pruneInactive timers)[0].active = true := by
  fun_induction pruneInactive timers with
  | case1 timers hsize hactive => exact hactive
  | case2 timers hsize hinactive ih => exact ih h
  | case3 timers hsize => exact absurd h hsize

theorem mem_of_active {node : TimerNode β} (hactive : node.active = true) :
    node ∈ (pruneInactive timers).toList ↔ node ∈ timers.toList := by
  obtain ⟨removed, hperm, hremoved⟩ := pruneInactive_perm timers
  rw [hperm.mem_iff, List.mem_append]
  refine (or_iff_right fun hmem => ?_).symm
  rw [hremoved node hmem] at hactive
  exact absurd hactive Bool.false_ne_true

/-- The loop stops at a root that is the first active timer to expire. -/
theorem pruneInactive_earliest (horder : InHeapOrder timers)
    (h : (pruneInactive timers).size > 0) :
    Earliest timers.toList (pruneInactive timers)[0].expiration := by
  have hroot := pruneInactive_root h
  constructor
  · refine ⟨_, (mem_of_active hroot).mp ?_, hroot, rfl⟩
    exact Array.getElem_mem_toList h
  · rintro time ⟨node, hnode, hactive, rfl⟩
    exact (pruneInactive_inHeapOrder horder).root_le_of_mem h ((mem_of_active hactive).mpr hnode)

/-- No timer is left exactly where none is active. -/
theorem pruneInactive_size_eq_zero :
    (pruneInactive timers).size = 0 ↔ ∀ node ∈ timers.toList, node.active = false := by
  constructor
  · intro hempty node hnode
    by_contra hactive
    rw [Bool.not_eq_false] at hactive
    have hmem := (mem_of_active hactive).mpr hnode
    rw [List.eq_nil_of_length_eq_zero (Array.length_toList.trans hempty)] at hmem
    cases hmem
  · intro hinactive
    by_contra hsize
    have hpos : (pruneInactive timers).size > 0 := Nat.pos_of_ne_zero hsize
    have hroot := pruneInactive_root hpos
    have hmem := (mem_of_active hroot).mp (Array.getElem_mem_toList hpos)
    rw [hinactive _ hmem] at hroot
    exact absurd hroot Bool.false_ne_true

theorem calculateNextTimeout_timers (timers : Array (TimerNode β)) (now : ℤ) :
    (calculateNextTimeout timers now).1 = pruneInactive timers := by
  rw [calculateNextTimeout]
  split
  · dsimp only
    split <;> rfl
  next hempty =>
    rw [pruneInactive, dif_neg hempty]

theorem calculateNextTimeout_empty (h : (pruneInactive timers).size = 0) :
    (calculateNextTimeout timers now).2 = -1 := by
  rw [calculateNextTimeout]
  split
  · rw [dif_neg (by omega)]
  · rfl

theorem calculateNextTimeout_earliest {expiration : ℤ} (horder : InHeapOrder timers)
    (h : Earliest timers.toList expiration) :
    (calculateNextTimeout timers now).2 = max 0 (expiration - now) := by
  obtain ⟨⟨first, hfirst, hactive, -⟩, -⟩ := id h
  have hpos : (pruneInactive timers).size > 0 := by
    refine Nat.pos_of_ne_zero fun hempty => ?_
    rw [pruneInactive_size_eq_zero.mp hempty first hfirst] at hactive
    exact absurd hactive Bool.false_ne_true
  have hsize : timers.size > 0 := by
    rw [← Array.length_toList]
    exact List.length_pos_of_mem hfirst
  have hroot : (pruneInactive timers)[0].expiration = expiration :=
    (pruneInactive_earliest horder hpos).unique h
  rw [calculateNextTimeout, if_pos hsize]
  dsimp only
  rw [dif_pos hpos, hroot]
  split_ifs with hlate
  · exact (max_eq_left hlate.le).symm
  · exact (max_eq_right (not_lt.mp hlate)).symm

end Pruning

section Waiting

variable {timers : Array (TimerNode β)} {now nextTimeout : ℤ} {activeFds : ℕ}

/-- How long `select` waits, as far as the active timers tell. -/
structure WaitsForEarliest (nodes : List (TimerNode β)) (now : ℤ) (activeFds : ℕ) (wait : Wait) :
    Prop where
  finite : ∀ expiration, Earliest nodes expiration → ∃ tv, wait = .select (some tv) ∧ tv.Valid ∧
    tv.microseconds = max 0 (expiration - now) * 1000
  infinite : (∀ tv, wait ≠ .select (some tv)) ↔ ∀ node ∈ nodes, node.active = false
  leaves : wait = .nothingToDo ↔ activeFds = 0 ∧ ∀ node ∈ nodes, node.active = false
  notPast : ∀ node ∈ nodes, node.active = true → ∀ tv, wait = .select (some tv) →
    tv.microseconds ≤ max 0 (node.expiration - now) * 1000

theorem timeval_exact (h : 0 ≤ nextTimeout) :
    Timeval.Valid ⟨nextTimeout.tdiv 1000, nextTimeout.tmod 1000 * 1000⟩ ∧
      Timeval.microseconds ⟨nextTimeout.tdiv 1000, nextTimeout.tmod 1000 * 1000⟩ =
        nextTimeout * 1000 := by
  rw [Timeval.Valid, Timeval.microseconds, Int.tdiv_eq_ediv_of_nonneg h,
    Int.tmod_eq_emod_of_nonneg h]
  dsimp only
  omega

theorem waitFor_nonneg (hsize : timers.size > 0) (h : 0 ≤ nextTimeout) :
    waitFor activeFds timers nextTimeout =
      .select (some ⟨nextTimeout.tdiv 1000, nextTimeout.tmod 1000 * 1000⟩) := by
  rw [waitFor, if_neg (by omega), if_pos h]

theorem waitFor_empty (hsize : timers.size = 0) :
    waitFor activeFds timers (-1) = if activeFds = 0 then .nothingToDo else .select none := by
  rw [waitFor, if_neg (show ¬ (-1 : ℤ) ≥ 0 by omega)]
  simp only [hsize, and_true]

/-- The timeout is right in every heap. -/
theorem waitFor_waitsForEarliest (horder : InHeapOrder timers) (now : ℤ) (activeFds : ℕ) :
    WaitsForEarliest timers.toList now activeFds
      (waitFor activeFds (calculateNextTimeout timers now).1 (calculateNextTimeout timers now).2) := by
  rw [calculateNextTimeout_timers]
  rcases Nat.eq_zero_or_pos (pruneInactive timers).size with hempty | hpos
  · have hinactive := pruneInactive_size_eq_zero.mp hempty
    rw [calculateNextTimeout_empty hempty, waitFor_empty hempty]
    constructor
    · rintro expiration ⟨⟨node, hnode, hactive, -⟩, -⟩
      rw [hinactive node hnode] at hactive
      exact absurd hactive Bool.false_ne_true
    · refine iff_of_true (fun tv => ?_) hinactive
      split_ifs <;> simp
    · rw [and_iff_left hinactive]
      split_ifs with hfds <;> simp [hfds]
    · intro node hnode hactive
      rw [hinactive node hnode] at hactive
      exact absurd hactive Bool.false_ne_true
  · have hearliest := pruneInactive_earliest horder hpos
    have hsome : ¬ ∀ node ∈ timers.toList, node.active = false :=
      mt pruneInactive_size_eq_zero.mpr hpos.ne'
    rw [calculateNextTimeout_earliest horder hearliest, waitFor_nonneg hpos (le_max_left _ _)]
    obtain ⟨hvalid, hexact⟩ := timeval_exact
      (le_max_left (0 : ℤ) ((pruneInactive timers)[0].expiration - now))
    constructor
    · intro expiration hexpiration
      obtain rfl := hearliest.unique hexpiration
      exact ⟨_, rfl, hvalid, hexact⟩
    · exact iff_of_false (fun h => h _ rfl) hsome
    · exact iff_of_false (by simp) fun h => hsome h.2
    · intro node hnode hactive tv htv
      obtain rfl := Option.some.inj (Wait.select.inj htv)
      rw [hexact]
      have hle := hearliest.2 ⟨node, hnode, hactive, rfl⟩
      have hmax := max_le_max_left 0 (sub_le_sub_right hle now)
      omega

end Waiting

/-! Which timers are inactive. -/

section Runs

variable {s u : LoopState β} {now : ℤ}

/-- A pass of `process_timers` that read the clock as `now` is going on. -/
def LoopState.InPass (s : LoopState β) (now : ℤ) : Prop :=
  s.timers.phase = .processing now ∨ .inCallback now ∈ s.timers.phase :: s.suspended

/-- An inactive timer was cancelled, or a pass that is still going on found it expired. -/
def LoopState.Accounted (s : LoopState β) (node : TimerNode β) : Prop :=
  node.active = false → node.id ∈ s.timers.cancelled ∨ ∃ now, s.InPass now ∧ node.expiration ≤ now

/-- What holds of the inactive timers between any two actions. -/
structure PassesKept (s : LoopState β) : Prop where
  kept : HeapKept s.timers
  accounted : ∀ node ∈ s.timers.nodes, s.Accounted node

/-- A timer stays accounted for as long as the passes go on. -/
theorem LoopState.Accounted.mono {node : TimerNode β} (h : s.Accounted node)
    (hcancelled : s.timers.cancelled ⊆ u.timers.cancelled)
    (hpass : ∀ now, s.InPass now → node.expiration ≤ now → u.InPass now) : u.Accounted node := by
  intro hinactive
  rcases h hinactive with hmem | ⟨now, hnow, hle⟩
  · exact .inl (hcancelled hmem)
  · exact .inr ⟨now, hpass now hnow hle, hle⟩

/-- An action that only drops nodes and keeps the passes. -/
theorem accounted_of_subset {timers : TimerState β} {suspended : List TimerPhase}
    (h : ∀ node ∈ s.timers.nodes, s.Accounted node) (hnodes : timers.nodes ⊆ s.timers.nodes)
    (hcancelled : s.timers.cancelled = timers.cancelled)
    (hpass : ∀ now, s.InPass now → LoopState.InPass ⟨timers, suspended⟩ now) :
    ∀ node ∈ timers.nodes, LoopState.Accounted ⟨timers, suspended⟩ node :=
  fun node hnode => (h node (hnodes hnode)).mono (hcancelled ▸ List.Subset.refl _)
    fun now hnow _ => hpass now hnow

theorem addTimer_accounted (h : ∀ node ∈ s.timers.nodes, s.Accounted node) (timeoutMs clock : ℤ)
    (cb : Option β) (granted : Bool) :
    ∀ node ∈ (s.timers.addTimer timeoutMs clock cb granted).nodes,
      LoopState.Accounted { s with timers := s.timers.addTimer timeoutMs clock cb granted } node := by
  unfold TimerState.addTimer
  split
  next cb loop id hadd =>
    obtain ⟨-, -, idx, htimers, -⟩ := addTimer_ok hadd
    intro node hnode hinactive
    rw [TimerState.nodes, htimers] at hnode
    have hmem := (Array.perm_iff_toList_perm.mp (siftUp_perm idx)).mem_iff.mp hnode
    rw [Array.toList_push, List.mem_append, List.mem_singleton] at hmem
    rcases hmem with hold | rfl
    · exact h node hold hinactive
    · cases hinactive
  next => exact h

theorem cancelTimer_accounted (h : ∀ node ∈ s.timers.nodes, s.Accounted node) (timerId : ℤ) :
    ∀ node ∈ (s.timers.cancelTimer timerId).nodes,
      LoopState.Accounted { s with timers := s.timers.cancelTimer timerId } node := by
  rw [TimerState.cancelTimer]
  split
  next loop hcancel =>
    obtain ⟨i, target, htarget, rfl, -, rfl⟩ := cancelTimer_ok hcancel
    obtain ⟨rest, hbefore, hafter⟩ := deactivate_perm htarget
    intro node hnode
    rcases List.mem_cons.mp (hafter.mem_iff.mp hnode) with rfl | hrest
    · exact fun _ => .inl (List.mem_append_right _ (List.mem_singleton_self _))
    · have hold := h node (hbefore.mem_iff.mpr (List.mem_cons_of_mem _ hrest))
      exact hold.mono (List.subset_append_left _ _) fun now hnow _ => hnow
  next => exact h

theorem removeMin_nodes_subset (s : TimerState β) (now : ℤ) : (s.removeMin now).nodes ⊆ s.nodes :=
  fun _ hnode => List.mem_of_mem_tail ((removeMinElement_perm s.loop.timers).mem_iff.mp hnode)

/-- A round ends the pass only where no timer is left that the pass found expired. -/
theorem round_accounted (hkept : PassesKept s) (hphase : s.timers.phase = .processing now) :
    ∀ node ∈ (s.timers.round now).nodes,
      LoopState.Accounted { s with timers := s.timers.round now } node := by
  obtain ⟨⟨-, horder⟩, h⟩ := hkept
  have hpasses : ∀ n, s.InPass n ↔ n = now ∨ .inCallback n ∈ s.suspended := by
    intro n
    simp [LoopState.InPass, hphase, eq_comm]
  rw [TimerState.round]
  split
  next hroot =>
    intro node hnode
    have hempty : s.timers.loop.timers.size = 0 :=
      Nat.le_zero.mp (Array.getElem?_eq_none_iff.mp hroot)
    rw [TimerState.nodes, List.eq_nil_of_length_eq_zero hempty] at hnode
    cases hnode
  next root hroot =>
    obtain ⟨hsize, hget⟩ := Array.getElem?_eq_some_iff.mp hroot
    split_ifs with hfuture hactive
    · intro node hnode
      refine (h node hnode).mono (List.Subset.refl _) fun n hn hle => ?_
      have hfirst := horder.root_le_of_mem hsize hnode
      rw [hget] at hfirst
      rcases (hpasses n).mp hn with rfl | hsuspended
      · omega
      · exact .inr (List.mem_cons_of_mem _ hsuspended)
    · obtain ⟨rest, hbefore, hafter⟩ := deactivate_perm hroot
      intro node hnode
      have hnow : ∀ n, s.InPass n → LoopState.InPass
          { s with timers := { s.timers with
            loop := { s.timers.loop with timers := deactivate s.timers.loop.timers 0 }
            phase := .inCallback now
            invoked := s.timers.invoked ++ [root.timer] } } n := by
        intro n hn
        rcases (hpasses n).mp hn with rfl | hsuspended
        · exact .inr List.mem_cons_self
        · exact .inr (List.mem_cons_of_mem _ hsuspended)
      rcases List.mem_cons.mp (hafter.mem_iff.mp hnode) with rfl | hrest
      · exact fun _ => .inr ⟨now, .inr List.mem_cons_self, not_lt.mp hfuture⟩
      · have hold := h node (hbefore.mem_iff.mpr (List.mem_cons_of_mem _ hrest))
        exact hold.mono (List.Subset.refl _) fun n hn _ => hnow n hn
    · refine accounted_of_subset h (removeMin_nodes_subset _ _) rfl fun n hn => ?_
      rcases (hpasses n).mp hn with rfl | hsuspended
      · exact .inl rfl
      · exact .inr (List.mem_cons_of_mem _ hsuspended)

theorem timerStep_accounted {a : TimerAction β} {timers : TimerState β} (hkept : PassesKept s)
    (hstep : timerStep s.timers a = some timers) :
    ∀ node ∈ timers.nodes, LoopState.Accounted { s with timers := timers } node := by
  have hcallable := hstep
  cases timerStep_moves hstep with
  | addTimer timeoutMs clock cb granted =>
    exact addTimer_accounted hkept.accounted timeoutMs clock cb granted
  | cancelTimer timerId => exact cancelTimer_accounted hkept.accounted timerId
  | processTimers now =>
    rw [timerStep, Option.ite_none_right_eq_some] at hcallable
    refine accounted_of_subset hkept.accounted (List.Subset.refl _) rfl fun n hn => ?_
    rw [LoopState.InPass, hcallable.1] at hn
    have hsuspended : TimerPhase.inCallback n ∈ s.suspended := by simpa using hn
    exact .inr (List.mem_cons_of_mem _ hsuspended)
  | round hphase => exact round_accounted hkept hphase
  | @callbackReturns now hphase =>
    refine accounted_of_subset hkept.accounted (removeMin_nodes_subset _ _) rfl fun n hn => ?_
    rw [LoopState.InPass, hphase] at hn
    have hcases : n = now ∨ TimerPhase.inCallback n ∈ s.suspended := by simpa using hn
    rcases hcases with rfl | hsuspended
    · exact .inl rfl
    · exact .inr (List.mem_cons_of_mem _ hsuspended)

theorem loopStep_passesKept {a : LoopAction β} (hkept : PassesKept s)
    (h : loopStep s a = some u) : PassesKept u := by
  refine ⟨loopStep_heapKept hkept.kept h, ?_⟩
  cases loopStep_moves h with
  | timer hstep => exact timerStep_accounted hkept hstep
  | prune =>
    refine accounted_of_subset hkept.accounted (fun node hnode => ?_) rfl fun _ hn => hn
    exact List.mem_of_mem_tail ((pruneRoot_perm _).mem_iff.mp hnode)
  | enterLoop hphase =>
    refine accounted_of_subset hkept.accounted (List.Subset.refl _) rfl fun n hn => ?_
    rw [LoopState.InPass, hphase] at hn
    exact .inr (List.mem_cons_of_mem _ (hn.resolve_left (by simp)))
  | leaveLoop hphase hsuspended =>
    refine accounted_of_subset hkept.accounted (List.Subset.refl _) rfl fun n hn => ?_
    rw [LoopState.InPass, hphase, hsuspended] at hn
    exact .inr ((List.mem_cons.mp (hn.resolve_left (by simp))).resolve_left (by simp))

theorem passesKept_of_run {actions : List (LoopAction β)} (h : Run loopStep .init actions s) :
    PassesKept s := by
  refine h.invariant (P := PassesKept) (A := fun _ => True)
    (fun _ _ _ _ hprev hstep => loopStep_passesKept hprev hstep) ⟨heapKept_of_run .start, ?_⟩
    fun _ _ => trivial
  intro node hnode
  cases hnode

/-- The state with another heap. -/
def LoopState.withTimers (s : LoopState β) (timers : Array (TimerNode β)) : LoopState β :=
  { s with timers := { s.timers with loop := { s.timers.loop with timers := timers } } }

/-- The state in which `select` is called. -/
def LoopState.pruned (s : LoopState β) : LoopState β :=
  s.withTimers (pruneInactive s.timers.loop.timers)

theorem loopStep_prune (hidle : s.timers.phase = .idle) {root : TimerNode β}
    (hroot : s.timers.loop.timers[0]? = some root) (hinactive : root.active = false) :
    loopStep s .prune = some (s.withTimers (pruneRoot s.timers.loop.timers)) := by
  rw [loopStep, hroot]
  exact if_pos ⟨hidle, by rw [hinactive]; exact Bool.false_ne_true⟩

/-- The rounds of `pruneInactive` are steps of the loop. -/
theorem run_pruned (hidle : s.timers.phase = .idle) :
    ∃ rounds, Run loopStep s (List.replicate rounds .prune) s.pruned := by
  generalize htimers : s.timers.loop.timers = timers
  induction timers using pruneInactive.induct generalizing s with
  | case1 timers h hactive =>
    subst htimers
    refine ⟨0, ?_⟩
    rw [LoopState.pruned, pruneInactive, dif_pos h, if_pos hactive]
    exact .start
  | case2 timers h hinactive ih =>
    subst htimers
    have hstep := loopStep_prune hidle (Array.getElem?_eq_getElem h)
      (Bool.not_eq_true _ ▸ hinactive)
    obtain ⟨rounds, hrun⟩ := ih (s := s.withTimers (pruneRoot s.timers.loop.timers)) hidle rfl
    refine ⟨rounds + 1, run_iff.mpr ?_⟩
    have hrest : s.pruned = (s.withTimers (pruneRoot s.timers.loop.timers)).pruned := by
      rw [LoopState.pruned, pruneInactive, dif_pos h, if_neg hinactive]
      rfl
    rw [List.replicate_succ, List.foldlM_cons, hstep, hrest]
    exact run_iff.mp hrun
  | case3 timers h =>
    subst htimers
    refine ⟨0, ?_⟩
    rw [LoopState.pruned, pruneInactive, dif_neg h]
    exact .start

/-- The nodes that are dropped are inactive: they were cancelled or, where a callback runs the loop,
their callback is still running. -/
theorem pruned_removed {actions : List (LoopAction β)} (h : Run loopStep .init actions s)
    (hidle : s.timers.phase = .idle) :
    ∃ removed, s.timers.nodes.Perm (removed ++ s.pruned.timers.nodes) ∧
      ∀ node ∈ removed, node.active = false ∧ (node.id ∈ s.timers.cancelled ∨
        node.timer ∈ s.timers.invoked ∧
          ∃ outer, .inCallback outer ∈ s.suspended ∧ node.expiration ≤ outer) := by
  have hkept := passesKept_of_run h
  obtain ⟨removed, hperm, hremoved⟩ := pruneInactive_perm s.timers.loop.timers
  refine ⟨removed, hperm, fun node hnode => ⟨hremoved node hnode, ?_⟩⟩
  have hmem : node ∈ s.timers.nodes := hperm.mem_iff.mpr (List.mem_append_left _ hnode)
  by_cases hcancelled : node.id ∈ s.timers.cancelled
  · exact .inl hcancelled
  · obtain ⟨outer, hpass, hle⟩ :=
      (hkept.accounted node hmem (hremoved node hnode)).resolve_left hcancelled
    have hinvoked : node.timer ∈ s.timers.invoked := by
      by_contra hnot
      have hactive := (hkept.kept.balanced.active node hmem).mpr ⟨hcancelled, hnot⟩
      rw [hremoved node hnode] at hactive
      exact Bool.false_ne_true hactive
    rw [LoopState.InPass, hidle] at hpass
    have hsuspended := (List.mem_cons.mp (hpass.resolve_left (by simp))).resolve_left (by simp)
    exact .inr ⟨hinvoked, outer, hsuspended, hle⟩

/-- No timer callback runs the loop. -/
def NoneNested (actions : List (LoopAction β)) : Prop := ∀ a ∈ actions, a ≠ .enterLoop

theorem NoneNested.suspended_eq {actions : List (LoopAction β)} (hnone : NoneNested actions)
    (h : Run loopStep .init actions s) : s.suspended = [] := by
  refine h.invariant (P := fun s => s.suspended = []) (A := fun a => a ≠ .enterLoop) ?_ rfl
    fun a ha => hnone a ha
  intro t a u hne hsuspended hstep
  cases loopStep_moves hstep with
  | timer => exact hsuspended
  | prune => exact hsuspended
  | enterLoop => exact absurd rfl hne
  | leaveLoop _ hmore =>
    rw [hsuspended] at hmore
    cases hmore

/-- What an iteration of `http_loop_run` does from `process_timers` to `select`. -/
structure SleepsInTime (s : LoopState β) (now : ℤ) (activeFds : ℕ) : Prop where
  prunes : ∃ rounds, Run loopStep s (List.replicate rounds .prune) s.pruned
  removed : ∃ removed, s.timers.nodes.Perm (removed ++ s.pruned.timers.nodes) ∧
    ∀ node ∈ removed, node.active = false ∧ node.id ∈ s.timers.cancelled
  heap : InHeapOrder s.pruned.timers.loop.timers
  waits : WaitsForEarliest s.timers.nodes now activeFds
    (waitFor activeFds (calculateNextTimeout s.timers.loop.timers now).1
      (calculateNextTimeout s.timers.loop.timers now).2)

/-- Where no timer callback runs the loop, an iteration of `http_loop_run` drops only cancelled
timers before `select`. It keeps the heap, and `select` waits until the first active timer
expires. -/
theorem select_sleeps_in_time {actions : List (LoopAction β)} (h : Run loopStep .init actions s)
    (hnone : NoneNested actions) (hidle : s.timers.phase = .idle) (now : ℤ) (activeFds : ℕ) :
    SleepsInTime s now activeFds := by
  have hheap := (passesKept_of_run h).kept.heap
  refine ⟨run_pruned hidle, ?_, pruneInactive_inHeapOrder hheap,
    waitFor_waitsForEarliest hheap now activeFds⟩
  obtain ⟨removed, hperm, hremoved⟩ := pruned_removed h hidle
  refine ⟨removed, hperm, fun node hnode => ?_⟩
  obtain ⟨hinactive, hcancelled | ⟨-, outer, hsuspended, -⟩⟩ := hremoved node hnode
  · exact ⟨hinactive, hcancelled⟩
  · rw [hnone.suspended_eq h] at hsuspended
    exact absurd hsuspended List.not_mem_nil

end Runs

/-- Two timers, the first of which is cancelled. -/
def firstCancelled : List (LoopAction ℕ) :=
  [.timer (.addTimer 10 0 (some 7) true), .timer (.addTimer 2500 1 (some 8) true),
    .timer (.cancelTimer 1)]

/-- What they lead to. -/
def oneLeft : LoopState ℕ :=
  ⟨⟨⟨#[⟨10, 1, 7, false⟩, ⟨2501, 2, 8, true⟩], 16, 2⟩, .idle, [(1, 7), (2, 8)], [1], []⟩, []⟩

theorem select_sleeps_in_time_firstCancelled :
    waitFor 0 (calculateNextTimeout oneLeft.timers.loop.timers 1000).1
        (calculateNextTimeout oneLeft.timers.loop.timers 1000).2 =
          .select (some ⟨1, 501000⟩) ∧
      SleepsInTime oneLeft 1000 0 := by
  have hrun : Run loopStep .init firstCancelled oneLeft := run_iff.mpr (by decide +kernel)
  have hnone : NoneNested firstCancelled := by simp [NoneNested, firstCancelled]
  exact ⟨by decide +kernel, select_sleeps_in_time hrun hnone rfl 1000 0⟩

/-- A timer expires, its callback runs the loop, and the clock has been set back in between. -/
def clockSetBack : List (LoopAction ℕ) :=
  [.timer (.addTimer 10 0 (some 7) true), .timer (.processTimers 10), .timer .round, .enterLoop,
    .timer (.processTimers 5), .timer .round]

/-- The timer that is dropped was not cancelled. -/
theorem clockSetBack_drops_fired :
    ∃ s, Run loopStep .init clockSetBack s ∧ s.timers.phase = .idle ∧ s.timers.cancelled = [] ∧
      s.timers.nodes = [⟨10, 1, 7, false⟩] ∧ s.pruned.timers.nodes = [] := by
  refine ⟨⟨⟨⟨#[⟨10, 1, 7, false⟩], 16, 1⟩, .idle, [(1, 7)], [], [(1, 7)]⟩, [.inCallback 10]⟩,
    run_iff.mpr (by decide +kernel), rfl, rfl, rfl, by decide +kernel⟩

end AbstractHttp.EventLoop
