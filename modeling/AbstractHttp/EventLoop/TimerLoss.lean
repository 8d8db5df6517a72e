import AbstractHttp.EventLoop.TimerRuns

/-!
# No timer is lost

The books of the event loop's timers: as long as a node is active, nothing happened to its timer.
They balance whatever the callbacks do, but the node that `process_timers` removes after a callback
need not be the one that the callback belongs to.
-/
namespace AbstractHttp.EventLoop

variable {β : Type*}

/-! The books of the timers: which nodes there are, and what happened to each timer. -/

/-- The nodes and the record agree; a node is active as long as nothing happened to its timer. -/
structure Accounts (nodes : List (TimerNode β)) (next : ℤ) (added : List (ℤ × β))
    (cancelled : List ℤ) (invoked : List (ℤ × β)) : Prop where
  distinct : (nodes.map TimerNode.id).Nodup
  present : ∀ node ∈ nodes, node.timer ∈ added
  addedOnce : (added.map Prod.fst).Nodup
  addedLe : ∀ timer ∈ added, timer.1 ≤ next
  active : ∀ node ∈ nodes, node.active = true ↔ node.id ∉ cancelled ∧ node.timer ∉ invoked
  cancelledLe : ∀ id ∈ cancelled, id ≤ next
  invokedAdded : ∀ timer ∈ invoked, timer ∈ added
  invokedOnce : (invoked.map Prod.fst).Nodup

/-- A timer that is out of the heap was cancelled or invoked. -/
def Settled (nodes : List (TimerNode β)) (added : List (ℤ × β)) (cancelled : List ℤ)
    (invoked : List (ℤ × β)) : Prop :=
  ∀ timer ∈ added, timer.1 ∉ cancelled → (∀ node ∈ nodes, node.timer ≠ timer) → timer ∈ invoked

theorem ids_nodup_append {timers : List (ℤ × β)} {timer : ℤ × β}
    (h : (timers.map Prod.fst).Nodup) (hnew : ∀ other ∈ timers, other.1 ≠ timer.1) :
    ((timers ++ [timer]).map Prod.fst).Nodup := by
  rw [List.map_append]
  refine List.Nodup.append h (List.nodup_singleton _) ?_
  intro id hmem hlast
  obtain ⟨other, hother, rfl⟩ := List.mem_map.mp hmem
  exact hnew other hother (List.mem_singleton.mp hlast)

namespace Accounts

variable {nodes nodes' rest : List (TimerNode β)} {node root : TimerNode β} {next : ℤ}
  {added invoked : List (ℤ × β)} {cancelled : List ℤ}

theorem perm (h : Accounts nodes next added cancelled invoked) (hperm : nodes'.Perm nodes) :
    Accounts nodes' next added cancelled invoked :=
  { h with
    distinct := (hperm.map _).nodup_iff.mpr h.distinct
    present := fun node hnode => h.present node (hperm.mem_iff.mp hnode)
    active := fun node hnode => h.active node (hperm.mem_iff.mp hnode) }

/-- An identifier belongs to one timer. -/
theorem timer_eq (h : Accounts nodes next added cancelled invoked) {timer timer' : ℤ × β}
    (ht : timer ∈ added) (ht' : timer' ∈ added) (hid : timer.1 = timer'.1) : timer = timer' :=
  List.inj_on_of_nodup_map h.addedOnce ht ht' hid

theorem id_fresh (h : Accounts nodes next added cancelled invoked) (hid : node.id = next + 1) :
    ∀ timer ∈ added, timer.1 ≠ node.id := by
  intro timer htimer
  have hle := h.addedLe timer htimer
  omega

theorem nothing_happened (h : Accounts nodes next added cancelled invoked)
    (hid : node.id = next + 1) : node.id ∉ cancelled ∧ node.timer ∉ invoked := by
  constructor
  · intro hmem
    have hle := h.cancelledLe _ hmem
    omega
  · exact fun hmem => h.id_fresh hid _ (h.invokedAdded _ hmem) rfl

theorem add (h : Accounts nodes next added cancelled invoked) (hactive : node.active = true)
    (hid : node.id = next + 1) :
    Accounts (node :: nodes) node.id (added ++ [node.timer]) cancelled invoked where
  distinct := by
    refine List.nodup_cons.mpr ⟨?_, h.distinct⟩
    intro hmem
    obtain ⟨other, hother, hsame⟩ := List.mem_map.mp hmem
    exact h.id_fresh hid _ (h.present other hother) hsame
  present := by
    intro other hother
    rcases List.mem_cons.mp hother with rfl | hother
    · simp
    · exact List.mem_append_left _ (h.present other hother)
  addedOnce := ids_nodup_append h.addedOnce (h.id_fresh hid)
  addedLe := by
    intro timer htimer
    rcases List.mem_append.mp htimer with htimer | htimer
    · have hle := h.addedLe timer htimer
      omega
    · rw [List.mem_singleton.mp htimer]
      exact le_rfl
  active := by
    intro other hother
    rcases List.mem_cons.mp hother with rfl | hother
    · exact iff_of_true hactive (h.nothing_happened hid)
    · exact h.active other hother
  cancelledLe := by
    intro id hmem
    have hle := h.cancelledLe id hmem
    omega
  invokedAdded := fun timer htimer => List.mem_append_left _ (h.invokedAdded timer htimer)
  invokedOnce := h.invokedOnce

/-- The other nodes have other identifiers. -/
theorem id_ne (h : Accounts (node :: rest) next added cancelled invoked) {other : TimerNode β}
    (hother : other ∈ rest) : other.id ≠ node.id := by
  intro hsame
  refine (List.nodup_cons.mp h.distinct).1 ?_
  rw [← hsame]
  exact List.mem_map_of_mem hother

theorem present_deactivated (h : Accounts (node :: rest) next added cancelled invoked) :
    ∀ other ∈ node.deactivated :: rest, other.timer ∈ added := by
  intro other hother
  rcases List.mem_cons.mp hother with rfl | hother
  · exact h.present node List.mem_cons_self
  · exact h.present other (List.mem_cons_of_mem _ hother)

theorem cancel (h : Accounts (node :: rest) next added cancelled invoked) :
    Accounts (node.deactivated :: rest) next added (cancelled ++ [node.id]) invoked where
  distinct := h.distinct
  present := h.present_deactivated
  addedOnce := h.addedOnce
  addedLe := h.addedLe
  active := by
    intro other hother
    rcases List.mem_cons.mp hother with rfl | hother
    · simp
    · have hne := h.id_ne hother
      have hactive := h.active other (List.mem_cons_of_mem _ hother)
      simp [hactive, hne]
  cancelledLe := by
    intro id hmem
    rcases List.mem_append.mp hmem with hmem | hmem
    · exact h.cancelledLe id hmem
    · rw [List.mem_singleton.mp hmem]
      exact h.addedLe _ (h.present node List.mem_cons_self)
  invokedAdded := h.invokedAdded
  invokedOnce := h.invokedOnce

theorem fire (h : Accounts (node :: rest) next added cancelled invoked)
    (hactive : node.active = true) :
    Accounts (node.deactivated :: rest) next added cancelled (invoked ++ [node.timer]) where
  distinct := h.distinct
  present := h.present_deactivated
  addedOnce := h.addedOnce
  addedLe := h.addedLe
  active := by
    intro other hother
    rcases List.mem_cons.mp hother with rfl | hother
    · simp
    · have hne : other.timer ≠ node.timer := fun hsame => h.id_ne hother (congrArg Prod.fst hsame)
      have hother := h.active other (List.mem_cons_of_mem _ hother)
      simp [hother, hne]
  cancelledLe := h.cancelledLe
  invokedAdded := by
    intro timer htimer
    rcases List.mem_append.mp htimer with htimer | htimer
    · exact h.invokedAdded timer htimer
    · rw [List.mem_singleton.mp htimer]
      exact h.present node List.mem_cons_self
  invokedOnce := by
    refine ids_nodup_append h.invokedOnce fun timer htimer hid => ?_
    have hsame : timer = node.timer := h.timer_eq (h.invokedAdded timer htimer)
      (h.present node List.mem_cons_self) hid
    exact ((h.active node List.mem_cons_self).mp hactive).2 (hsame ▸ htimer)

theorem remove (h : Accounts (root :: rest) next added cancelled invoked) :
    Accounts rest next added cancelled invoked :=
  { h with
    distinct := (List.nodup_cons.mp h.distinct).2
    present := fun node hnode => h.present node (List.mem_cons_of_mem _ hnode)
    active := fun node hnode => h.active node (List.mem_cons_of_mem _ hnode) }

/-- The new timer is in the heap. -/
theorem settled_add (h : Accounts nodes next added cancelled invoked) (hid : node.id = next + 1) :
    Settled (node :: nodes) (added ++ [node.timer]) cancelled invoked ↔
      Settled nodes added cancelled invoked := by
  constructor
  · intro hsettled timer htimer hcancelled hout
    refine hsettled timer (List.mem_append_left _ htimer) hcancelled fun other hother => ?_
    rcases List.mem_cons.mp hother with rfl | hother
    · exact fun hsame => h.id_fresh hid timer htimer (congrArg Prod.fst hsame).symm
    · exact hout other hother
  · intro hsettled timer htimer hcancelled hout
    rcases List.mem_append.mp htimer with htimer | htimer
    · exact hsettled timer htimer hcancelled fun other hother =>
        hout other (List.mem_cons_of_mem _ hother)
    · exact absurd (List.mem_singleton.mp htimer).symm (hout node List.mem_cons_self)

/-- A cancelled timer is still in the heap. -/
theorem settled_cancel (h : Accounts (node :: rest) next added cancelled invoked) :
    Settled (node.deactivated :: rest) added (cancelled ++ [node.id]) invoked ↔
      Settled (node :: rest) added cancelled invoked := by
  simp only [Settled, List.forall_mem_cons, TimerNode.deactivated_timer]
  constructor
  · intro hsettled timer htimer hcancelled hout
    refine hsettled timer htimer ?_ hout
    intro hmem
    rcases List.mem_append.mp hmem with hmem | hmem
    · exact hcancelled hmem
    · exact hout.1 (h.timer_eq (h.present node List.mem_cons_self) htimer
        (List.mem_singleton.mp hmem).symm)
  · exact fun hsettled timer htimer hcancelled hout =>
      hsettled timer htimer (fun hmem => hcancelled (List.mem_append_left _ hmem)) hout

/-- A timer whose callback is invoked is still in the heap. -/
theorem settled_fire :
    Settled (node.deactivated :: rest) added cancelled (invoked ++ [node.timer]) ↔
      Settled (node :: rest) added cancelled invoked := by
  simp only [Settled, List.forall_mem_cons, TimerNode.deactivated_timer]
  refine forall₄_congr fun timer htimer hcancelled hout => ?_
  rw [List.mem_append, List.mem_singleton]
  exact or_iff_left (Ne.symm hout.1)

/-- Removing the root is right exactly when something had happened to its timer. -/
theorem settled_remove (h : Accounts (root :: rest) next added cancelled invoked) :
    Settled rest added cancelled invoked ↔
      Settled (root :: rest) added cancelled invoked ∧ ¬ root.active = true := by
  have hroot := h.active root List.mem_cons_self
  constructor
  · intro hsettled
    refine ⟨fun timer htimer hcancelled hout => hsettled timer htimer hcancelled fun other hother =>
      hout other (List.mem_cons_of_mem _ hother), fun hactive => ?_⟩
    obtain ⟨hcancelled, hinvoked⟩ := hroot.mp hactive
    refine hinvoked (hsettled _ (h.present root List.mem_cons_self) hcancelled fun other hother => ?_)
    exact fun hsame => h.id_ne hother (congrArg Prod.fst hsame)
  · rintro ⟨hsettled, hinactive⟩ timer htimer hcancelled hout
    by_cases hsame : root.timer = timer
    · subst hsame
      by_contra hinvoked
      exact hinactive (hroot.mpr ⟨hcancelled, hinvoked⟩)
    · exact hsettled timer htimer hcancelled (List.forall_mem_cons.mpr ⟨hsame, hout⟩)

end Accounts

theorem settled_perm {nodes nodes' : List (TimerNode β)} {added invoked : List (ℤ × β)}
    {cancelled : List ℤ} (hperm : nodes'.Perm nodes) :
    Settled nodes' added cancelled invoked ↔ Settled nodes added cancelled invoked := by
  simp only [Settled, hperm.mem_iff]

namespace TimerState

/-- The books of a state. -/
def Balanced (s : TimerState β) : Prop :=
  Accounts s.nodes s.loop.nextTimerId s.added s.cancelled s.invoked

def AllSettled (s : TimerState β) : Prop := Settled s.nodes s.added s.cancelled s.invoked

end TimerState

section Runs

variable {s t u : TimerState β} {lost : Prop}

theorem TimerEffect.balanced (heffect : TimerEffect lost s u) (h : s.Balanced) : u.Balanced := by
  cases heffect with
  | silent => exact h
  | add _ hactive hid hnext hperm =>
    have hadded := (h.add hactive hid).perm hperm
    rwa [← hnext] at hadded
  | cancel _ _ hbefore hafter => exact ((h.perm hbefore.symm).cancel).perm hafter
  | fire _ hactive hbefore hafter => exact ((h.perm hbefore.symm).fire hactive).perm hafter
  | remove _ hbefore => exact (h.perm hbefore.symm).remove

theorem TimerEffect.allSettled_iff (heffect : TimerEffect lost s u) (h : s.Balanced) :
    u.AllSettled ↔ s.AllSettled ∧ ¬ lost := by
  cases heffect with
  | silent _ hlost => exact (and_iff_left hlost).symm
  | add hlost _ hid _ hperm =>
    exact ((settled_perm hperm).trans (h.settled_add hid)).trans (and_iff_left hlost).symm
  | cancel hlost _ hbefore hafter =>
    have hsettled := (h.perm hbefore.symm).settled_cancel
    exact (((settled_perm hafter).trans hsettled).trans (settled_perm hbefore.symm)).trans
      (and_iff_left hlost).symm
  | fire hlost _ hbefore hafter =>
    exact (((settled_perm hafter).trans Accounts.settled_fire).trans
      (settled_perm hbefore.symm)).trans (and_iff_left hlost).symm
  | remove hlost hbefore =>
    rw [hlost]
    exact (h.perm hbefore.symm).settled_remove.trans
      (and_congr_left fun _ => settled_perm hbefore.symm)

end Runs

/-! Runs from the start. -/

section Start

variable {t : TimerState β} {actions : List (TimerAction β)}

/-- A timer that was added and not cancelled leaves the heap only after its callback has been
invoked, and no callback is invoked twice. -/
structure NoTimerLost (s : TimerState β) : Prop where
  kept : ∀ timer ∈ s.added, timer.1 ∉ s.cancelled →
    (∀ node ∈ s.nodes, node.timer ≠ timer) → timer ∈ s.invoked
  once : (s.invoked.map Prod.fst).Nodup

theorem balanced_init : (TimerState.init : TimerState β).Balanced := by
  constructor <;> simp [TimerState.init, TimerState.nodes, ModalityEventLoop.init]

theorem balanced_of_run (h : Library.Run timerStep .init actions t) : t.Balanced :=
  h.invariant (A := fun _ => True)
    (fun _ _ _ _ hprev hstep => (timerStep_effect hstep).balanced hprev) balanced_init
    fun _ _ => trivial

theorem allSettled_init : (TimerState.init : TimerState β).AllSettled := by
  intro timer htimer
  cases htimer

theorem noTimerLost_iff_allSettled (h : t.Balanced) : NoTimerLost t ↔ t.AllSettled :=
  ⟨fun hkept => hkept.kept, fun hsettled => ⟨hsettled, h.invokedOnce⟩⟩

/-- No timer is lost exactly as long as no callback returns while an active timer is at the root:
`process_timers` then removes that one in place of the one that expired. -/
theorem noTimerLost_iff (h : Library.Run timerStep .init actions t) :
    NoTimerLost t ↔ Library.Avoids timerStep RemovesActive .init actions := by
  rw [noTimerLost_iff_allSettled (balanced_of_run h)]
  exact h.good_iff_avoids (A := fun _ => True)
    (fun _ _ _ _ hprev hstep => (timerStep_effect hstep).balanced hprev)
    (fun _ _ _ _ hprev hstep => (timerStep_effect hstep).allSettled_iff hprev)
    balanced_init allSettled_init fun _ _ => trivial

end Start

/-- The callback of the first timer adds another one, which expires later. -/
def laterAdded : List (TimerAction ℕ) :=
  [.addTimer 15 0 (some 7) true, .processTimers 20, .round, .addTimer 5 20 (some 8) true,
    .callbackReturns, .round]

/-- The callback of the first timer adds another one, and the clock was set back. -/
def earlierAdded : List (TimerAction ℕ) :=
  [.addTimer 15 0 (some 7) true, .processTimers 20, .round, .addTimer 0 10 (some 8) true,
    .callbackReturns]

theorem noTimerLost_iff_laterAdded :
    Library.Avoids timerStep RemovesActive .init laterAdded := by
  have hrun : Library.Run timerStep .init laterAdded
      ⟨⟨#[⟨25, 2, 8, true⟩], 16, 2⟩, .idle, [(1, 7), (2, 8)], [], [(1, 7)]⟩ :=
    Library.run_iff.mpr (by decide +kernel)
  refine (noTimerLost_iff hrun).mp ⟨?_, by decide⟩
  decide

/-- The new timer comes to the root and is removed; its callback is never invoked. -/
theorem earlierAdded_lost :
    ¬ ∀ (actions : List (TimerAction ℕ)) (t : TimerState ℕ),
      Library.Run timerStep .init actions t → NoTimerLost t := by
  intro hall
  have hrun : Library.Run timerStep .init earlierAdded
      ⟨⟨#[⟨15, 1, 7, false⟩], 16, 2⟩, .processing 20, [(1, 7), (2, 8)], [], [(1, 7)]⟩ :=
    Library.run_iff.mpr (by decide +kernel)
  have hkept := (hall _ _ hrun).kept (2, 8) (by decide) (by decide)
  revert hkept
  decide

/-! Callbacks that leave their own timer at the root. -/

section Overdue

variable {s t u : TimerState β} {actions : List (TimerAction β)}

/-- A callback adds a timer that had expired before `process_timers` read the clock. -/
def AddsOverdue (s : TimerState β) (action : TimerAction β) : Prop :=
  ∃ now timeoutMs clock cb granted, s.phase = .inCallback now ∧
    action = .addTimer timeoutMs clock cb granted ∧ clock + timeoutMs < now

/-- While a callback runs, its timer is at the root. -/
def RootFired (s : TimerState β) : Prop :=
  ∀ now, s.phase = .inCallback now →
    ∃ root, s.loop.timers[0]? = some root ∧ root.active = false ∧ root.expiration ≤ now

theorem rootFired_addTimer {timeoutMs clock : ℤ} {cb : Option β} {granted : Bool}
    (h : RootFired s) (hnot : ¬ AddsOverdue s (.addTimer timeoutMs clock cb granted)) :
    RootFired (s.addTimer timeoutMs clock cb granted) := by
  unfold TimerState.addTimer
  split
  next cb loop id hadd =>
    intro now hphase
    obtain ⟨root, hroot, hinactive, hexpired⟩ := h now hphase
    refine ⟨root, addTimer_root hadd hroot ?_, hinactive, hexpired⟩
    by_contra hearly
    exact hnot ⟨now, timeoutMs, clock, _, granted, hphase, rfl, by omega⟩
  next => exact h

/-- The root stays where it is when a node is deactivated. -/
theorem root_deactivate {timers : Array (TimerNode β)} {root : TimerNode β} (i : ℕ)
    (hroot : timers[0]? = some root) (hinactive : i = 0 ∨ root.active = false) :
    ∃ kept, (deactivate timers i)[0]? = some kept ∧ kept.active = false ∧
      kept.expiration = root.expiration := by
  rw [deactivate, Array.getElem?_modify, hroot]
  split_ifs with hi
  · exact ⟨root.deactivated, rfl, rfl, rfl⟩
  · exact ⟨root, rfl, hinactive.resolve_left hi, rfl⟩

theorem rootFired_cancelTimer (h : RootFired s) (timerId : ℤ) :
    RootFired (s.cancelTimer timerId) := by
  rw [TimerState.cancelTimer]
  split
  next loop hcancel =>
    obtain ⟨i, node, -, -, -, rfl⟩ := cancelTimer_ok hcancel
    intro now hphase
    obtain ⟨root, hroot, hinactive, hexpired⟩ := h now hphase
    obtain ⟨kept, hkept, hstill, hsame⟩ := root_deactivate i hroot (Or.inr hinactive)
    exact ⟨kept, hkept, hstill, hsame.trans_le hexpired⟩
  next => exact h

theorem rootFired_of_phase (h : ∀ now, s.phase ≠ .inCallback now) :
    RootFired s :=
  fun now hphase => absurd hphase (h now)

theorem rootFired_round (s : TimerState β) (now : ℤ) : RootFired (s.round now) := by
  rw [TimerState.round]
  split
  next => exact rootFired_of_phase (by simp)
  next root hroot =>
    split_ifs with hfuture hactive
    · exact rootFired_of_phase (by simp)
    · intro now' hphase
      obtain rfl := TimerPhase.inCallback.inj hphase
      obtain ⟨kept, hkept, hstill, hsame⟩ := root_deactivate 0 hroot (Or.inl rfl)
      exact ⟨kept, hkept, hstill, hsame.trans_le (not_lt.mp hfuture)⟩
    · exact rootFired_of_phase (by simp [TimerState.removeMin])

/-- As long as callbacks add no overdue timer, the root that is removed is the one that fired. -/
theorem timerStep_rootFired {a : TimerAction β} (hnot : ¬ AddsOverdue s a) (h : RootFired s)
    (hstep : timerStep s a = some u) : RootFired u ∧ ¬ RemovesActive s a := by
  cases timerStep_moves hstep with
  | addTimer => exact ⟨rootFired_addTimer h hnot, not_removesActive (by simp)⟩
  | cancelTimer timerId => exact ⟨rootFired_cancelTimer h timerId, not_removesActive (by simp)⟩
  | processTimers now => exact ⟨rootFired_of_phase (by simp), not_removesActive (by simp)⟩
  | round => exact ⟨rootFired_round s _, not_removesActive (by simp)⟩
  | callbackReturns hphase =>
    obtain ⟨root, hroot, hinactive, -⟩ := h _ hphase
    refine ⟨rootFired_of_phase (by simp [TimerState.removeMin]), ?_⟩
    rintro ⟨-, active, hactive, hnow⟩
    obtain rfl := Option.some.inj (hroot.symm.trans hactive)
    exact Bool.false_ne_true (hinactive.symm.trans hnow)

/-- Where no callback adds an overdue timer, as with a clock that is not set back and no negative
timeout, the root that is removed is never active. -/
theorem avoids_of_not_overdue (h : Library.Run timerStep .init actions t)
    (hnot : Library.Avoids timerStep AddsOverdue .init actions) :
    Library.Avoids timerStep RemovesActive .init actions :=
  (h.avoids_of_avoids (fun _ _ _ hnot hprev hstep => timerStep_rootFired hnot hprev hstep)
    (rootFired_of_phase (by simp [TimerState.init])) hnot).2

end Overdue

end AbstractHttp.EventLoop
