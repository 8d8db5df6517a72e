import AbstractHttp.EventLoop.RegistryMap
import AbstractHttp.EventLoop.TimerLoss

/-!
# libcurl on the event loop

libcurl asks for one timer and watches its sockets by two functions, which keep them in the event
loop. Others use the same loop: they have callbacks of their own, cancel the timers that they have
added, and leave the sockets of libcurl alone.
-/
namespace AbstractHttp.Transport
open Library EventLoop

/-- What libcurl asks of a socket, `CURL_POLL_NONE` to `CURL_POLL_REMOVE`. -/
inductive CurlPoll where
  | pollNone
  | pollIn
  | pollOut
  | pollInout
  | pollRemove
  deriving DecidableEq, Repr

/-- The events of the loop for it. -/
def CurlPoll.events (what : CurlPoll) : BitVec 32 :=
  (if what = .pollIn ∨ what = .pollInout then loopRead else 0) |||
    (if what = .pollOut ∨ what = .pollInout then loopWrite else 0)

/-- The loop, with what the context and libcurl keep about it, and a record of what libcurl has
asked for: when its timer is to expire, and which sockets it watches. -/
structure CurlLoop (β : Type*) where
  timers : TimerState β
  fds : FdRegistry β
  timerId : ℤ
  socketp : ℤ → Bool
  asked : Option ℤ
  watched : ℤ → Option CurlPoll

variable {β : Type*}

/-- A new loop, and a context that `calloc` has made. -/
def CurlLoop.init : CurlLoop β := ⟨.init, .init, 0, fun _ => false, none, fun _ => none⟩

section Functions

variable (curl : β) (s : CurlLoop β)

/-- The first half of `multi_timer_function`; a timer that has fired is not found any more. -/
def cancelOld : CurlLoop β × Option ErrorCode :=
  if s.timerId > 0 then
    match cancelTimer s.timers.loop s.timerId with
    | .ok _ =>
      ({ s with timers := s.timers.cancelTimer s.timerId, timerId := 0, asked := none }, none)
    | .error e =>
      if e = .inval then ({ s with timerId := 0, asked := none }, none) else (s, some e)
  else (s, none)

/-- The second half; `curl` stands for `multi_timer_cb` with the context. -/
def addNew (timeoutMs clock : ℤ) (granted : Bool) : CurlLoop β × Option ErrorCode :=
  if timeoutMs ≥ 0 then
    match addTimer s.timers.loop timeoutMs clock (some curl) granted with
    | .ok (_, id) =>
      ({ s with
        timers := s.timers.addTimer timeoutMs clock (some curl) granted
        timerId := id
        asked := some (clock + timeoutMs) }, none)
    | .error e => (s, some e)
  else (s, none)

/-- `multi_timer_function`; it returns -1 where there is an error. -/
def multiTimerFunction (timeoutMs clock : ℤ) (granted : Bool) : CurlLoop β × Option ErrorCode :=
  match cancelOld s with
  | (s, some e) => (s, some e)
  | (s, none) => addNew curl s timeoutMs clock granted

/-- `multi_socket_function`, with the `socketp` that `curl_multi_assign` has set last. -/
def multiSocketFunction (fd : ℤ) (what : CurlPoll) (granted : Bool) :
    CurlLoop β × Option ErrorCode :=
  if what = .pollRemove then
    match removeFd s.fds fd with
    | .ok fds =>
      ({ s with
        fds := fds
        socketp := Function.update s.socketp fd false
        watched := Function.update s.watched fd none }, none)
    | .error e => (s, some e)
  else if s.socketp fd = false then
    match addFd s.fds fd what.events curl granted with
    | .ok fds =>
      ({ s with
        fds := fds
        socketp := Function.update s.socketp fd true
        watched := Function.update s.watched fd (some what) }, none)
    | .error e => (s, some e)
  else
    match modFd s.fds fd what.events with
    | .ok fds => ({ s with fds := fds, watched := Function.update s.watched fd (some what) }, none)
    | .error e => (s, some e)

end Functions

/-- What happens to the loop: its own actions and those of others on timers, the calls of others on
descriptors, and the two functions of libcurl. -/
inductive CurlLoopAction (β : Type*) where
  | timer (action : TimerAction β)
  | fd (call : RegistryCall β)
  | multiTimer (timeoutMs clock : ℤ) (granted : Bool)
  | multiSocket (fd : ℤ) (what : CurlPoll) (granted : Bool)

/-- Others add timers of their own, and cancel no other ones. -/
def OwnTimer (curl : β) (timers : TimerState β) : TimerAction β → Prop
  | .addTimer _ _ cb _ => cb ≠ some curl
  | .cancelTimer timerId => (timerId, curl) ∉ timers.added
  | _ => True

/-- Others leave alone what libcurl watches. -/
def OwnFd (curl : β) (watched : ℤ → Option CurlPoll) : RegistryCall β → Prop
  | .add fd _ cb _ => cb ≠ curl ∧ watched fd = none
  | .mod fd _ => watched fd = none
  | .remove fd => watched fd = none

/-- A socket of libcurl is no one else's. -/
def OwnSocket (curl : β) (fds : FdRegistry β) (fd : ℤ) : Prop :=
  ∀ node ∈ fds.fds.toList, node.active = true → node.fd = fd → node.cb = curl

section Steps

variable [DecidableEq β] (curl : β)

instance (timers : TimerState β) : (action : TimerAction β) →
    Decidable (OwnTimer curl timers action)
  | .addTimer _ _ cb _ => inferInstanceAs (Decidable (cb ≠ some curl))
  | .cancelTimer timerId => inferInstanceAs (Decidable ((timerId, curl) ∉ timers.added))
  | .processTimers _ | .round | .callbackReturns => inferInstanceAs (Decidable True)

instance (watched : ℤ → Option CurlPoll) : (call : RegistryCall β) →
    Decidable (OwnFd curl watched call)
  | .add fd _ cb _ => inferInstanceAs (Decidable (cb ≠ curl ∧ watched fd = none))
  | .mod fd _ | .remove fd => inferInstanceAs (Decidable (watched fd = none))

instance (fds : FdRegistry β) (fd : ℤ) : Decidable (OwnSocket curl fds fd) :=
  inferInstanceAs (Decidable (∀ node ∈ fds.fds.toList, _ → _ → _))

/-- One action, where it is enabled. libcurl calls its functions from callbacks of the loop or from
outside. -/
def curlStep (s : CurlLoop β) : CurlLoopAction β → Option (CurlLoop β)
  | .timer action =>
    if OwnTimer curl s.timers action then
      (timerStep s.timers action).map fun timers => { s with timers := timers }
    else none
  | .fd call =>
    if OwnFd curl s.watched call then
      (registryStep s.fds call).map fun answer => { s with fds := answer.1 }
    else none
  | .multiTimer timeoutMs clock granted =>
    if s.timers.phase.callable then some (multiTimerFunction curl s timeoutMs clock granted).1
    else none
  | .multiSocket fd what granted =>
    if OwnSocket curl s.fds fd then some (multiSocketFunction curl s fd what granted).1 else none

end Steps

/-- What libcurl has asked for is what its timer waits for: no other timer of its is active, and
the identifier is that of the last one. -/
structure DeadlineKept (curl : β) (timers : TimerState β) (timerId : ℤ) (asked : Option ℤ) :
    Prop where
  balanced : timers.Balanced
  counts : 0 ≤ timers.loop.nextTimerId
  mine : ∀ node ∈ timers.nodes, node.active = true → node.cb = curl →
    node.id = timerId ∧ asked = some node.expiration
  idle : asked = none → timerId = 0
  asks : ∀ e, asked = some e → 0 < timerId ∧ (timerId, curl) ∈ timers.added ∧
    timerId ∉ timers.cancelled ∧ ∀ node ∈ timers.nodes, node.id = timerId → node.expiration = e

section Deadline

variable {curl : β} {s u : TimerState β} {timerId : ℤ} {asked : Option ℤ}

theorem deadlineKept_init : DeadlineKept curl (TimerState.init : TimerState β) 0 none where
  balanced := balanced_init
  counts := le_rfl
  mine node hnode := by simp [TimerState.init, TimerState.nodes, ModalityEventLoop.init] at hnode
  idle _ := rfl
  asks e he := by cases he

theorem DeadlineKept.fresh (h : DeadlineKept curl s timerId asked) {e : ℤ} (he : asked = some e) :
    timerId ≤ s.loop.nextTimerId :=
  h.balanced.addedLe _ (h.asks e he).2.1

/-- What others do with the loop changes nothing about it. -/
theorem DeadlineKept.others (h : DeadlineKept curl s timerId asked) {a : TimerAction β}
    (hstep : timerStep s a = some u) (hown : OwnTimer curl s a) :
    DeadlineKept curl u timerId asked := by
  have heffect := timerStep_effect hstep
  have hnew {node : TimerNode β} (hadded : u.added = s.added ++ [node.timer]) :
      node.cb ≠ curl := by
    rintro rfl
    rcases timerStep_added hstep with hsame | ⟨timeoutMs, clock, cb, granted, id, rfl, hlast⟩
    · simp [hsame] at hadded
    · have hpair := List.append_cancel_left (hadded.symm.trans hlast)
      have hcb : node.cb = cb := congrArg Prod.snd (List.cons.inj hpair).1
      exact hown (congrArg some hcb.symm)
  refine ⟨heffect.balanced h.balanced, h.counts.trans heffect.nextTimerId_le, ?_, h.idle, ?_⟩
  · intro node hnode hactive hcb
    rcases heffect.node hnode with ⟨old, hold, rfl | rfl⟩ | ⟨-, hadded⟩
    · exact h.mine node hold hactive hcb
    · cases hactive
    · exact absurd hcb (hnew hadded)
  · intro e he
    obtain ⟨hpos, hadded, hcancelled, hexpires⟩ := h.asks e he
    have hmember : (timerId, curl) ∈ u.added := by
      rcases timerStep_added hstep with hsame | ⟨_, _, _, _, _, -, hmore⟩
      · rwa [hsame]
      · rw [hmore]
        exact List.mem_append_left _ hadded
    refine ⟨hpos, hmember, ?_, ?_⟩
    · rcases timerStep_cancelled hstep with hsame | ⟨other, rfl, hmore⟩
      · rwa [hsame]
      · rw [hmore, List.mem_append, List.mem_singleton, not_or]
        refine ⟨hcancelled, ?_⟩
        rintro rfl
        exact hown hadded
    · intro node hnode hid
      rcases heffect.node hnode with ⟨old, hold, rfl | rfl⟩ | ⟨hfresh, -⟩
      · exact hexpires node hold hid
      · exact hexpires old hold hid
      · have hle := h.fresh he
        omega

end Deadline

/-- The record of the timers in a state. -/
def CurlLoop.DeadlineKept (curl : β) (s : CurlLoop β) : Prop :=
  Transport.DeadlineKept curl s.timers s.timerId s.asked

section MultiTimer

variable {curl : β} {s : CurlLoop β}

/-- An active node with the identifier that the context keeps is the timer of libcurl. -/
theorem DeadlineKept.cb_eq {timers : TimerState β} {timerId e : ℤ}
    (h : Transport.DeadlineKept curl timers timerId (some e)) {node : TimerNode β}
    (hnode : node ∈ timers.nodes) (hid : node.id = timerId) : node.cb = curl :=
  congrArg Prod.snd (h.balanced.timer_eq (h.balanced.present node hnode) (h.asks e rfl).2.1 hid)

/-- The timer of libcurl is cancelled, no other one. -/
theorem DeadlineKept.cancelled {timers : TimerState β} {timerId e : ℤ}
    (h : Transport.DeadlineKept curl timers timerId (some e)) {loop : ModalityEventLoop β}
    (hcancel : cancelTimer timers.loop timerId = .ok loop) :
    Transport.DeadlineKept curl (timers.cancelTimer timerId) 0 none ∧
      ∀ node : TimerNode β, node.active = true → node.cb ≠ curl →
        (node ∈ (timers.cancelTimer timerId).nodes ↔ node ∈ timers.nodes) := by
  have hnow : timers.cancelTimer timerId =
      { timers with loop := loop, cancelled := timers.cancelled ++ [timerId] } := by
    rw [TimerState.cancelTimer, hcancel]
  obtain ⟨i, target, htarget, rfl, -, rfl⟩ := cancelTimer_ok hcancel
  obtain ⟨rest, hbefore, hafter⟩ := deactivate_perm htarget
  have hbefore' : timers.nodes.Perm (target :: rest) := hbefore
  have hmine := h.cb_eq (hbefore'.mem_iff.mpr List.mem_cons_self) rfl
  have hkept := h.balanced.perm hbefore'.symm
  rw [hnow]
  refine ⟨⟨hkept.cancel.perm hafter, h.counts, ?_, fun _ => rfl, by simp⟩, ?_⟩
  · intro node hnode hactive hcb
    rcases List.mem_cons.mp (hafter.mem_iff.mp hnode) with rfl | hrest
    · cases hactive
    · have hid := (h.mine node (hbefore'.mem_iff.mpr (List.mem_cons_of_mem _ hrest)) hactive hcb).1
      exact absurd hid (hkept.id_ne hrest)
  · intro node hactive hcb
    have hne : node ≠ target := by
      rintro rfl
      exact hcb hmine
    have hne' : node ≠ target.deactivated := by
      rintro rfl
      cases hactive
    rw [hbefore'.mem_iff, List.mem_cons, or_iff_right hne]
    exact hafter.mem_iff.trans (List.mem_cons.trans (or_iff_right hne'))

/-- The first half leaves libcurl without a timer, and cannot fail. -/
theorem cancelOld_spec (h : s.DeadlineKept curl) : ∃ timers,
    cancelOld s = ({ s with timers := timers, timerId := 0, asked := none }, none) ∧
      (timers = s.timers ∨ timers = s.timers.cancelTimer s.timerId) ∧
      Transport.DeadlineKept curl timers 0 none ∧
      ∀ node : TimerNode β, node.active = true → node.cb ≠ curl →
        (node ∈ timers.nodes ↔ node ∈ s.timers.nodes) := by
  obtain ⟨timers, fds, timerId, socketp, asked, watched⟩ := s
  cases asked with
  | none =>
    obtain rfl : timerId = 0 := h.idle rfl
    exact ⟨timers, rfl, .inl rfl, h, fun _ _ _ => Iff.rfl⟩
  | some e =>
    have hpos : timerId > 0 := (h.asks e rfl).1
    cases hcancel : cancelTimer timers.loop timerId with
    | ok loop =>
      obtain ⟨hkept, hothers⟩ := h.cancelled hcancel
      refine ⟨_, ?_, .inr rfl, hkept, hothers⟩
      rw [cancelOld, if_pos hpos]
      dsimp only
      rw [hcancel]
    | error e' =>
      obtain ⟨rfl, hnone⟩ := cancelTimer_error hcancel
      refine ⟨timers, ?_, .inl rfl, ⟨h.balanced, h.counts, ?_, fun _ => rfl, nofun⟩,
        fun _ _ _ => Iff.rfl⟩
      · rw [cancelOld, if_pos hpos]
        dsimp only
        rw [hcancel]
        exact if_pos rfl
      · intro node hnode hactive hcb
        exact absurd (h.mine node hnode hactive hcb).1 (hnone node hnode hactive)

theorem addTimer_nodes {loop loop' : ModalityEventLoop β} {timeoutMs clock id : ℤ} {cb : β}
    {granted : Bool} (h : addTimer loop timeoutMs clock (some cb) granted = .ok (loop', id)) :
    loop'.timers.toList.Perm (⟨clock + timeoutMs, id, cb, true⟩ :: loop.timers.toList) := by
  obtain ⟨-, -, idx, htimers, -⟩ := addTimer_ok h
  rw [htimers]
  refine (Array.perm_iff_toList_perm.mp (siftUp_perm idx)).trans ?_
  rw [Array.toList_push]
  exact List.perm_append_singleton _ _

theorem addTimer_granted (loop : ModalityEventLoop β) (timeoutMs clock : ℤ) (cb : β) :
    ∃ loop' id, addTimer loop timeoutMs clock (some cb) true = .ok (loop', id) := by
  obtain ⟨grown, hgrown⟩ : ∃ grown, growTimers loop true = .ok grown := by
    simp only [growTimers, if_true]
    split_ifs <;> exact ⟨_, rfl⟩
  rw [addTimer, hgrown]
  exact ⟨_, _, rfl⟩

/-- The new timer is the one of libcurl. -/
theorem DeadlineKept.added {timers : TimerState β}
    (h : Transport.DeadlineKept curl timers 0 none) {loop : ModalityEventLoop β}
    {timeoutMs clock id : ℤ} {granted : Bool}
    (hadd : addTimer timers.loop timeoutMs clock (some curl) granted = .ok (loop, id)) :
    Transport.DeadlineKept curl (timers.addTimer timeoutMs clock (some curl) granted) id
        (some (clock + timeoutMs)) ∧
      ∀ node : TimerNode β, node.active = true → node.cb ≠ curl →
        (node ∈ (timers.addTimer timeoutMs clock (some curl) granted).nodes ↔
          node ∈ timers.nodes) := by
  have hnow : timers.addTimer timeoutMs clock (some curl) granted =
      { timers with loop := loop, added := timers.added ++ [(id, curl)] } := by
    unfold TimerState.addTimer
    rw [hadd]
  have hperm : loop.timers.toList.Perm (⟨clock + timeoutMs, id, curl, true⟩ :: timers.nodes) :=
    addTimer_nodes hadd
  obtain ⟨hid, hnext, -⟩ := addTimer_ok hadd
  have hcounts := h.counts
  have hbalanced : (timers.addTimer timeoutMs clock (some curl) granted).Balanced :=
    (addTimer_effect not_false timeoutMs clock (some curl) granted).balanced h.balanced
  rw [hnow] at hbalanced ⊢
  refine ⟨⟨hbalanced, ?_, ?_, nofun, ?_⟩, ?_⟩
  · dsimp only
    omega
  · intro node hnode hactive hcb
    rcases List.mem_cons.mp (hperm.mem_iff.mp hnode) with rfl | hold
    · exact ⟨rfl, rfl⟩
    · cases (h.mine node hold hactive hcb).2
  · rintro e ⟨⟩
    refine ⟨by omega, List.mem_append_right _ (List.mem_singleton_self _), fun hmem => ?_, ?_⟩
    · have hle := h.balanced.cancelledLe id hmem
      omega
    · intro node hnode hsame
      rcases List.mem_cons.mp (hperm.mem_iff.mp hnode) with rfl | hold
      · rfl
      · have hle := h.balanced.addedLe _ (h.balanced.present node hold)
        rw [TimerNode.timer, hsame] at hle
        omega
  · intro node hactive hcb
    have hne : node ≠ ⟨clock + timeoutMs, id, curl, true⟩ := by
      rintro rfl
      exact hcb rfl
    exact hperm.mem_iff.trans (List.mem_cons.trans (or_iff_right hne))

/-- The second half gives libcurl the timer that it has asked for, if there is memory for it. -/
theorem addNew_spec (h : Transport.DeadlineKept curl s.timers 0 none) (hid : s.timerId = 0)
    (hasked : s.asked = none) (timeoutMs clock : ℤ) (granted : Bool) :
    ∃ timers timerId asked rc, addNew curl s timeoutMs clock granted =
        ({ s with timers := timers, timerId := timerId, asked := asked }, rc) ∧
      Transport.DeadlineKept curl timers timerId asked ∧
      (timers = s.timers ∨
        timers = s.timers.addTimer timeoutMs clock (some curl) granted ∧ 0 ≤ timeoutMs) ∧
      (∀ node : TimerNode β, node.active = true → node.cb ≠ curl →
        (node ∈ timers.nodes ↔ node ∈ s.timers.nodes)) ∧
      (granted = true →
        rc = none ∧ asked = if timeoutMs ≥ 0 then some (clock + timeoutMs) else none) := by
  obtain ⟨timers, fds, timerId, socketp, asked, watched⟩ := s
  obtain rfl : timerId = 0 := hid
  obtain rfl : asked = none := hasked
  by_cases htimeout : timeoutMs ≥ 0
  · cases hadd : addTimer timers.loop timeoutMs clock (some curl) granted with
    | ok added =>
      obtain ⟨loop, id⟩ := added
      obtain ⟨hkept, hothers⟩ := h.added hadd
      refine ⟨_, id, _, none, ?_, hkept, .inr ⟨rfl, htimeout⟩, hothers, fun _ => ⟨rfl, ?_⟩⟩
      · rw [addNew, if_pos htimeout, hadd]
      · rw [if_pos htimeout]
    | error e =>
      refine ⟨timers, 0, none, some e, ?_, h, .inl rfl, fun _ _ _ => Iff.rfl, ?_⟩
      · rw [addNew, if_pos htimeout, hadd]
      · rintro rfl
        obtain ⟨loop', id, hok⟩ := addTimer_granted timers.loop timeoutMs clock curl
        cases hok.symm.trans hadd
  · refine ⟨timers, 0, none, none, ?_, h, .inl rfl, fun _ _ _ => Iff.rfl, fun _ => ⟨rfl, ?_⟩⟩
    · rw [addNew, if_neg htimeout]
    · rw [if_neg htimeout]

/-- A call by libcurl about its timer. -/
theorem multiTimerFunction_spec (h : s.DeadlineKept curl) (timeoutMs clock : ℤ) (granted : Bool) :
    ∃ old timers timerId asked rc, multiTimerFunction curl s timeoutMs clock granted =
        ({ s with timers := timers, timerId := timerId, asked := asked }, rc) ∧
      Transport.DeadlineKept curl timers timerId asked ∧
      (old = s.timers ∨ old = s.timers.cancelTimer s.timerId) ∧ old.Balanced ∧
      (timers = old ∨ timers = old.addTimer timeoutMs clock (some curl) granted ∧ 0 ≤ timeoutMs) ∧
      (∀ node : TimerNode β, node.active = true → node.cb ≠ curl →
        (node ∈ timers.nodes ↔ node ∈ s.timers.nodes)) ∧
      (granted = true →
        rc = none ∧ asked = if timeoutMs ≥ 0 then some (clock + timeoutMs) else none) := by
  obtain ⟨old, hcancel, hold, hkept, hothers⟩ := cancelOld_spec h
  obtain ⟨timers, timerId, asked, rc, hadd, hkept', hnew, hothers', hgranted⟩ :=
    addNew_spec (s := { s with timers := old, timerId := 0, asked := none }) hkept rfl rfl timeoutMs
      clock granted
  refine ⟨old, timers, timerId, asked, rc, ?_, hkept', hold, hkept.balanced, hnew, ?_, hgranted⟩
  · rw [multiTimerFunction, hcancel]
    exact hadd
  · exact fun node hactive hcb => (hothers' node hactive hcb).trans (hothers node hactive hcb)

end MultiTimer

/-- A descriptor is registered. -/
def Registered (fds : FdRegistry β) (fd : ℤ) (events : BitVec 32) (cb : β) : Prop :=
  ∃ i, fds.HasActive i ⟨fd, events, cb, true⟩

/-- The callback of libcurl is registered for the sockets that it watches, with their events. -/
def CurlPart (curl : β) (m : FdMap β) (watched : ℤ → Option CurlPoll) : Prop :=
  ∀ fd events, m fd = some (events, curl) ↔ ∃ what, watched fd = some what ∧ events = what.events

/-- The registry has what libcurl watches, and libcurl knows of it. -/
structure SocketsKept (curl : β) (fds : FdRegistry β) (socketp : ℤ → Bool)
    (watched : ℤ → Option CurlPoll) : Prop where
  graph : ∃ m, fds.IsGraph m ∧ CurlPart curl m watched
  socketp : ∀ fd, socketp fd = (watched fd).isSome

section Sockets

variable {curl : β} {fds : FdRegistry β} {m : FdMap β} {watched : ℤ → Option CurlPoll}

theorem socketsKept_init :
    SocketsKept curl (FdRegistry.init : FdRegistry β) (fun _ => false) fun _ => none :=
  ⟨⟨_, FdRegistry.isGraph_init, fun fd events => by simp⟩, fun _ => rfl⟩

theorem CurlPart.update (h : CurlPart curl m watched) (fd : ℤ) {v : Option (BitVec 32 × β)}
    {what : Option CurlPoll}
    (hv : ∀ events, v = some (events, curl) ↔ ∃ w, what = some w ∧ events = w.events) :
    CurlPart curl (Function.update m fd v) (Function.update watched fd what) := by
  intro fd' events
  by_cases hfd : fd' = fd
  · subst hfd
    rw [Function.update_self, Function.update_self]
    exact hv events
  · rw [Function.update_of_ne hfd, Function.update_of_ne hfd]
    exact h fd' events

/-- What others change belongs to them. -/
theorem CurlPart.others (h : CurlPart curl m watched) {fd : ℤ} (hfd : watched fd = none)
    {v : Option (BitVec 32 × β)} (hv : ∀ events, v ≠ some (events, curl)) :
    CurlPart curl (Function.update m fd v) watched := by
  have hsame : Function.update watched fd none = watched := by
    rw [← hfd, Function.update_eq_self]
  rw [← hsame]
  exact h.update fd fun events => iff_of_false (hv events) (by simp)

theorem CurlPart.ne_curl (h : CurlPart curl m watched) {fd : ℤ} (hfd : watched fd = none)
    {events : BitVec 32} {cb : β} (hm : m fd = some (events, cb)) : cb ≠ curl := by
  rintro rfl
  obtain ⟨what, hwhat, -⟩ := (h fd events).mp hm
  cases hfd.symm.trans hwhat

theorem SocketsKept.others {socketp : ℤ → Bool} (h : SocketsKept curl fds socketp watched)
    {call : RegistryCall β} {answer : FdRegistry β × Option ErrorCode}
    (hstep : registryStep fds call = some answer) (hown : OwnFd curl watched call) :
    SocketsKept curl answer.1 socketp watched := by
  obtain ⟨m, hgraph, hpart⟩ := h.graph
  obtain ⟨fds', rc, m', hcall, hspec, hgraph'⟩ := registryStep_spec fds m call hgraph
  obtain rfl := Option.some.inj (hstep.symm.trans hcall)
  refine ⟨⟨m', hgraph', ?_⟩, h.socketp⟩
  cases call with
  | add fd events cb granted =>
    rcases hspec with ⟨-, -, rfl⟩ | ⟨-, rfl⟩
    · exact hpart.others hown.2 fun events' heq => hown.1 (Prod.mk.inj (Option.some.inj heq)).2
    · exact hpart
  | mod fd events =>
    rcases hspec with ⟨old, cb, -, hm, rfl⟩ | ⟨-, -, rfl⟩
    · refine hpart.others hown fun events' heq => hpart.ne_curl hown hm ?_
      exact (Prod.mk.inj (Option.some.inj heq)).2
    · exact hpart
  | remove fd =>
    rcases hspec with ⟨-, -, rfl⟩ | ⟨-, -, rfl⟩
    · exact hpart.others hown fun events' heq => by cases heq
    · exact hpart

/-- What changes at a descriptor of libcurl only is nothing to others. -/
theorem registered_iff {fds' : FdRegistry β} {fd : ℤ} {v : Option (BitVec 32 × β)}
    (h : fds.IsGraph m) (h' : fds'.IsGraph (Function.update m fd v))
    (hm : ∀ events cb, m fd = some (events, cb) → cb = curl)
    (hv : ∀ events cb, v = some (events, cb) → cb = curl) :
    ∀ fd' events cb, cb ≠ curl →
      (Registered fds' fd' events cb ↔ Registered fds fd' events cb) := by
  intro fd' events cb hcb
  rw [Registered, Registered, ← h.graph, ← h'.graph]
  by_cases hfd : fd' = fd
  · subst hfd
    rw [Function.update_self]
    exact iff_of_false (fun hsome => hcb (hv events cb hsome)) fun hsome => hcb (hm events cb hsome)
  · rw [Function.update_of_ne hfd]

theorem ownSocket_map (h : fds.IsGraph m) {fd : ℤ} (hown : OwnSocket curl fds fd)
    {events : BitVec 32} {cb : β} (hm : m fd = some (events, cb)) : cb = curl := by
  obtain ⟨i, hslot, hactive⟩ := (h.graph fd events cb).mp hm
  exact hown _ (Array.mem_toList_iff.mpr (Array.mem_of_getElem? hslot)) hactive rfl

/-- Where a socket that libcurl does not watch is its own, it is not registered. -/
theorem CurlPart.free (h : CurlPart curl m watched) (hgraph : fds.IsGraph m) {fd : ℤ}
    (hown : OwnSocket curl fds fd) (hfd : watched fd = none) : m fd = none := by
  cases hm : m fd with
  | none => rfl
  | some x => exact absurd (ownSocket_map hgraph hown hm) (h.ne_curl hfd hm)

/-- A socket of libcurl is written: it is now watched for `what`, or not at all. -/
theorem SocketsKept.written {socketp : ℤ → Bool} (h : SocketsKept curl fds socketp watched)
    (hgraph : fds.IsGraph m) (hpart : CurlPart curl m watched) {fd : ℤ}
    (hown : OwnSocket curl fds fd) {fds' : FdRegistry β} {v : Option (BitVec 32 × β)}
    (hgraph' : fds'.IsGraph (Function.update m fd v)) (what : Option CurlPoll)
    (hv : v = what.map fun w => (w.events, curl)) :
    SocketsKept curl fds' (Function.update socketp fd what.isSome)
        (Function.update watched fd what) ∧
      ∀ fd' events cb, cb ≠ curl →
        (Registered fds' fd' events cb ↔ Registered fds fd' events cb) := by
  subst hv
  refine ⟨⟨⟨_, hgraph', hpart.update fd fun events => ?_⟩, fun fd' => ?_⟩, ?_⟩
  · rw [Option.map_eq_some_iff]
    refine exists_congr fun w => and_congr_right fun _ => ?_
    rw [Prod.mk.injEq]
    exact (and_iff_left rfl).trans eq_comm
  · by_cases hfd : fd' = fd
    · subst hfd
      rw [Function.update_self, Function.update_self]
    · rw [Function.update_of_ne hfd, Function.update_of_ne hfd]
      exact h.socketp fd'
  · refine registered_iff hgraph hgraph' (fun _ _ => ownSocket_map hgraph hown)
      fun events cb hsome => ?_
    obtain ⟨w, -, hpair⟩ := Option.map_eq_some_iff.mp hsome
    exact (Prod.mk.inj hpair).2.symm

/-- A call about a socket keeps the registry in line, leaves the descriptors of others alone, and
succeeds for a socket that is watched, and for a new one if there is memory. -/
def SocketAnswer (curl : β) (s : CurlLoop β) (fd : ℤ) (what : CurlPoll) (granted : Bool)
    (answer : CurlLoop β × Option ErrorCode) : Prop :=
  ∃ fds socketp watched rc,
    answer = ({ s with fds := fds, socketp := socketp, watched := watched }, rc) ∧
      SocketsKept curl fds socketp watched ∧
      (∀ fd' events cb, cb ≠ curl →
        (Registered fds fd' events cb ↔ Registered s.fds fd' events cb)) ∧
      ((s.watched fd).isSome = true ∨ what ≠ .pollRemove ∧ granted = true ∧ 0 ≤ fd →
        rc = none ∧ watched = Function.update s.watched fd
          (if what = .pollRemove then none else some what))

variable {s : CurlLoop β} {fd : ℤ}

theorem multiSocket_remove (h : SocketsKept curl s.fds s.socketp s.watched)
    (hown : OwnSocket curl s.fds fd) (granted : Bool) :
    SocketAnswer curl s fd .pollRemove granted
      (multiSocketFunction curl s fd .pollRemove granted) := by
  obtain ⟨m, hgraph, hpart⟩ := h.graph
  obtain ⟨fds', rc, m', hcall, hspec, hgraph'⟩ := registryStep_spec s.fds m (.remove fd) hgraph
  rw [registryStep] at hcall
  rw [multiSocketFunction, if_pos rfl]
  cases hremoved : removeFd s.fds fd with
  | ok fds =>
    rw [hremoved] at hcall
    obtain ⟨rfl, rfl⟩ := Prod.mk.inj (Option.some.inj hcall)
    obtain ⟨-, -, rfl⟩ := hspec.resolve_right (by simp)
    obtain ⟨hkept, hothers⟩ := h.written hgraph hpart hown hgraph' none rfl
    exact ⟨_, _, _, none, rfl, hkept, hothers, fun _ => ⟨rfl, rfl⟩⟩
  | error e =>
    rw [hremoved] at hcall
    obtain ⟨rfl, rfl⟩ := Prod.mk.inj (Option.some.inj hcall)
    obtain ⟨-, hfree, -⟩ := hspec.resolve_left (by simp)
    refine ⟨_, _, _, some e, rfl, h, fun _ _ _ _ => Iff.rfl, ?_⟩
    rintro (hwatched | ⟨hne, -⟩)
    · obtain ⟨w, hw⟩ := Option.isSome_iff_exists.mp hwatched
      cases hfree.symm.trans ((hpart fd _).mpr ⟨w, hw, rfl⟩)
    · exact absurd rfl hne

theorem multiSocket_add (h : SocketsKept curl s.fds s.socketp s.watched)
    (hown : OwnSocket curl s.fds fd) {what : CurlPoll} (hwhat : what ≠ .pollRemove)
    (hnew : s.socketp fd = false) (granted : Bool) :
    SocketAnswer curl s fd what granted (multiSocketFunction curl s fd what granted) := by
  obtain ⟨m, hgraph, hpart⟩ := h.graph
  have hunwatched : s.watched fd = none := by
    rw [h.socketp] at hnew
    exact Option.isNone_iff_eq_none.mp (by simpa using hnew)
  obtain ⟨fds', rc, m', hcall, hspec, hgraph'⟩ :=
    registryStep_spec s.fds m (.add fd what.events curl granted) hgraph
  rw [registryStep] at hcall
  rw [multiSocketFunction, if_neg hwhat, if_pos hnew]
  cases hadded : addFd s.fds fd what.events curl granted with
  | ok fds =>
    rw [hadded] at hcall
    obtain ⟨rfl, rfl⟩ := Prod.mk.inj (Option.some.inj hcall)
    obtain ⟨-, -, rfl⟩ := hspec.resolve_right (by simp)
    obtain ⟨hkept, hothers⟩ := h.written hgraph hpart hown hgraph' (some what) rfl
    exact ⟨_, _, _, none, rfl, hkept, hothers, fun _ => ⟨rfl, by rw [if_neg hwhat]⟩⟩
  | error e =>
    rw [hadded] at hcall
    obtain ⟨rfl, rfl⟩ := Prod.mk.inj (Option.some.inj hcall)
    obtain ⟨hreason, -⟩ := hspec.resolve_left (by simp)
    refine ⟨_, _, _, some e, rfl, h, fun _ _ _ _ => Iff.rfl, ?_⟩
    rintro (hwatched | ⟨-, hgranted, hnonneg⟩)
    · simp [hunwatched] at hwatched
    · rcases hreason with ⟨-, hneg⟩ | ⟨-, hmapped⟩ | ⟨-, hrefused⟩
      · exact absurd hneg (not_lt.mpr hnonneg)
      · rw [hpart.free hgraph hown hunwatched] at hmapped
        cases hmapped
      · cases hgranted.symm.trans hrefused

theorem multiSocket_mod (h : SocketsKept curl s.fds s.socketp s.watched)
    (hown : OwnSocket curl s.fds fd) {what : CurlPoll} (hwhat : what ≠ .pollRemove)
    (hold : s.socketp fd = true) (granted : Bool) :
    SocketAnswer curl s fd what granted (multiSocketFunction curl s fd what granted) := by
  obtain ⟨m, hgraph, hpart⟩ := h.graph
  obtain ⟨w, hw⟩ := Option.isSome_iff_exists.mp ((h.socketp fd).symm.trans hold)
  have hmapped : m fd = some (w.events, curl) := (hpart fd _).mpr ⟨w, hw, rfl⟩
  obtain ⟨fds', rc, m', hcall, hspec, hgraph'⟩ :=
    registryStep_spec s.fds m (.mod fd what.events) hgraph
  rw [registryStep] at hcall
  rw [multiSocketFunction, if_neg hwhat, if_neg (by simp [hold])]
  obtain ⟨events, cb, rfl, hm, rfl⟩ := hspec.resolve_right (by simp [hmapped])
  obtain ⟨-, rfl⟩ := Prod.mk.inj (Option.some.inj (hm.symm.trans hmapped))
  obtain ⟨hkept, hothers⟩ := h.written hgraph hpart hown hgraph' (some what) rfl
  have hsame : Function.update s.socketp fd (some what).isSome = s.socketp := by
    rw [Option.isSome_some, ← hold, Function.update_eq_self]
  rw [hsame] at hkept
  cases hmodified : modFd s.fds fd what.events with
  | ok fds =>
    rw [hmodified] at hcall
    obtain ⟨rfl, -⟩ := Prod.mk.inj (Option.some.inj hcall)
    exact ⟨_, _, _, none, rfl, hkept, hothers, fun _ => ⟨rfl, by rw [if_neg hwhat]⟩⟩
  | error e =>
    rw [hmodified] at hcall
    cases (Prod.mk.inj (Option.some.inj hcall)).2

/-- A call by libcurl about a socket. -/
theorem multiSocketFunction_spec (h : SocketsKept curl s.fds s.socketp s.watched)
    (hown : OwnSocket curl s.fds fd) (what : CurlPoll) (granted : Bool) :
    SocketAnswer curl s fd what granted (multiSocketFunction curl s fd what granted) := by
  by_cases hremove : what = .pollRemove
  · subst hremove
    exact multiSocket_remove h hown granted
  · cases hold : s.socketp fd with
    | false => exact multiSocket_add h hown hremove hold granted
    | true => exact multiSocket_mod h hown hremove hold granted

end Sockets

/-- What every state of the loop has. -/
structure CurlKept (curl : β) (s : CurlLoop β) : Prop where
  deadline : s.DeadlineKept curl
  sockets : SocketsKept curl s.fds s.socketp s.watched

/-- A callback adds a timer that had expired before `process_timers` read the clock; libcurl does so
only if the clock was set back, as its timeouts are not negative. -/
def CurlAddsOverdue (curl : β) (s : CurlLoop β) : CurlLoopAction β → Prop
  | .timer action => AddsOverdue s.timers action
  | .multiTimer timeoutMs clock granted =>
    0 ≤ timeoutMs ∧ AddsOverdue s.timers (.addTimer timeoutMs clock (some curl) granted)
  | _ => False

/-- As long as no callback does, no timer is lost. -/
structure CurlSettled (s : CurlLoop β) : Prop where
  root : RootFired s.timers
  settled : s.timers.AllSettled

theorem curlKept_init {curl : β} : CurlKept curl (CurlLoop.init : CurlLoop β) :=
  ⟨deadlineKept_init, socketsKept_init⟩

theorem cancelTimer_phase (timers : TimerState β) (timerId : ℤ) :
    (timers.cancelTimer timerId).phase = timers.phase := by
  rw [TimerState.cancelTimer]
  split <;> rfl

section Runs

variable [DecidableEq β] {curl : β} {s u : CurlLoop β} {a : CurlLoopAction β}

/-- Every action keeps the books of libcurl. -/
theorem curlStep_kept (h : CurlKept curl s) (hstep : curlStep curl s a = some u) :
    CurlKept curl u := by
  cases a with
  | timer action =>
    obtain ⟨hown, hstep⟩ := Option.ite_none_right_eq_some.mp hstep
    obtain ⟨timers, hmoved, rfl⟩ := Option.map_eq_some_iff.mp hstep
    exact ⟨h.deadline.others hmoved hown, h.sockets⟩
  | fd call =>
    obtain ⟨hown, hstep⟩ := Option.ite_none_right_eq_some.mp hstep
    obtain ⟨answer, hanswer, rfl⟩ := Option.map_eq_some_iff.mp hstep
    exact ⟨h.deadline, h.sockets.others hanswer hown⟩
  | multiTimer timeoutMs clock granted =>
    obtain ⟨-, hstep⟩ := Option.ite_none_right_eq_some.mp hstep
    obtain ⟨_, _, _, _, _, hcall, hkept, -⟩ :=
      multiTimerFunction_spec h.deadline timeoutMs clock granted
    rw [hcall] at hstep
    obtain rfl := Option.some.inj hstep
    exact ⟨hkept, h.sockets⟩
  | multiSocket fd what granted =>
    obtain ⟨hown, hstep⟩ := Option.ite_none_right_eq_some.mp hstep
    obtain ⟨_, _, _, _, hcall, hkept, -⟩ := multiSocketFunction_spec h.sockets hown what granted
    rw [hcall] at hstep
    obtain rfl := Option.some.inj hstep
    exact ⟨h.deadline, hkept⟩

/-- Where no overdue timer is added, no timer gets lost. -/
theorem curlStep_settled (h : CurlKept curl s) (hsettled : CurlSettled s)
    (hnot : ¬ CurlAddsOverdue curl s a) (hstep : curlStep curl s a = some u) : CurlSettled u := by
  cases a with
  | timer action =>
    obtain ⟨-, hstep⟩ := Option.ite_none_right_eq_some.mp hstep
    obtain ⟨timers, hmoved, rfl⟩ := Option.map_eq_some_iff.mp hstep
    obtain ⟨hroot, hkeeps⟩ := timerStep_rootFired hnot hsettled.root hmoved
    have hiff := (timerStep_effect hmoved).allSettled_iff h.deadline.balanced
    exact ⟨hroot, hiff.mpr ⟨hsettled.settled, hkeeps⟩⟩
  | fd call =>
    obtain ⟨-, hstep⟩ := Option.ite_none_right_eq_some.mp hstep
    obtain ⟨answer, -, rfl⟩ := Option.map_eq_some_iff.mp hstep
    exact ⟨hsettled.root, hsettled.settled⟩
  | multiTimer timeoutMs clock granted =>
    obtain ⟨-, hstep⟩ := Option.ite_none_right_eq_some.mp hstep
    obtain ⟨old, timers, _, _, _, hcall, -, hold, hbalanced, hnew, -⟩ :=
      multiTimerFunction_spec h.deadline timeoutMs clock granted
    rw [hcall] at hstep
    obtain rfl := Option.some.inj hstep
    have hfirst : RootFired old ∧ old.AllSettled ∧ old.phase = s.timers.phase := by
      rcases hold with rfl | rfl
      · exact ⟨hsettled.root, hsettled.settled, rfl⟩
      · have hiff := (cancelTimer_effect not_false s.timerId).allSettled_iff h.deadline.balanced
        exact ⟨rootFired_cancelTimer hsettled.root _, hiff.mpr ⟨hsettled.settled, not_false⟩,
          cancelTimer_phase _ _⟩
    obtain ⟨hroot, hall, hphase⟩ := hfirst
    rcases hnew with rfl | ⟨rfl, htimeout⟩
    · exact ⟨hroot, hall⟩
    · have hiff := (addTimer_effect not_false timeoutMs clock (some curl) granted).allSettled_iff
        hbalanced
      refine ⟨rootFired_addTimer hroot fun hoverdue => hnot ⟨htimeout, ?_⟩,
        hiff.mpr ⟨hall, not_false⟩⟩
      obtain ⟨now, _, _, _, _, hcallback, heq, hlate⟩ := hoverdue
      exact ⟨now, _, _, _, _, hphase ▸ hcallback, heq, hlate⟩
  | multiSocket fd what granted =>
    obtain ⟨hown, hstep⟩ := Option.ite_none_right_eq_some.mp hstep
    obtain ⟨_, _, _, _, hcall, -⟩ := multiSocketFunction_spec h.sockets hown what granted
    rw [hcall] at hstep
    obtain rfl := Option.some.inj hstep
    exact ⟨hsettled.root, hsettled.settled⟩

/-- What libcurl has asked for is there, or has been served. -/
theorem asked_served (h : CurlKept curl s) (hsettled : s.timers.AllSettled) {e : ℤ}
    (hasked : s.asked = some e) :
    (s.timerId, curl) ∈ s.timers.invoked ∨ ⟨e, s.timerId, curl, true⟩ ∈ s.timers.nodes := by
  obtain ⟨-, hadded, hcancelled, hexpires⟩ := h.deadline.asks e hasked
  by_cases hout : ∀ node ∈ s.timers.nodes, node.timer ≠ (s.timerId, curl)
  · exact .inl (hsettled _ hadded hcancelled hout)
  · push Not at hout
    obtain ⟨node, hnode, htimer⟩ := hout
    obtain ⟨hid, hcb⟩ := Prod.mk.inj htimer
    have hactive := h.deadline.balanced.active node hnode
    rw [hid, htimer] at hactive
    by_cases hinvoked : (s.timerId, curl) ∈ s.timers.invoked
    · exact .inl hinvoked
    · right
      have hnode' : node = ⟨e, s.timerId, curl, true⟩ := by
        obtain ⟨expiration, id, cb, active⟩ := node
        obtain rfl : id = s.timerId := hid
        obtain rfl : cb = curl := hcb
        obtain rfl : expiration = e := hexpires _ hnode rfl
        obtain rfl : active = true := hactive.mpr ⟨hcancelled, hinvoked⟩
        rfl
      exact hnode' ▸ hnode

/-- Whatever libcurl and the other users of a loop do in whatever order: libcurl has no active timer
but the one that it has asked for last, which waits until that expires unless its callback has been
invoked; its callback is registered for the sockets that it watches and for no others, with their
events; and its calls leave the timers and the descriptors of others alone, and succeed as long as
there is memory. -/
theorem curlLoop_serves {as : List (CurlLoopAction β)} (run : Run (curlStep curl) .init as s) :
    (∀ node ∈ s.timers.nodes, node.active = true → node.cb = curl →
        node.id = s.timerId ∧ s.asked = some node.expiration) ∧
      (Avoids (curlStep curl) (CurlAddsOverdue curl) .init as → ∀ e, s.asked = some e →
        (s.timerId, curl) ∈ s.timers.invoked ∨ ⟨e, s.timerId, curl, true⟩ ∈ s.timers.nodes) ∧
      (∀ fd events, Registered s.fds fd events curl ↔
        ∃ what, s.watched fd = some what ∧ events = what.events) ∧
      (∀ timeoutMs clock granted,
        let answer := multiTimerFunction curl s timeoutMs clock granted
        (∀ node : TimerNode β, node.active = true → node.cb ≠ curl →
          (node ∈ answer.1.timers.nodes ↔ node ∈ s.timers.nodes)) ∧
        (granted = true → answer.2 = none ∧
          answer.1.asked = if timeoutMs ≥ 0 then some (clock + timeoutMs) else none)) ∧
      ∀ fd what granted, OwnSocket curl s.fds fd →
        SocketAnswer curl s fd what granted (multiSocketFunction curl s fd what granted) := by
  have hkept : CurlKept curl s :=
    run.invariant (A := fun _ => True) (fun _ _ _ _ h hstep => curlStep_kept h hstep) curlKept_init
      fun _ _ => trivial
  refine ⟨hkept.deadline.mine, fun havoids e hasked => ?_, fun fd events => ?_,
    fun timeoutMs clock granted => ?_, fun fd what granted hown => ?_⟩
  · have hsettled := (run.avoids_of_avoids
      (P := fun s => CurlKept curl s ∧ CurlSettled s)
      (fun _ _ _ hnot h hstep =>
        ⟨⟨curlStep_kept h.1 hstep, curlStep_settled h.1 h.2 hnot hstep⟩, not_false⟩)
      ⟨curlKept_init, rootFired_of_phase (by simp [CurlLoop.init, TimerState.init]),
        allSettled_init⟩ havoids).1.2
    exact asked_served hkept hsettled.settled hasked
  · obtain ⟨m, hgraph, hpart⟩ := hkept.sockets.graph
    exact (hgraph.graph fd events curl).symm.trans (hpart fd events)
  · obtain ⟨_, _, _, _, _, hcall, -, -, -, -, hothers, hgranted⟩ :=
      multiTimerFunction_spec hkept.deadline timeoutMs clock granted
    dsimp only
    rw [hcall]
    exact ⟨hothers, hgranted⟩
  · exact multiSocketFunction_spec hkept.sockets hown what granted

end Runs

/-- A socket and a timer of libcurl on a loop with a descriptor of someone else's; the timer
expires, and its callback is running. -/
def curlVisit : List (CurlLoopAction ℕ) :=
  [.multiTimer 50 0 true, .fd (.add 4 1 8 true), .multiSocket 5 .pollOut true,
    .timer (.processTimers 60), .timer .round]

theorem curlVisit_avoids : Avoids (curlStep 7) (CurlAddsOverdue 7) .init curlVisit := by
  rintro (_ | ⟨b, p⟩) a q t hlist hrun hbad
  · obtain ⟨rfl, -⟩ := List.cons.inj hlist
    obtain rfl := hrun.functional .start
    obtain ⟨-, now, _, _, _, _, hphase, -⟩ := hbad
    cases hphase
  · have hmem : a ∈ curlVisit.tail := by
      rw [hlist]
      simp
    fin_cases hmem
    · exact hbad
    · exact hbad
    · obtain ⟨_, _, _, _, _, -, heq, -⟩ := hbad
      cases heq
    · obtain ⟨_, _, _, _, _, -, heq, -⟩ := hbad
      cases heq

theorem curlLoop_serves_curlVisit : ∃ s : CurlLoop ℕ, Run (curlStep 7) .init curlVisit s ∧
    s.asked = some 50 ∧
      ((s.timerId, 7) ∈ s.timers.invoked ∨ ⟨50, s.timerId, 7, true⟩ ∈ s.timers.nodes) ∧
      (∀ fd events, Registered s.fds fd events 7 ↔
        ∃ what, s.watched fd = some what ∧ events = what.events) ∧
      (multiTimerFunction 7 s 20 60 true).1.asked = some 80 := by
  have hlast : (curlVisit.foldlM (curlStep 7) CurlLoop.init).map CurlLoop.asked =
      some (some 50) := by decide +kernel
  obtain ⟨s, hs, hasked⟩ := Option.map_eq_some_iff.mp hlast
  obtain ⟨-, hserved, hsockets, htimer, -⟩ := curlLoop_serves (run_iff.mpr hs)
  exact ⟨s, run_iff.mpr hs, hasked, hserved curlVisit_avoids 50 hasked, hsockets,
    ((htimer 20 60 true).2 rfl).2⟩

end AbstractHttp.Transport
