import AbstractHttp.EventLoop.Descriptors
import AbstractHttp.Library.Schedule

/-!
# Which registrations a dispatch pass calls

The sets that `select` fills in are read during the whole pass, while callbacks add, modify and
remove descriptors. Each registration has a number, which stands for its callback, and every call
is recorded with what `select` knew and with what happened since.
-/
namespace AbstractHttp.EventLoop
open Library

/-- Where `http_loop_run` and `http_loop_tick` are; `i` is the slot of the scan. -/
inductive DispatchPhase where
  | idle
  | scanning (i : ℕ) (ready : FdSets)
  | inCallback (i : ℕ) (ready : FdSets)
  deriving DecidableEq, Repr

/-- Within a step of the scan no one else acts. -/
def DispatchPhase.callable : DispatchPhase → Bool
  | .scanning _ _ => false
  | _ => true

/-- What the pass goes by. -/
def DispatchPhase.ready? : DispatchPhase → Option FdSets
  | .idle => none
  | .scanning _ ready => some ready
  | .inCallback _ ready => some ready

/-- The call of a callback: the registrations when `select` was called, those removed since, the
mask that the callback receives and the one that its registration asks for. -/
structure FdCall where
  registration : ℕ
  revents : BitVec 32
  events : BitVec 32
  known : List ℕ
  removed : List ℕ
  deriving DecidableEq, Repr

/-- The callback is that of a registration `select` was called for, which is still there and asks
for what it receives. -/
structure FdCall.Right (call : FdCall) : Prop where
  known : call.registration ∈ call.known
  kept : call.registration ∉ call.removed
  within : MaskWithin call.revents call.events

/-- The descriptors with a record: how many registrations there were so far, and, since `select`
was called, which ones it was called for and which were removed or modified. From a descriptor
outside of the sets on, which is recorded too, nothing is known about the memory behind them. -/
structure DispatchState where
  loop : FdRegistry ℕ
  phase : DispatchPhase
  registered : ℕ
  before : ℕ
  known : List ℕ
  removed : List ℕ
  modified : List ℕ
  calls : List FdCall
  overran : Bool
  deriving DecidableEq

/-- The loop as `http_loop_init` makes it. -/
def DispatchState.init : DispatchState := ⟨.init, .idle, 0, 0, [], [], [], [], false⟩

namespace DispatchState

/-- The registrations that are active. -/
def active (s : DispatchState) : List ℕ :=
  (s.loop.fds.toList.filter FdNode.active).map FdNode.cb

/-- A call of `http_loop_add_fd`. -/
def addFd (s : DispatchState) (fd : ℤ) (events : BitVec 32) (granted : Bool) : DispatchState :=
  match EventLoop.addFd s.loop fd events s.registered granted with
  | .ok loop => { s with loop := loop, registered := s.registered + 1 }
  | .error _ => s

/-- The registration of a descriptor, if it has one. -/
def registrationOf (s : DispatchState) (fd : ℤ) : List ℕ :=
  (s.loop.fds.toList.filter fun node => node.active ∧ node.fd = fd).map FdNode.cb

/-- A call of `http_loop_mod_fd`. -/
def modFd (s : DispatchState) (fd : ℤ) (events : BitVec 32) : DispatchState :=
  match EventLoop.modFd s.loop fd events with
  | .ok loop => { s with loop := loop, modified := s.modified ++ s.registrationOf fd }
  | .error _ => s

/-- A call of `http_loop_remove_fd`. -/
def removeFd (s : DispatchState) (fd : ℤ) : DispatchState :=
  match EventLoop.removeFd s.loop fd with
  | .ok loop => { s with loop := loop, removed := s.removed ++ s.registrationOf fd }
  | .error _ => s

/-- The sets are filled, and `select` returns that descriptors are ready. -/
def select (wakeupPipe : ℤ) (s : DispatchState) (ready : FdSets) : DispatchState :=
  { s with
    phase := .scanning 0 ready
    overran := s.overran || !decide (s.loop.fdSets wakeupPipe).Fits
    before := s.registered
    known := s.active
    removed := []
    modified := [] }

/-- One slot of the scan, as far as the call of its callback. -/
def scan (s : DispatchState) (i : ℕ) (ready : FdSets) : DispatchState :=
  match s.loop.fds[i]? with
  | none => { s with phase := .idle }
  | some node =>
    -- `FD_ISSET` asks for the bit of every active descriptor.
    let s := { s with overran := s.overran || node.active && decide (fdSetSize ≤ node.fd) }
    if node.active ∧ ready.revents node.fd ≠ 0 then
      { s with
        phase := .inCallback i ready
        calls := s.calls ++
          [⟨node.cb, ready.revents node.fd, node.events, s.known, s.removed⟩] }
    else { s with phase := .scanning (i + 1) ready }

end DispatchState

/-- The actions of the loop and of its callers. -/
inductive DispatchAction where
  | addFd (fd : ℤ) (events : BitVec 32) (granted : Bool)
  | modFd (fd : ℤ) (events : BitVec 32)
  | removeFd (fd : ℤ)
  | select (ready : FdSets)
  | scan
  | callbackReturns

/-- One action, where it is enabled. -/
def dispatchStep (wakeupPipe : ℤ) (s : DispatchState) : DispatchAction → Option DispatchState
  | .addFd fd events granted =>
    if s.phase.callable then some (s.addFd fd events granted) else none
  | .modFd fd events => if s.phase.callable then some (s.modFd fd events) else none
  | .removeFd fd => if s.phase.callable then some (s.removeFd fd) else none
  | .select ready =>
    if s.phase = .idle ∧ ready.Within (s.loop.fdSets wakeupPipe) then
      some (s.select wakeupPipe ready)
    else none
  | .scan =>
    match s.phase with
    | .scanning i ready => some (s.scan i ready)
    | _ => none
  | .callbackReturns =>
    match s.phase with
    | .inCallback i ready => some { s with phase := .scanning (i + 1) ready }
    | _ => none

/-- Where an enabled action leads. -/
inductive DispatchMove (wakeupPipe : ℤ) (s : DispatchState) :
    DispatchAction → DispatchState → Prop where
  | addFd (fd : ℤ) (events : BitVec 32) (granted : Bool) :
      DispatchMove wakeupPipe s (.addFd fd events granted) (s.addFd fd events granted)
  | modFd (fd : ℤ) (events : BitVec 32) :
      DispatchMove wakeupPipe s (.modFd fd events) (s.modFd fd events)
  | removeFd (fd : ℤ) : DispatchMove wakeupPipe s (.removeFd fd) (s.removeFd fd)
  | select {ready : FdSets} : ready.Within (s.loop.fdSets wakeupPipe) →
      DispatchMove wakeupPipe s (.select ready) (s.select wakeupPipe ready)
  | scan {i : ℕ} {ready : FdSets} : s.phase = .scanning i ready →
      DispatchMove wakeupPipe s .scan (s.scan i ready)
  | callbackReturns {i : ℕ} {ready : FdSets} : s.phase = .inCallback i ready →
      DispatchMove wakeupPipe s .callbackReturns { s with phase := .scanning (i + 1) ready }

theorem dispatchStep_moves {wakeupPipe : ℤ} {s u : DispatchState} {a : DispatchAction}
    (h : dispatchStep wakeupPipe s a = some u) : DispatchMove wakeupPipe s a u := by
  cases a with
  | addFd fd events granted =>
    rw [dispatchStep, Option.ite_none_right_eq_some] at h
    obtain rfl := Option.some.inj h.2
    exact .addFd fd events granted
  | modFd fd events =>
    rw [dispatchStep, Option.ite_none_right_eq_some] at h
    obtain rfl := Option.some.inj h.2
    exact .modFd fd events
  | removeFd fd =>
    rw [dispatchStep, Option.ite_none_right_eq_some] at h
    obtain rfl := Option.some.inj h.2
    exact .removeFd fd
  | select ready =>
    rw [dispatchStep, Option.ite_none_right_eq_some] at h
    obtain rfl := Option.some.inj h.2
    exact .select h.1.2
  | scan =>
    rw [dispatchStep] at h
    split at h
    next i ready hphase =>
      obtain rfl := Option.some.inj h
      exact .scan hphase
    next => cases h
  | callbackReturns =>
    rw [dispatchStep] at h
    split at h
    next i ready hphase =>
      obtain rfl := Option.some.inj h
      exact .callbackReturns hphase
    next => cases h

/-- The scan comes to a descriptor that `select` reported and that was registered since, or that
asks for less than was reported because it was modified since or is the loop's own pipe. -/
def MeetsStale (wakeupPipe : ℤ) (s : DispatchState) (action : DispatchAction) : Prop :=
  action = .scan ∧ ∃ i ready node, s.phase = .scanning i ready ∧ s.loop.HasActive i node ∧
    ready.revents node.fd ≠ 0 ∧
      (s.before ≤ node.cb ∨ (node.cb ∈ s.modified ∨ node.fd = wakeupPipe) ∧
        ¬ MaskWithin (ready.revents node.fd) node.events)

/-- A descriptor outside of the sets is put into them, or looked up in them. -/
def LeavesSets (wakeupPipe : ℤ) (s : DispatchState) (action : DispatchAction) : Prop :=
  (∃ ready, action = .select ready ∧ ¬ (s.loop.fdSets wakeupPipe).Fits) ∨
    action = .scan ∧ ∃ i ready node, s.phase = .scanning i ready ∧ s.loop.HasActive i node ∧
      fdSetSize ≤ node.fd

/-! The registrations. -/

section Registrations

variable {wakeupPipe fd : ℤ} {s u : DispatchState}

/-- Descriptors and numbers are active once, and what `select` was called for is still as it was
unless it was removed or modified. -/
structure Registered (wakeupPipe : ℤ) (s : DispatchState) : Prop where
  fdOnce : ∀ i j node other, s.loop.HasActive i node → s.loop.HasActive j other →
    node.fd = other.fd → i = j
  numberOnce : ∀ i j node other, s.loop.HasActive i node → s.loop.HasActive j other →
    node.cb = other.cb → i = j
  numbered : ∀ i node, s.loop.HasActive i node → node.cb < s.registered
  knownBefore : ∀ k ∈ s.known, k < s.before
  known : ∀ i node, s.loop.HasActive i node → node.cb < s.before → node.cb ∈ s.known
  kept : ∀ i node, s.loop.HasActive i node → node.cb ∉ s.removed
  removedBefore : ∀ k ∈ s.removed, k < s.registered
  before_le : s.before ≤ s.registered
  within : ∀ ready i node, s.phase.ready? = some ready → s.loop.HasActive i node →
    node.cb < s.before → node.cb ∉ s.modified → node.fd ≠ wakeupPipe →
      MaskWithin (ready.revents node.fd) node.events

theorem mem_registrationOf {k : ℕ} :
    k ∈ s.registrationOf fd ↔ ∃ i node, s.loop.HasActive i node ∧ node.fd = fd ∧ node.cb = k := by
  rw [DispatchState.registrationOf, List.mem_map]
  constructor
  · rintro ⟨node, hmem, hcb⟩
    obtain ⟨hmem, hfound⟩ := List.mem_filter.mp hmem
    obtain ⟨hactive, hfd⟩ := of_decide_eq_true hfound
    obtain ⟨i, hi⟩ := mem_slots.mp hmem
    exact ⟨i, node, ⟨hi, hactive⟩, hfd, hcb⟩
  · rintro ⟨i, node, ⟨hi, hactive⟩, hfd, hcb⟩
    exact ⟨node, List.mem_filter.mpr ⟨mem_slots.mpr ⟨i, hi⟩, decide_eq_true ⟨hactive, hfd⟩⟩, hcb⟩

theorem mem_active {k : ℕ} : k ∈ s.active ↔ ∃ i node, s.loop.HasActive i node ∧ node.cb = k := by
  rw [DispatchState.active, List.mem_map]
  constructor
  · rintro ⟨node, hmem, hcb⟩
    obtain ⟨hmem, hactive⟩ := List.mem_filter.mp hmem
    obtain ⟨i, hi⟩ := mem_slots.mp hmem
    exact ⟨i, node, ⟨hi, hactive⟩, hcb⟩
  · rintro ⟨i, node, ⟨hi, hactive⟩, hcb⟩
    exact ⟨node, List.mem_filter.mpr ⟨mem_slots.mpr ⟨i, hi⟩, hactive⟩, hcb⟩

/-- A node that is neither new nor changed is as good as before. -/
theorem Registered.addFd {events : BitVec 32} {granted : Bool} (h : Registered wakeupPipe s) :
    Registered wakeupPipe (s.addFd fd events granted) := by
  rw [DispatchState.addFd]
  split
  next loop hadd =>
    obtain ⟨hfresh, i, hwrites, -⟩ := addFd_ok hadd
    constructor
    · intro j k node other hnode hother hfd
      rcases hwrites.hasActive hnode with ⟨rfl, rfl, -⟩ | ⟨hj, hnode⟩ <;>
        rcases hwrites.hasActive hother with ⟨rfl, rfl, -⟩ | ⟨hk, hother⟩
      · rfl
      · exact absurd hfd.symm (hfresh _ _ hother)
      · exact absurd hfd (hfresh _ _ hnode)
      · exact h.fdOnce j k node other hnode hother hfd
    · intro j k node other hnode hother hcb
      rcases hwrites.hasActive hnode with ⟨rfl, rfl, -⟩ | ⟨hj, hnode⟩ <;>
        rcases hwrites.hasActive hother with ⟨rfl, rfl, -⟩ | ⟨hk, hother⟩
      · rfl
      · exact absurd hcb.symm (h.numbered _ _ hother).ne
      · exact absurd hcb (h.numbered _ _ hnode).ne
      · exact h.numberOnce j k node other hnode hother hcb
    · intro j node hnode
      rcases hwrites.hasActive hnode with ⟨rfl, rfl, -⟩ | ⟨hj, hnode⟩
      · exact Nat.lt_succ_self _
      · exact (h.numbered j node hnode).trans (Nat.lt_succ_self _)
    · exact h.knownBefore
    · intro j node hnode hbefore
      rcases hwrites.hasActive hnode with ⟨rfl, rfl, -⟩ | ⟨hj, hnode⟩
      · exact absurd hbefore h.before_le.not_gt
      · exact h.known j node hnode hbefore
    · intro j node hnode
      rcases hwrites.hasActive hnode with ⟨rfl, rfl, -⟩ | ⟨hj, hnode⟩
      · exact fun hmem => (h.removedBefore _ hmem).ne rfl
      · exact h.kept j node hnode
    · exact fun k hk => (h.removedBefore k hk).trans (Nat.lt_succ_self _)
    · exact h.before_le.trans (Nat.le_succ _)
    · intro ready j node hready hnode hbefore
      rcases hwrites.hasActive hnode with ⟨rfl, rfl, -⟩ | ⟨hj, hnode⟩
      · exact absurd hbefore h.before_le.not_gt
      · exact h.within ready j node hready hnode hbefore
  next => exact h

/-- Where the descriptors and numbers of the active slots are as before, or fewer. -/
theorem Registered.of_slots (h : Registered wakeupPipe s)
    (hslots : ∀ i node, u.loop.HasActive i node →
      ∃ old, s.loop.HasActive i old ∧ old.fd = node.fd ∧ old.cb = node.cb)
    (hregistered : u.registered = s.registered) (hbefore : u.before = s.before)
    (hknown : u.known = s.known)
    (hkept : ∀ i node, u.loop.HasActive i node → node.cb ∉ u.removed)
    (hremoved : ∀ k ∈ u.removed, k < s.registered)
    (hwithin : ∀ ready i node, u.phase.ready? = some ready → u.loop.HasActive i node →
      node.cb < s.before → node.cb ∉ u.modified → node.fd ≠ wakeupPipe →
        MaskWithin (ready.revents node.fd) node.events) :
    Registered wakeupPipe u := by
  rw [← hbefore] at hwithin
  rw [← hregistered] at hremoved
  refine ⟨?_, ?_, ?_, ?_, ?_, hkept, hremoved, ?_, hwithin⟩
  · intro i j node other hnode hother hfd
    obtain ⟨old, hold, hfdOld, -⟩ := hslots i node hnode
    obtain ⟨old', hold', hfdOld', -⟩ := hslots j other hother
    exact h.fdOnce i j old old' hold hold' (hfdOld.trans (hfd.trans hfdOld'.symm))
  · intro i j node other hnode hother hcb
    obtain ⟨old, hold, -, hcbOld⟩ := hslots i node hnode
    obtain ⟨old', hold', -, hcbOld'⟩ := hslots j other hother
    exact h.numberOnce i j old old' hold hold' (hcbOld.trans (hcb.trans hcbOld'.symm))
  · intro i node hnode
    obtain ⟨old, hold, -, hcbOld⟩ := hslots i node hnode
    rw [hregistered, ← hcbOld]
    exact h.numbered i old hold
  · rw [hknown, hbefore]
    exact h.knownBefore
  · intro i node hnode hlt
    obtain ⟨old, hold, -, hcbOld⟩ := hslots i node hnode
    rw [← hcbOld, hbefore] at hlt
    rw [hknown, ← hcbOld]
    exact h.known i old hold hlt
  · rw [hbefore, hregistered]
    exact h.before_le

theorem Registered.modFd {events : BitVec 32} (h : Registered wakeupPipe s) :
    Registered wakeupPipe (s.modFd fd events) := by
  rw [DispatchState.modFd]
  split
  next loop hmod =>
    obtain ⟨i, old, hold, hfd, hwrites⟩ := modFd_ok hmod
    have hslots : ∀ j node, loop.HasActive j node →
        ∃ before, s.loop.HasActive j before ∧ before.fd = node.fd ∧ before.cb = node.cb := by
      intro j node hnode
      rcases hwrites.hasActive hnode with ⟨rfl, rfl, -⟩ | ⟨-, hnode⟩
      · exact ⟨old, hold, rfl, rfl⟩
      · exact ⟨node, hnode, rfl, rfl⟩
    refine h.of_slots hslots rfl rfl rfl ?_ h.removedBefore ?_
    · intro j node hnode
      obtain ⟨before, hactive, -, hcb⟩ := hslots j node hnode
      rw [← hcb]
      exact h.kept j before hactive
    · intro ready j node hready hnode hlt hmodified
      obtain ⟨hunmodified, hother⟩ := not_or.mp (fun hmem => hmodified (List.mem_append.mpr hmem))
      rcases hwrites.hasActive hnode with ⟨rfl, rfl, -⟩ | ⟨-, hnode⟩
      · exact absurd (mem_registrationOf.mpr ⟨j, old, hold, hfd, rfl⟩) hother
      · exact h.within ready j node hready hnode hlt hunmodified
  next => exact h

theorem Registered.removeFd (h : Registered wakeupPipe s) :
    Registered wakeupPipe (s.removeFd fd) := by
  rw [DispatchState.removeFd]
  split
  next loop hremove =>
    obtain ⟨i, old, hold, hfd, hwrites⟩ := removeFd_ok hremove
    have hslots : ∀ j node, loop.HasActive j node → j ≠ i ∧ s.loop.HasActive j node := by
      intro j node hnode
      rcases hwrites.hasActive hnode with ⟨-, -, hinactive⟩ | hkept
      · cases hinactive
      · exact hkept
    refine h.of_slots (fun j node hnode => ⟨node, (hslots j node hnode).2, rfl, rfl⟩) rfl rfl rfl
      ?_ ?_ ?_
    · intro j node hnode hmem
      obtain ⟨hother, hactive⟩ := hslots j node hnode
      rcases List.mem_append.mp hmem with hmem | hmem
      · exact h.kept j node hactive hmem
      · obtain ⟨k, gone, hgone, hfdGone, hcb⟩ := mem_registrationOf.mp hmem
        obtain rfl := h.fdOnce k i gone old hgone hold (hfdGone.trans hfd.symm)
        exact hother (h.numberOnce j k node gone hactive hgone hcb.symm)
    · intro k hmem
      rcases List.mem_append.mp hmem with hmem | hmem
      · exact h.removedBefore k hmem
      · obtain ⟨j, gone, hgone, -, rfl⟩ := mem_registrationOf.mp hmem
        exact h.numbered j gone hgone
    · intro ready j node hready hnode
      exact h.within ready j node hready (hslots j node hnode).2
  next => exact h

theorem Registered.select {ready : FdSets} (h : Registered wakeupPipe s)
    (hready : ready.Within (s.loop.fdSets wakeupPipe)) :
    Registered wakeupPipe (s.select wakeupPipe ready) where
  fdOnce := h.fdOnce
  numberOnce := h.numberOnce
  numbered := h.numbered
  knownBefore := by
    intro k hk
    obtain ⟨i, node, hnode, rfl⟩ := mem_active.mp hk
    exact h.numbered i node hnode
  known := fun i node hnode _ => mem_active.mpr ⟨i, node, hnode, rfl⟩
  kept := fun _ _ _ hmem => List.not_mem_nil hmem
  removedBefore := fun _ hmem => absurd hmem List.not_mem_nil
  before_le := le_rfl
  within := by
    intro ready' i node hsame hnode _ _ hpipe
    obtain rfl := Option.some.inj hsame
    refine revents_within hready hpipe fun j other hother hfd => ?_
    obtain rfl := h.fdOnce j i other node hother hnode hfd
    exact Option.some.inj (hother.1.symm.trans hnode.1)

/-- Only what the pass goes by matters of a phase. -/
theorem Registered.of_phase {phase : DispatchPhase} (calls : List FdCall) (overran : Bool)
    (h : Registered wakeupPipe s)
    (hphase : ∀ ready, phase.ready? = some ready → s.phase.ready? = some ready) :
    Registered wakeupPipe { s with phase := phase, calls := calls, overran := overran } :=
  { h with within := fun ready i node hready => h.within ready i node (hphase ready hready) }

theorem Registered.scan {i : ℕ} {ready : FdSets} (h : Registered wakeupPipe s)
    (hphase : s.phase = .scanning i ready) : Registered wakeupPipe (s.scan i ready) := by
  rw [DispatchState.scan]
  split
  next => exact h.of_phase s.calls s.overran fun ready hready => by cases hready
  next node hnode =>
    split_ifs with hreported
    · exact h.of_phase _ _ fun ready' hready => by rwa [hphase]
    · exact h.of_phase s.calls _ fun ready' hready => by rwa [hphase]

theorem dispatchStep_registered {a : DispatchAction} (h : Registered wakeupPipe s)
    (hstep : dispatchStep wakeupPipe s a = some u) : Registered wakeupPipe u := by
  cases dispatchStep_moves hstep with
  | addFd fd events granted => exact h.addFd
  | modFd fd events => exact h.modFd
  | removeFd fd => exact h.removeFd
  | select hready => exact h.select hready
  | scan hphase => exact h.scan hphase
  | callbackReturns hphase =>
    exact h.of_phase s.calls s.overran fun ready' hready => by rwa [hphase]

theorem registered_init : Registered wakeupPipe .init := by
  have hnone : ∀ i node, ¬ (DispatchState.init.loop).HasActive i node :=
    fun i node hnode => by cases hnode.1
  constructor
  · exact fun i _ node _ hnode => absurd hnode (hnone i node)
  · exact fun i _ node _ hnode => absurd hnode (hnone i node)
  · exact fun i node hnode => absurd hnode (hnone i node)
  · exact fun k hk => absurd hk List.not_mem_nil
  · exact fun i node hnode => absurd hnode (hnone i node)
  · exact fun i node hnode => absurd hnode (hnone i node)
  · exact fun k hk => absurd hk List.not_mem_nil
  · exact le_rfl
  · exact fun ready i node _ hnode => absurd hnode (hnone i node)

end Registrations

/-! The calls. -/

section Calls

variable {wakeupPipe : ℤ} {s t u : DispatchState} {actions : List DispatchAction}

def CallsRight (s : DispatchState) : Prop := ∀ call ∈ s.calls, call.Right

/-- Every call so far was right, and none of the sets was left. -/
def AllRight (s : DispatchState) : Prop := CallsRight s ∧ s.overran = false

/-- The call that the scan makes is right unless it met something stale. -/
theorem call_right_iff {i : ℕ} {ready : FdSets} {node : FdNode ℕ} (h : Registered wakeupPipe s)
    (hphase : s.phase = .scanning i ready) (hnode : s.loop.HasActive i node)
    (hreported : ready.revents node.fd ≠ 0) :
    FdCall.Right ⟨node.cb, ready.revents node.fd, node.events, s.known, s.removed⟩ ↔
      ¬ MeetsStale wakeupPipe s .scan := by
  constructor
  · rintro ⟨hknown, -, hwithin⟩ ⟨-, i', ready', node', hphase', hnode', -, hstale⟩
    obtain ⟨rfl, rfl⟩ := DispatchPhase.scanning.inj (hphase.symm.trans hphase')
    obtain rfl := Option.some.inj (hnode.1.symm.trans hnode'.1)
    rcases hstale with hnew | ⟨-, hdropped⟩
    · exact hnew.not_gt (h.knownBefore _ hknown)
    · exact hdropped hwithin
  · intro hfresh
    have hold : node.cb < s.before := by
      by_contra hnew
      exact hfresh ⟨rfl, i, ready, node, hphase, hnode, hreported, Or.inl (not_lt.mp hnew)⟩
    refine ⟨h.known i node hnode hold, h.kept i node hnode, ?_⟩
    by_contra hdropped
    refine hfresh ⟨rfl, i, ready, node, hphase, hnode, hreported, Or.inr ⟨?_, hdropped⟩⟩
    by_contra hsame
    obtain ⟨hunmodified, hpipe⟩ := not_or.mp hsame
    exact hdropped (h.within ready i node (by rw [hphase]; rfl) hnode hold hunmodified hpipe)

theorem not_meetsStale_of_quiet {i : ℕ} {ready : FdSets} (hphase : s.phase = .scanning i ready)
    (hquiet : ∀ node, s.loop.HasActive i node → ready.revents node.fd = 0) :
    ¬ MeetsStale wakeupPipe s .scan := by
  rintro ⟨-, i', ready', node, hphase', hnode, hreported, -⟩
  obtain ⟨rfl, rfl⟩ := DispatchPhase.scanning.inj (hphase.symm.trans hphase')
  exact hreported (hquiet node hnode)

theorem scan_callsRight_iff {i : ℕ} {ready : FdSets} (h : Registered wakeupPipe s)
    (hphase : s.phase = .scanning i ready) :
    CallsRight (s.scan i ready) ↔ CallsRight s ∧ ¬ MeetsStale wakeupPipe s .scan := by
  rw [DispatchState.scan]
  split
  next hnone =>
    refine (and_iff_left (not_meetsStale_of_quiet hphase fun node hnode => ?_)).symm
    cases hnone.symm.trans hnode.1
  next node hnode =>
    split_ifs with hreported
    · rw [← call_right_iff h hphase ⟨hnode, hreported.1⟩ hreported.2, CallsRight, CallsRight]
      simp only [List.mem_append, List.mem_singleton, or_imp, forall_and, forall_eq]
    · refine (and_iff_left (not_meetsStale_of_quiet hphase fun other hother => ?_)).symm
      obtain rfl := Option.some.inj (hnode.symm.trans hother.1)
      by_contra hnonzero
      exact hreported ⟨hother.2, hnonzero⟩

theorem addFd_records (s : DispatchState) (fd : ℤ) (events : BitVec 32) (granted : Bool) :
    (s.addFd fd events granted).calls = s.calls ∧
      (s.addFd fd events granted).overran = s.overran := by
  rw [DispatchState.addFd]
  split <;> exact ⟨rfl, rfl⟩

theorem modFd_records (s : DispatchState) (fd : ℤ) (events : BitVec 32) :
    (s.modFd fd events).calls = s.calls ∧ (s.modFd fd events).overran = s.overran := by
  rw [DispatchState.modFd]
  split <;> exact ⟨rfl, rfl⟩

theorem removeFd_records (s : DispatchState) (fd : ℤ) :
    (s.removeFd fd).calls = s.calls ∧ (s.removeFd fd).overran = s.overran := by
  rw [DispatchState.removeFd]
  split <;> exact ⟨rfl, rfl⟩

/-- Between `select` and the scan nothing is recorded. -/
theorem allRight_iff_of_records {a : DispatchAction}
    (hrecords : u.calls = s.calls ∧ u.overran = s.overran) (hselect : ∀ ready, a ≠ .select ready)
    (hscan : a ≠ .scan) :
    AllRight u ↔ AllRight s ∧ ¬ (MeetsStale wakeupPipe s a ∨ LeavesSets wakeupPipe s a) := by
  rw [AllRight, CallsRight, hrecords.1, hrecords.2]
  refine (and_iff_left ?_).symm
  rintro (hstale | ⟨ready, rfl, -⟩ | ⟨rfl, -⟩)
  · exact hscan hstale.1
  · exact hselect ready rfl
  · exact hscan rfl

theorem select_allRight_iff (ready : FdSets) :
    AllRight (s.select wakeupPipe ready) ↔ AllRight s ∧
      ¬ (MeetsStale wakeupPipe s (.select ready) ∨ LeavesSets wakeupPipe s (.select ready)) := by
  have hstale : ¬ MeetsStale wakeupPipe s (.select ready) := fun h => by cases h.1
  have hsets : LeavesSets wakeupPipe s (.select ready) ↔ ¬ (s.loop.fdSets wakeupPipe).Fits := by
    simp [LeavesSets]
  rw [or_iff_right hstale, hsets, not_not]
  simp [AllRight, CallsRight, DispatchState.select, and_assoc]

theorem scan_overran_iff {i : ℕ} {ready : FdSets} (hphase : s.phase = .scanning i ready) :
    (s.scan i ready).overran = false ↔
      s.overran = false ∧ ¬ LeavesSets wakeupPipe s .scan := by
  have hsets : LeavesSets wakeupPipe s .scan ↔
      ∃ node, s.loop.HasActive i node ∧ fdSetSize ≤ node.fd := by
    simp [LeavesSets, hphase]
  rw [hsets, DispatchState.scan]
  split
  next hnone =>
    refine (and_iff_left ?_).symm
    rintro ⟨node, hnode, -⟩
    cases hnone.symm.trans hnode.1
  next node hnode =>
    have hactive : (∃ other, s.loop.HasActive i other ∧ fdSetSize ≤ other.fd) ↔
        node.active = true ∧ fdSetSize ≤ node.fd := by
      simp [FdRegistry.HasActive, hnode]
    rw [hactive]
    split_ifs <;> simp

theorem scan_allRight_iff {i : ℕ} {ready : FdSets} (h : Registered wakeupPipe s)
    (hphase : s.phase = .scanning i ready) :
    AllRight (s.scan i ready) ↔ AllRight s ∧
      ¬ (MeetsStale wakeupPipe s .scan ∨ LeavesSets wakeupPipe s .scan) := by
  rw [AllRight, AllRight, scan_callsRight_iff h hphase, scan_overran_iff hphase, not_or,
    and_and_and_comm]

theorem dispatchStep_allRight_iff {a : DispatchAction} (h : Registered wakeupPipe s)
    (hstep : dispatchStep wakeupPipe s a = some u) :
    AllRight u ↔ AllRight s ∧ ¬ (MeetsStale wakeupPipe s a ∨ LeavesSets wakeupPipe s a) := by
  cases dispatchStep_moves hstep with
  | addFd fd events granted =>
    exact allRight_iff_of_records (addFd_records s fd events granted) (by simp) (by simp)
  | modFd fd events =>
    exact allRight_iff_of_records (modFd_records s fd events) (by simp) (by simp)
  | removeFd fd => exact allRight_iff_of_records (removeFd_records s fd) (by simp) (by simp)
  | select hready => exact select_allRight_iff _
  | scan hphase => exact scan_allRight_iff h hphase
  | callbackReturns hphase => exact allRight_iff_of_records ⟨rfl, rfl⟩ (by simp) (by simp)

end Calls

/-- Two descriptors are readable; the callback of the first one removes the second. -/
def secondRemoved : List DispatchAction :=
  [.addFd 5 1 true, .addFd 6 1 true, .select ⟨[5, 6], [], []⟩, .scan, .removeFd 6,
    .callbackReturns, .scan, .scan]

/-- Two descriptors are readable; the callback of the first one removes the second and registers
the same number again. -/
def secondReplaced : List DispatchAction :=
  [.addFd 5 1 true, .addFd 6 1 true, .select ⟨[5, 6], [], []⟩, .scan, .removeFd 6,
    .addFd 6 1 true, .callbackReturns, .scan]

end AbstractHttp.EventLoop
