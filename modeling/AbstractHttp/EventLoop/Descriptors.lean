import AbstractHttp.ErrorCode

/-!
# The descriptors of the event loop

`event_loop.c` keeps them in an array of slots. A removed descriptor leaves its slot inactive,
and the first inactive slot takes the next one that is added. What `select` is asked for and
what it reports are sets of descriptors, one for each kind of event.
-/
namespace AbstractHttp.EventLoop

variable {β : Type*}

/-- `struct FdNode`; `cb` stands for the callback with its `user_data`. -/
structure FdNode (β : Type*) where
  fd : ℤ
  events : BitVec 32
  cb : β
  active : Bool
  deriving DecidableEq, Repr

/-- `HTTP_LOOP_READ`. -/
def loopRead : BitVec 32 := 1

/-- `HTTP_LOOP_WRITE`. -/
def loopWrite : BitVec 32 := 2

/-- `HTTP_LOOP_ERROR`. -/
def loopError : BitVec 32 := 4

/-- `struct ModalityEventLoop` as far as its descriptors go; `fd_count` is the size of `fds`. -/
structure FdRegistry (β : Type*) where
  fds : Array (FdNode β)
  fdCapacity : ℕ
  deriving DecidableEq

/-- `http_loop_init`. -/
def FdRegistry.init : FdRegistry β := ⟨#[], 16⟩

/-- The slot that `http_loop_mod_fd` and `http_loop_remove_fd` look for. -/
def FdRegistry.slotOf? (loop : FdRegistry β) (fd : ℤ) : Option ℕ :=
  loop.fds.findIdx? fun node => node.active ∧ node.fd = fd

/-- "Find empty slot or expand"; `granted` is whether `realloc` succeeds. -/
def FdRegistry.place (loop : FdRegistry β) (node : FdNode β) (granted : Bool) :
    Except ErrorCode (FdRegistry β) :=
  match loop.fds.findIdx? fun node => ¬ node.active with
  | some i => .ok { loop with fds := loop.fds.setIfInBounds i node }
  | none =>
    if loop.fds.size ≥ loop.fdCapacity then
      if granted then .ok ⟨loop.fds.push node, loop.fdCapacity * 2⟩ else .error .nomem
    else .ok { loop with fds := loop.fds.push node }

/-- `http_loop_add_fd`. -/
def addFd (loop : FdRegistry β) (fd : ℤ) (events : BitVec 32) (cb : β) (granted : Bool) :
    Except ErrorCode (FdRegistry β) :=
  if fd < 0 then .error .inval
  else if (loop.slotOf? fd).isSome then .error .exist
  else loop.place ⟨fd, events, cb, true⟩ granted

/-- `http_loop_mod_fd`. -/
def modFd (loop : FdRegistry β) (fd : ℤ) (events : BitVec 32) : Except ErrorCode (FdRegistry β) :=
  if fd < 0 then .error .inval
  else
    match loop.slotOf? fd with
    | some i => .ok { loop with fds := loop.fds.modify i ({ · with events := events }) }
    | none => .error .inval

/-- `http_loop_remove_fd`. -/
def removeFd (loop : FdRegistry β) (fd : ℤ) : Except ErrorCode (FdRegistry β) :=
  if fd < 0 then .error .inval
  else
    match loop.slotOf? fd with
    | some i => .ok { loop with fds := loop.fds.modify i ({ · with active := false }) }
    | none => .error .inval

/-- The three sets of descriptors that `select` reads and writes. -/
structure FdSets where
  read : List ℤ
  write : List ℤ
  error : List ℤ
  deriving DecidableEq, Repr

/-- The descriptors that are watched for an event. -/
def FdRegistry.watched (loop : FdRegistry β) (event : BitVec 32) : List ℤ :=
  (loop.fds.toList.filter fun node => node.active ∧ node.events &&& event ≠ 0).map FdNode.fd

/-- "Setup wakeup pipe" and "Setup sockets". -/
def FdRegistry.fdSets (loop : FdRegistry β) (wakeupPipe : ℤ) : FdSets where
  read := wakeupPipe :: loop.watched loopRead
  write := loop.watched loopWrite
  error := loop.watched loopError

/-- `FD_SETSIZE`. -/
def fdSetSize : ℤ := 1024

/-- The bits of all descriptors lie inside of the sets, which `FD_SET` does not check. -/
def FdSets.Fits (sets : FdSets) : Prop :=
  ∀ fd ∈ sets.read ++ sets.write ++ sets.error, fd < fdSetSize

instance (sets : FdSets) : Decidable sets.Fits := inferInstanceAs (Decidable (∀ _ ∈ _, _))

/-- `select` leaves a descriptor in a set, or takes it out. -/
def FdSets.Within (ready asked : FdSets) : Prop :=
  ready.read ⊆ asked.read ∧ ready.write ⊆ asked.write ∧ ready.error ⊆ asked.error

instance (ready asked : FdSets) : Decidable (ready.Within asked) :=
  inferInstanceAs (Decidable (_ ∧ _ ∧ _))

/-- The mask that a callback is given. -/
def FdSets.revents (ready : FdSets) (fd : ℤ) : BitVec 32 :=
  (if fd ∈ ready.read then loopRead else 0) ||| (if fd ∈ ready.write then loopWrite else 0) |||
    (if fd ∈ ready.error then loopError else 0)

/-- A mask asks for no more than another. -/
def MaskWithin (mask events : BitVec 32) : Prop := mask &&& events = mask

instance (mask events : BitVec 32) : Decidable (MaskWithin mask events) :=
  inferInstanceAs (Decidable (_ = _))

section Masks

variable {mask mask' events : BitVec 32}

theorem MaskWithin.or (h : MaskWithin mask events) (h' : MaskWithin mask' events) :
    MaskWithin (mask ||| mask') events := by
  rw [MaskWithin, BitVec.and_comm, BitVec.and_or_distrib_left]
  rw [MaskWithin, BitVec.and_comm] at h h'
  rw [h, h']

theorem maskWithin_ite {p : Prop} [Decidable p] (h : p → MaskWithin mask events) :
    MaskWithin (if p then mask else 0) events := by
  split_ifs with hp
  · exact h hp
  · exact BitVec.zero_and

/-- One bit of a mask is set, or it is not. -/
theorem maskWithin_twoPow (i : ℕ) (h : events &&& BitVec.twoPow 32 i ≠ 0) :
    MaskWithin (BitVec.twoPow 32 i) events := by
  rw [MaskWithin, BitVec.and_comm, BitVec.and_twoPow]
  rw [BitVec.and_twoPow] at h
  split_ifs at h ⊢ with hbit
  · rfl
  · exact absurd rfl h

end Masks

section Slots

variable {loop loop' : FdRegistry β} {fd : ℤ} {events : BitVec 32} {node : FdNode β} {i : ℕ}

/-- An active slot. -/
def FdRegistry.HasActive (loop : FdRegistry β) (i : ℕ) (node : FdNode β) : Prop :=
  loop.fds[i]? = some node ∧ node.active = true

/-- One slot is written and the others stay as they are. -/
def FdRegistry.Writes (loop loop' : FdRegistry β) (i : ℕ) (node : FdNode β) : Prop :=
  ∀ j, loop'.fds[j]? = if j = i then some node else loop.fds[j]?

theorem slotOf?_some (h : loop.slotOf? fd = some i) :
    ∃ node, loop.HasActive i node ∧ node.fd = fd := by
  obtain ⟨hsize, hfound, -⟩ := Array.findIdx?_eq_some_iff_getElem.mp h
  obtain ⟨hactive, hfd⟩ := of_decide_eq_true hfound
  exact ⟨loop.fds[i], ⟨Array.getElem?_eq_getElem hsize, hactive⟩, hfd⟩

theorem slotOf?_none (h : loop.slotOf? fd = none) (hnode : loop.HasActive i node) :
    node.fd ≠ fd := by
  intro hfd
  have hother := Array.findIdx?_eq_none_iff.mp h node (Array.mem_of_getElem? hnode.1)
  exact of_decide_eq_false hother ⟨hnode.2, hfd⟩

theorem place_ok {granted : Bool} (h : loop.place node granted = .ok loop') :
    ∃ i, loop.Writes loop' i node ∧ ∀ old, ¬ loop.HasActive i old := by
  rw [FdRegistry.place] at h
  split at h
  next i hi =>
    obtain rfl := Except.ok.inj h
    obtain ⟨hsize, hfree, -⟩ := Array.findIdx?_eq_some_iff_getElem.mp hi
    refine ⟨i, fun j => ?_, fun old hold => ?_⟩
    · rw [Array.getElem?_setIfInBounds, if_pos hsize]
      exact if_congr eq_comm rfl rfl
    · obtain ⟨_, rfl⟩ := Array.getElem?_eq_some_iff.mp hold.1
      exact of_decide_eq_true hfree hold.2
  next =>
    have hpush : loop'.fds = loop.fds.push node := by
      split_ifs at h with hfull hgranted
      · obtain rfl := Except.ok.inj h
        rfl
      · obtain rfl := Except.ok.inj h
        rfl
    refine ⟨loop.fds.size, fun j => ?_, fun old hold => ?_⟩
    · rw [hpush, Array.getElem?_push]
    · rw [FdRegistry.HasActive, Array.getElem?_eq_none le_rfl] at hold
      cases hold.1

theorem addFd_ok {cb : β} {granted : Bool} (h : addFd loop fd events cb granted = .ok loop') :
    (∀ i node, loop.HasActive i node → node.fd ≠ fd) ∧
      ∃ i, loop.Writes loop' i ⟨fd, events, cb, true⟩ ∧ ∀ old, ¬ loop.HasActive i old := by
  rw [addFd] at h
  split_ifs at h with hneg hfound
  exact ⟨fun i node => slotOf?_none (Option.not_isSome_iff_eq_none.mp hfound), place_ok h⟩

theorem writes_modify {capacity : ℕ} {f : FdNode β → FdNode β} (h : loop.fds[i]? = some node) :
    loop.Writes ⟨loop.fds.modify i f, capacity⟩ i (f node) := by
  intro j
  rw [Array.getElem?_modify]
  split_ifs with hji hij hij
  · rw [← hji, h]
    rfl
  · exact absurd hji.symm hij
  · exact absurd hij.symm hji
  · rfl

/-- What `http_loop_mod_fd` and `http_loop_remove_fd` share: they write the descriptor's slot. -/
theorem modifySlot_ok {f : FdNode β → FdNode β} {e : ErrorCode}
    (h : (match loop.slotOf? fd with
      | some i => Except.ok { loop with fds := loop.fds.modify i f }
      | none => .error e) = .ok loop') :
    ∃ i node, loop.HasActive i node ∧ node.fd = fd ∧ loop.Writes loop' i (f node) := by
  split at h
  next i hi =>
    obtain ⟨node, hnode, hfd⟩ := slotOf?_some hi
    obtain rfl := Except.ok.inj h
    exact ⟨i, node, hnode, hfd, writes_modify hnode.1⟩
  next => cases h

theorem modFd_ok (h : modFd loop fd events = .ok loop') :
    ∃ i node, loop.HasActive i node ∧ node.fd = fd ∧
      loop.Writes loop' i { node with events := events } := by
  rw [modFd] at h
  split_ifs at h with hneg
  exact modifySlot_ok h

theorem removeFd_ok (h : removeFd loop fd = .ok loop') :
    ∃ i node, loop.HasActive i node ∧ node.fd = fd ∧
      loop.Writes loop' i { node with active := false } := by
  rw [removeFd] at h
  split_ifs at h with hneg
  exact modifySlot_ok h

/-- An active slot after a write is the one written, or it was there before. -/
theorem FdRegistry.Writes.hasActive {written : FdNode β} {j : ℕ}
    (h : loop.Writes loop' i written) (hnode : loop'.HasActive j node) :
    j = i ∧ node = written ∧ written.active = true ∨ j ≠ i ∧ loop.HasActive j node := by
  obtain ⟨hget, hactive⟩ := hnode
  rw [h j] at hget
  split_ifs at hget with hji
  · obtain rfl := Option.some.inj hget
    exact Or.inl ⟨hji, rfl, hactive⟩
  · exact Or.inr ⟨hji, hget, hactive⟩

end Slots

section Sets

variable {loop : FdRegistry β} {ready : FdSets} {wakeupPipe fd : ℤ} {event : BitVec 32}

theorem mem_slots {node : FdNode β} :
    node ∈ loop.fds.toList ↔ ∃ i : ℕ, loop.fds[i]? = some node := by
  simp only [List.mem_iff_getElem?, Array.getElem?_toList]

theorem mem_watched :
    fd ∈ loop.watched event ↔
      ∃ i node, loop.HasActive i node ∧ node.fd = fd ∧ node.events &&& event ≠ 0 := by
  rw [FdRegistry.watched, List.mem_map]
  constructor
  · rintro ⟨node, hmem, hfd⟩
    obtain ⟨hmem, hasks⟩ := List.mem_filter.mp hmem
    obtain ⟨hactive, hevents⟩ := of_decide_eq_true hasks
    obtain ⟨i, hi⟩ := mem_slots.mp hmem
    exact ⟨i, node, ⟨hi, hactive⟩, hfd, hevents⟩
  · rintro ⟨i, node, ⟨hi, hactive⟩, hfd, hevents⟩
    have hmem : node ∈ loop.fds.toList := mem_slots.mpr ⟨i, hi⟩
    exact ⟨node, List.mem_filter.mpr ⟨hmem, decide_eq_true ⟨hactive, hevents⟩⟩, hfd⟩

/-- Where a descriptor belongs to one node only, `select` reports no more of it than that node
asks for. -/
theorem revents_within {node : FdNode β} (hready : ready.Within (loop.fdSets wakeupPipe))
    (hpipe : node.fd ≠ wakeupPipe)
    (honly : ∀ i other, loop.HasActive i other → other.fd = node.fd → other = node) :
    MaskWithin (ready.revents node.fd) node.events := by
  have hasked : ∀ bit, node.fd ∈ loop.watched (BitVec.twoPow 32 bit) →
      MaskWithin (BitVec.twoPow 32 bit) node.events := by
    intro bit hmem
    obtain ⟨i, other, hother, hfd, hevents⟩ := mem_watched.mp hmem
    obtain rfl := honly i other hother hfd
    exact maskWithin_twoPow bit hevents
  refine (MaskWithin.or (maskWithin_ite fun hmem => ?_) (maskWithin_ite fun hmem => ?_)).or
    (maskWithin_ite fun hmem => ?_)
  · exact hasked 0 ((List.mem_cons.mp (hready.1 hmem)).resolve_left hpipe)
  · exact hasked 1 (hready.2.1 hmem)
  · exact hasked 2 (hready.2.2 hmem)

end Sets

end AbstractHttp.EventLoop
