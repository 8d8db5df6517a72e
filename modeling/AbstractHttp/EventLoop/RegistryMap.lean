import AbstractHttp.EventLoop.Descriptors
import AbstractHttp.Library.History

/-!
# The descriptor registry as a map

Slots become inactive and are taken again out of order, and the array grows, but
the active slots are always the graph of a partial map from descriptors to events
and callback.
-/
namespace AbstractHttp.EventLoop
open Library

variable {β : Type*}

/-- A call on the registry; with an addition comes whether `realloc` succeeds. -/
inductive RegistryCall (β : Type*) where
  | add (fd : ℤ) (events : BitVec 32) (cb : β) (granted : Bool)
  | mod (fd : ℤ) (events : BitVec 32)
  | remove (fd : ℤ)

/-- A call that fails has written nothing. -/
def settle (loop : FdRegistry β) :
    Except ErrorCode (FdRegistry β) → FdRegistry β × Option ErrorCode
  | .ok loop' => (loop', none)
  | .error e => (loop, some e)

/-- One call, with the code that it returns. -/
def registryStep (loop : FdRegistry β) :
    RegistryCall β → Option (FdRegistry β × Option ErrorCode)
  | .add fd events cb granted => some (settle loop (addFd loop fd events cb granted))
  | .mod fd events => some (settle loop (modFd loop fd events))
  | .remove fd => some (settle loop (removeFd loop fd))

/-- Which descriptors are watched, for which events and with which callback. -/
abbrev FdMap (β : Type*) := ℤ → Option (BitVec 32 × β)

/-- The registry as a map. An addition maps a descriptor that was not mapped, a change sets the
events of a mapped one, a removal takes one mapping away, and a call that fails does nothing. -/
def RegistrySpec (m : FdMap β) : RegistryCall β → Option ErrorCode → FdMap β → Prop
  | .add fd events cb granted, rc, m' =>
    (rc = none ∧ m fd = none ∧ m' = Function.update m fd (some (events, cb))) ∨
      ((rc = some .inval ∧ fd < 0 ∨ rc = some .exist ∧ (m fd).isSome ∨
        rc = some .nomem ∧ granted = false) ∧ m' = m)
  | .mod fd events, rc, m' =>
    (∃ old cb, rc = none ∧ m fd = some (old, cb) ∧
      m' = Function.update m fd (some (events, cb))) ∨
      (rc = some .inval ∧ m fd = none ∧ m' = m)
  | .remove fd, rc, m' =>
    (rc = none ∧ (m fd).isSome ∧ m' = Function.update m fd none) ∨
      (rc = some .inval ∧ m fd = none ∧ m' = m)

/-- The active slots are the graph of the map, one slot for each descriptor that it maps, and the
array has room for all slots. -/
structure FdRegistry.IsGraph (loop : FdRegistry β) (m : FdMap β) : Prop where
  graph : ∀ fd events cb, m fd = some (events, cb) ↔ ∃ i, loop.HasActive i ⟨fd, events, cb, true⟩
  unique : ∀ i j node node', loop.HasActive i node → loop.HasActive j node' →
    node.fd = node'.fd → i = j
  nonneg : ∀ i node, loop.HasActive i node → 0 ≤ node.fd
  room : loop.fds.size ≤ loop.fdCapacity
  capacity : 0 < loop.fdCapacity

section Calls

variable {loop loop' : FdRegistry β} {m : FdMap β} {fd : ℤ} {i : ℕ} {node old : FdNode β}

/-- An active slot holds what the map says of its descriptor. -/
theorem FdRegistry.IsGraph.apply (h : loop.IsGraph m) (hnode : loop.HasActive i node) :
    m node.fd = some (node.events, node.cb) := by
  rw [h.graph]
  obtain ⟨fd, events, cb, active⟩ := node
  obtain rfl : active = true := hnode.2
  exact ⟨i, hnode⟩

/-- A descriptor without an active slot is not mapped. -/
theorem FdRegistry.IsGraph.apply_eq_none (h : loop.IsGraph m)
    (hfree : ∀ i node, loop.HasActive i node → node.fd ≠ fd) : m fd = none := by
  cases hfd : m fd with
  | none => rfl
  | some x =>
    obtain ⟨i, hactive⟩ := (h.graph fd x.1 x.2).mp hfd
    exact absurd rfl (hfree i _ hactive)

theorem FdRegistry.isGraph_init : (FdRegistry.init : FdRegistry β).IsGraph fun _ => none where
  graph fd events cb := by simp [FdRegistry.init, FdRegistry.HasActive]
  unique i j node node' hi := by simp [FdRegistry.init, FdRegistry.HasActive] at hi
  nonneg i node hi := by simp [FdRegistry.init, FdRegistry.HasActive] at hi
  room := by simp [FdRegistry.init]
  capacity := by simp [FdRegistry.init]

/-- Writing a slot that belongs to no other descriptor, and that is the only one of its own, is an
update of the map there. -/
theorem FdRegistry.IsGraph.writes (h : loop.IsGraph m) (hwrite : loop.Writes loop' i node)
    (hslot : ∀ old, loop.HasActive i old → old.fd = node.fd)
    (hother : ∀ j old, loop.HasActive j old → old.fd = node.fd → j = i) (hnonneg : 0 ≤ node.fd)
    (hroom : loop'.fds.size ≤ loop'.fdCapacity) (hcapacity : 0 < loop'.fdCapacity) :
    loop'.IsGraph (Function.update m node.fd
      (if node.active then some (node.events, node.cb) else none)) := by
  have hnow : loop'.fds[i]? = some node := (hwrite i).trans (if_pos rfl)
  have hkept {j : ℕ} (hj : j ≠ i) : loop'.fds[j]? = loop.fds[j]? := (hwrite j).trans (if_neg hj)
  refine ⟨fun fd events cb => ?_, fun j k a b ha hb hfd => ?_, fun j a ha => ?_, hroom, hcapacity⟩
  · by_cases hfd : fd = node.fd
    · subst hfd
      rw [Function.update_self]
      constructor
      · intro hsome
        obtain ⟨hactive, heq⟩ := (Option.ite_none_right_eq_some.mp hsome)
        obtain ⟨rfl, rfl⟩ := Prod.mk.inj (Option.some.inj heq)
        exact ⟨i, by rw [hnow, ← hactive], rfl⟩
      · rintro ⟨j, hj⟩
        rcases hwrite.hasActive hj with ⟨-, hsame, hactive⟩ | ⟨hne, hold⟩
        · rw [if_pos hactive, ← hsame]
        · exact absurd (hother j _ hold rfl) hne
    · rw [Function.update_of_ne hfd, h.graph]
      constructor
      · rintro ⟨j, hj⟩
        have hne : j ≠ i := by
          rintro rfl
          exact hfd (hslot _ hj)
        exact ⟨j, (hkept hne).trans hj.1, rfl⟩
      · rintro ⟨j, hj⟩
        rcases hwrite.hasActive hj with ⟨-, hsame, -⟩ | ⟨-, hold⟩
        · exact absurd (congrArg FdNode.fd hsame) hfd
        · exact ⟨j, hold⟩
  · rcases hwrite.hasActive ha with ⟨rfl, rfl, -⟩ | ⟨hja, holda⟩
    · rcases hwrite.hasActive hb with ⟨rfl, -, -⟩ | ⟨-, holdb⟩
      · rfl
      · exact (hother k b holdb hfd.symm).symm
    · rcases hwrite.hasActive hb with ⟨rfl, rfl, -⟩ | ⟨-, holdb⟩
      · exact hother j a holda hfd
      · exact h.unique j k a b holda holdb hfd
  · rcases hwrite.hasActive ha with ⟨-, rfl, -⟩ | ⟨-, hold⟩
    · exact hnonneg
    · exact h.nonneg j a hold

/-- A slot found or made leaves the array within its capacity. -/
theorem place_room {granted : Bool} (hplace : loop.place node granted = .ok loop')
    (hroom : loop.fds.size ≤ loop.fdCapacity) (hcapacity : 0 < loop.fdCapacity) :
    loop'.fds.size ≤ loop'.fdCapacity ∧ 0 < loop'.fdCapacity := by
  rw [FdRegistry.place] at hplace
  split at hplace
  next =>
    obtain rfl := Except.ok.inj hplace
    simpa using ⟨hroom, hcapacity⟩
  next =>
    split_ifs at hplace with hfull hgranted
    · obtain rfl := Except.ok.inj hplace
      simp only [Array.size_push]
      omega
    · obtain rfl := Except.ok.inj hplace
      simp only [Array.size_push]
      omega

/-- Only memory can be missing for a new slot. -/
theorem place_error {granted : Bool} {e : ErrorCode} (h : loop.place node granted = .error e) :
    e = .nomem ∧ granted = false := by
  rw [FdRegistry.place] at h
  split at h
  next => contradiction
  next =>
    split_ifs at h with hfull hgranted
    exact ⟨(Except.error.inj h).symm, by simpa using hgranted⟩

theorem FdRegistry.IsGraph.addFd (h : loop.IsGraph m) (fd : ℤ) (events : BitVec 32) (cb : β)
    (granted : Bool) : ∃ m',
      RegistrySpec m (.add fd events cb granted)
        (settle loop (EventLoop.addFd loop fd events cb granted)).2 m' ∧
      (settle loop (EventLoop.addFd loop fd events cb granted)).1.IsGraph m' := by
  cases hcall : EventLoop.addFd loop fd events cb granted with
  | ok loop' =>
    obtain ⟨hfree, i, hwrite, hslot⟩ := addFd_ok hcall
    rw [EventLoop.addFd] at hcall
    split_ifs at hcall with hneg hfound
    obtain ⟨hroom, hcapacity⟩ := place_room hcall h.room h.capacity
    refine ⟨_, Or.inl ⟨rfl, h.apply_eq_none hfree, rfl⟩, ?_⟩
    exact h.writes hwrite (fun old hold => absurd hold (hslot old))
      (fun j old hold hfd => absurd hfd (hfree j old hold)) (not_lt.mp hneg) hroom hcapacity
  | error e =>
    refine ⟨m, Or.inr ⟨?_, rfl⟩, h⟩
    rw [EventLoop.addFd] at hcall
    split_ifs at hcall with hneg hfound
    · exact Or.inl ⟨congrArg some (Except.error.inj hcall).symm, hneg⟩
    · obtain ⟨i, hi⟩ := Option.isSome_iff_exists.mp hfound
      obtain ⟨node, hnode, rfl⟩ := slotOf?_some hi
      refine Or.inr (Or.inl ⟨congrArg some (Except.error.inj hcall).symm, ?_⟩)
      rw [h.apply hnode]
      rfl
    · obtain ⟨rfl, hgranted⟩ := place_error hcall
      exact Or.inr (Or.inr ⟨rfl, hgranted⟩)

/-- `http_loop_mod_fd` and `http_loop_remove_fd` but for what they write. -/
def modifySlot (loop : FdRegistry β) (fd : ℤ) (f : FdNode β → FdNode β) :
    Except ErrorCode (FdRegistry β) :=
  if fd < 0 then .error .inval
  else
    match loop.slotOf? fd with
    | some i => .ok { loop with fds := loop.fds.modify i f }
    | none => .error .inval

theorem modFd_eq (loop : FdRegistry β) (fd : ℤ) (events : BitVec 32) :
    modFd loop fd events = modifySlot loop fd ({ · with events := events }) := rfl

theorem removeFd_eq (loop : FdRegistry β) (fd : ℤ) :
    removeFd loop fd = modifySlot loop fd ({ · with active := false }) := rfl

/-- A mapped descriptor's slot is written, and any other descriptor is refused. -/
theorem FdRegistry.IsGraph.modifySlot (h : loop.IsGraph m) {f : FdNode β → FdNode β}
    (hf : ∀ node, (f node).fd = node.fd) (fd : ℤ) :
    (∃ loop' node, EventLoop.modifySlot loop fd f = .ok loop' ∧
        m fd = some (node.events, node.cb) ∧ node.active = true ∧
        loop'.IsGraph (Function.update m fd
          (if (f node).active then some ((f node).events, (f node).cb) else none))) ∨
      EventLoop.modifySlot loop fd f = .error .inval ∧ m fd = none := by
  rw [EventLoop.modifySlot]
  by_cases hneg : fd < 0
  · refine Or.inr ⟨if_pos hneg, h.apply_eq_none fun i node hnode hfd => ?_⟩
    have hnonneg := h.nonneg i node hnode
    omega
  · rw [if_neg hneg]
    cases hslot : loop.slotOf? fd with
    | none => exact Or.inr ⟨rfl, h.apply_eq_none fun i node => slotOf?_none hslot⟩
    | some i =>
      obtain ⟨node, hnode, rfl⟩ := slotOf?_some hslot
      have hsame := hf node
      refine Or.inl ⟨_, node, rfl, h.apply hnode, hnode.2, ?_⟩
      rw [← hsame]
      refine h.writes (writes_modify hnode.1) (fun old hold => ?_) (fun j old hold hfd => ?_)
        ?_ ?_ ?_
      · rw [hsame, Option.some.inj (hold.1.symm.trans hnode.1)]
      · exact h.unique j i old node hold hnode (hfd.trans hsame)
      · rw [hsame]
        exact h.nonneg i node hnode
      · simpa using h.room
      · exact h.capacity

end Calls

/-- Every call is one of the specification. -/
theorem registryStep_spec (loop : FdRegistry β) (m : FdMap β) (call : RegistryCall β)
    (h : loop.IsGraph m) : ∃ loop' rc m',
      registryStep loop call = some (loop', rc) ∧ RegistrySpec m call rc m' ∧
        loop'.IsGraph m' := by
  cases call with
  | add fd events cb granted =>
    obtain ⟨m', hspec, hgraph⟩ := h.addFd fd events cb granted
    exact ⟨_, _, m', rfl, hspec, hgraph⟩
  | mod fd events =>
    rcases h.modifySlot (f := ({ · with events := events })) (fun _ => rfl) fd with
      ⟨loop', node, hcall, hmapped, hactive, hgraph⟩ | ⟨hcall, hfree⟩
    · rw [if_pos hactive] at hgraph
      refine ⟨loop', none, _, ?_, Or.inl ⟨node.events, node.cb, rfl, hmapped, rfl⟩, hgraph⟩
      rw [registryStep, modFd_eq, hcall, settle]
    · refine ⟨loop, some .inval, m, ?_, Or.inr ⟨rfl, hfree, rfl⟩, h⟩
      rw [registryStep, modFd_eq, hcall, settle]
  | remove fd =>
    rcases h.modifySlot (f := ({ · with active := false })) (fun _ => rfl) fd with
      ⟨loop', node, hcall, hmapped, -, hgraph⟩ | ⟨hcall, hfree⟩
    · rw [if_neg Bool.false_ne_true] at hgraph
      refine ⟨loop', none, _, ?_, Or.inl ⟨rfl, by rw [hmapped]; rfl, rfl⟩, hgraph⟩
      rw [registryStep, removeFd_eq, hcall, settle]
    · refine ⟨loop, some .inval, m, ?_, Or.inr ⟨rfl, hfree, rfl⟩, h⟩
      rw [registryStep, removeFd_eq, hcall, settle]

/-- Whatever calls are made and wherever `realloc` fails, the active slots are the graph of the map
that the specification arrives at with the same codes: each mapped descriptor has one active slot
with its events and callback, and the slots are within the array's capacity. -/
theorem registry_refines_map (calls : List (RegistryCall β)) :
    ∃ answers loop m,
      history registryStep (FdRegistry.init : FdRegistry β) calls = some (answers, loop) ∧
        Explains RegistrySpec (fun _ => none) answers m ∧
        (∀ fd events cb,
          m fd = some (events, cb) ↔ ∃ i, loop.HasActive i ⟨fd, events, cb, true⟩) ∧
        (∀ i j node node', loop.HasActive i node → loop.HasActive j node' →
          node.fd = node'.fd → i = j) ∧
        loop.fds.size ≤ loop.fdCapacity := by
  obtain ⟨answers, loop, m, hrun, hexplains, hgraph⟩ :=
    exists_history_explains registryStep_spec FdRegistry.isGraph_init calls
  exact ⟨answers, loop, m, hrun, hexplains, hgraph.graph, hgraph.unique, hgraph.room⟩

end AbstractHttp.EventLoop
