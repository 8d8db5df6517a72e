import Mathlib.Tactic

/-!
# Queues of linked nodes

A queue keeps the addresses of its first and of its last node, and each node that of the next
one. A node that is taken from the queue stays allocated until it is freed.
-/
namespace AbstractHttp.Library

variable {α : Type*}

/-- A value with the link to the next node. -/
structure QueueNode (α : Type*) where
  value : α
  next : Option ℕ

/-- The allocated nodes by address, and the ends of the queue; `none` is the null link. -/
structure LinkedQueue (α : Type*) where
  nodes : ℕ → Option (QueueNode α)
  head : Option ℕ
  tail : Option ℕ

namespace LinkedQueue

/-- Nothing is allocated. -/
def empty : LinkedQueue α := ⟨fun _ => none, none, none⟩

/-- A new node at `addr` becomes the last one. -/
def append (q : LinkedQueue α) (addr : ℕ) (value : α) : LinkedQueue α :=
  let nodes := Function.update q.nodes addr (some ⟨value, none⟩)
  match q.head, q.tail with
  | none, _ => ⟨nodes, some addr, some addr⟩
  | some _, none => ⟨nodes, q.head, some addr⟩
  | some _, some last =>
    ⟨Function.update nodes last ((nodes last).map ({ · with next := some addr })), q.head, some addr⟩

/-- The first node is unlinked. -/
def unlink (q : LinkedQueue α) : Option (ℕ × α × LinkedQueue α) :=
  q.head.bind fun addr => (q.nodes addr).map fun node =>
    (addr, node.value, ⟨q.nodes, node.next, if node.next = none then none else q.tail⟩)

/-- A node is given back. -/
def free (q : LinkedQueue α) (addr : ℕ) : LinkedQueue α :=
  { q with nodes := Function.update q.nodes addr none }

end LinkedQueue

/-- A new node is there. -/
theorem LinkedQueue.append_isSome (q : LinkedQueue α) (addr : ℕ) (value : α) :
    ((q.append addr value).nodes addr).isSome := by
  rw [append]
  split
  · simp
  · simp
  next last _ _ =>
    by_cases hlast : addr = last
    · subst hlast
      simp
    · simp [Function.update_of_ne hlast]

/-- The nodes from a link on, to the null link, hold these values at these addresses. -/
def Chain (nodes : ℕ → Option (QueueNode α)) : Option ℕ → List (ℕ × α) → Prop
  | first, [] => first = none
  | first, (addr, value) :: rest =>
    first = some addr ∧ ∃ next, nodes addr = some ⟨value, next⟩ ∧ Chain nodes next rest

section Chains

variable {nodes nodes' : ℕ → Option (QueueNode α)} {first : Option ℕ} {cells : List (ℕ × α)}
  {addr last : ℕ} {v : α}

theorem Chain.congr (h : Chain nodes first cells)
    (hsame : ∀ cell ∈ cells, nodes' cell.1 = nodes cell.1) : Chain nodes' first cells := by
  induction cells generalizing first with
  | nil => exact h
  | cons cell rest ih =>
    obtain ⟨hfirst, next, hnode, hrest⟩ := h
    refine ⟨hfirst, next, (hsame cell List.mem_cons_self).trans hnode, ih hrest fun other hother => ?_⟩
    exact hsame other (List.mem_cons_of_mem _ hother)

theorem Chain.allocated (h : Chain nodes first cells) {cell : ℕ × α} (hcell : cell ∈ cells) :
    ∃ next, nodes cell.1 = some ⟨cell.2, next⟩ := by
  induction cells generalizing first with
  | nil => cases hcell
  | cons head rest ih =>
    obtain ⟨-, next, hnode, hrest⟩ := h
    rcases List.mem_cons.mp hcell with rfl | hcell
    · exact ⟨next, hnode⟩
    · exact ih hrest hcell

/-- A new node is linked behind the last one. -/
theorem Chain.link (value : α) (h : Chain nodes first (cells ++ [(last, v)]))
    (hdistinct : ((cells ++ [(last, v)]).map Prod.fst).Nodup) (hfresh : nodes addr = none) :
    Chain (Function.update (Function.update nodes addr (some ⟨value, none⟩)) last
      (some ⟨v, some addr⟩)) first (cells ++ [(last, v), (addr, value)]) := by
  induction cells generalizing first with
  | nil =>
    obtain ⟨hfirst, next, hnode, -⟩ := h
    have hne : addr ≠ last := by
      rintro rfl
      cases hfresh.symm.trans hnode
    refine ⟨hfirst, some addr, Function.update_self .., rfl, none, ?_, rfl⟩
    rw [Function.update_of_ne hne, Function.update_self]
  | cons cell rest ih =>
    obtain ⟨hfirst, next, hnode, hrest⟩ := h
    obtain ⟨hother, hdistinct⟩ := List.nodup_cons.mp hdistinct
    have hne : cell.1 ≠ last := by
      rintro rfl
      exact hother (by simp)
    have hold : cell.1 ≠ addr := by
      rintro rfl
      cases hfresh.symm.trans hnode
    refine ⟨hfirst, next, ?_, ih hrest hdistinct⟩
    rw [Function.update_of_ne hne, Function.update_of_ne hold, hnode]

end Chains

/-- The queue is linked as it should be, and holds these cells. -/
structure Queued (q : LinkedQueue α) (cells : List (ℕ × α)) : Prop where
  chain : Chain q.nodes q.head cells
  tail : q.tail = cells.getLast?.map Prod.fst
  distinct : (cells.map Prod.fst).Nodup

namespace Queued

variable {q : LinkedQueue α} {cells : List (ℕ × α)} {addr : ℕ} {value : α}

theorem empty : Queued (LinkedQueue.empty : LinkedQueue α) [] := ⟨rfl, rfl, List.nodup_nil⟩

theorem append (value : α) (h : Queued q cells) (hfresh : q.nodes addr = none) :
    Queued (q.append addr value) (cells ++ [(addr, value)]) := by
  have hnew : addr ∉ cells.map Prod.fst := by
    intro hmem
    obtain ⟨cell, hcell, rfl⟩ := List.mem_map.mp hmem
    obtain ⟨next, hnode⟩ := h.chain.allocated hcell
    cases hfresh.symm.trans hnode
  have hdistinct : ((cells ++ [(addr, value)]).map Prod.fst).Nodup := by
    rw [List.map_append]
    exact List.Nodup.append h.distinct (List.nodup_singleton _) (by simpa using hnew)
  rcases List.eq_nil_or_concat cells with rfl | ⟨front, ⟨last, v⟩, rfl⟩
  · have hhead : q.head = none := h.chain
    rw [LinkedQueue.append, hhead]
    exact ⟨⟨rfl, none, Function.update_self .., rfl⟩, rfl, hdistinct⟩
  · rw [List.concat_eq_append] at h hdistinct ⊢
    have htail : q.tail = some last := by
      rw [h.tail, List.getLast?_concat]
      rfl
    have hmem : (last, v) ∈ front ++ [(last, v)] := by simp
    obtain ⟨next, hnode⟩ := h.chain.allocated hmem
    obtain ⟨first, hhead⟩ : ∃ first, q.head = some first := by
      have hchain := h.chain
      cases front with
      | nil => exact ⟨_, hchain.1⟩
      | cons => exact ⟨_, hchain.1⟩
    have hne : last ≠ addr := by
      rintro rfl
      cases hfresh.symm.trans hnode
    have hlinked := h.chain.link value h.distinct hfresh
    rw [LinkedQueue.append, htail, hhead]
    refine ⟨?_, ?_, hdistinct⟩
    · dsimp only
      rw [Function.update_of_ne hne, hnode, ← hhead]
      simpa using hlinked
    · rw [List.getLast?_concat]
      rfl

/-- The first cell is unlinked, and nothing is freed. -/
theorem unlink (h : Queued q ((addr, value) :: cells)) :
    ∃ rest, q.unlink = some (addr, value, rest) ∧ Queued rest cells ∧ rest.nodes = q.nodes := by
  obtain ⟨hhead, next, hnode, hrest⟩ := h.chain
  refine ⟨⟨q.nodes, next, if next = none then none else q.tail⟩, ?_, ⟨hrest, ?_, ?_⟩, rfl⟩
  · rw [LinkedQueue.unlink, hhead]
    simp [hnode]
  · cases cells with
    | nil =>
      have hlast : next = none := hrest
      rw [if_pos hlast]
      rfl
    | cons cell cells =>
      rw [if_neg (by simp [hrest.1]), h.tail, List.getLast?_cons_cons]
  · exact (List.nodup_cons.mp h.distinct).2

theorem unlink_nil (h : Queued q []) : q.unlink = none := by
  have hhead : q.head = none := h.chain
  rw [LinkedQueue.unlink, hhead]
  rfl

/-- What is freed is not in the queue. -/
theorem free (h : Queued q cells) (hout : addr ∉ cells.map Prod.fst) :
    Queued (q.free addr) cells := by
  refine ⟨h.chain.congr fun cell hcell => ?_, h.tail, h.distinct⟩
  refine Function.update_of_ne ?_ _ _
  rintro rfl
  exact hout (List.mem_map_of_mem hcell)

end Queued

/-- A queue together with nodes that were taken from it and not freed yet. -/
structure Holding (q : LinkedQueue α) (held cells : List (ℕ × α)) : Prop where
  queued : Queued q cells
  apart : ((held ++ cells).map Prod.fst).Nodup
  kept : ∀ cell ∈ held, ∃ next, q.nodes cell.1 = some ⟨cell.2, next⟩

/-- A new node leaves the values of the others as they are. -/
theorem LinkedQueue.append_kept {q : LinkedQueue α} {a addr : ℕ} {value v : α} {next : Option ℕ}
    (h : q.nodes a = some ⟨v, next⟩) (hfresh : q.nodes addr = none) :
    ∃ next, (q.append addr value).nodes a = some ⟨v, next⟩ := by
  have hne : a ≠ addr := by
    rintro rfl
    cases hfresh.symm.trans h
  rw [LinkedQueue.append]
  split
  · exact ⟨next, (Function.update_of_ne hne _ _).trans h⟩
  · exact ⟨next, (Function.update_of_ne hne _ _).trans h⟩
  next last _ _ =>
    by_cases hlast : a = last
    · subst hlast
      refine ⟨some addr, (Function.update_self ..).trans ?_⟩
      rw [Function.update_of_ne hne, h]
      rfl
    · exact ⟨next, ((Function.update_of_ne hlast _ _).trans (Function.update_of_ne hne _ _)).trans h⟩

namespace Holding

variable {q : LinkedQueue α} {held held' cells : List (ℕ × α)} {addr : ℕ} {value : α}

theorem empty : Holding (LinkedQueue.empty : LinkedQueue α) [] [] :=
  ⟨.empty, List.nodup_nil, fun _ hcell => absurd hcell List.not_mem_nil⟩

theorem perm (h : Holding q held cells) (hperm : held'.Perm held) : Holding q held' cells :=
  ⟨h.queued, ((hperm.append_right _).map _).nodup_iff.mpr h.apart,
    fun cell hcell => h.kept cell (hperm.mem_iff.mp hcell)⟩

theorem append (h : Holding q held cells) (hfresh : q.nodes addr = none) :
    Holding (q.append addr value) held (cells ++ [(addr, value)]) := by
  have hqueued := h.queued.append value hfresh
  have hapart := h.apart
  refine ⟨hqueued, ?_, fun cell hcell => ?_⟩
  · rw [List.map_append] at hapart ⊢
    refine List.Nodup.append (List.Nodup.of_append_left hapart) hqueued.distinct ?_
    intro a ha hcell
    rw [List.map_append] at hcell
    rcases List.mem_append.mp hcell with hcell | hnew
    · exact List.disjoint_of_nodup_append hapart ha hcell
    · obtain ⟨cell, hmem, rfl⟩ := List.mem_map.mp ha
      obtain ⟨next, hnode⟩ := h.kept cell hmem
      rw [List.map_singleton, List.mem_singleton] at hnew
      cases hfresh.symm.trans (hnew ▸ hnode)
  · obtain ⟨next, hnode⟩ := h.kept cell hcell
    exact LinkedQueue.append_kept hnode hfresh

theorem unlink (h : Holding q held ((addr, value) :: cells)) :
    ∃ rest, q.unlink = some (addr, value, rest) ∧ Holding rest ((addr, value) :: held) cells := by
  obtain ⟨rest, hunlink, hrest, hnodes⟩ := h.queued.unlink
  refine ⟨rest, hunlink, hrest, ?_, fun cell hcell => ?_⟩
  · exact (List.perm_middle.map _).nodup_iff.mp h.apart
  · rw [hnodes]
    rcases List.mem_cons.mp hcell with rfl | hcell
    · exact h.queued.chain.allocated List.mem_cons_self
    · exact h.kept cell hcell

theorem free (h : Holding q ((addr, value) :: held) cells) : Holding (q.free addr) held cells := by
  obtain ⟨hother, hapart⟩ := List.nodup_cons.mp h.apart
  have hout : ∀ cell ∈ held ++ cells, cell.1 ≠ addr := by
    intro cell hcell hsame
    exact hother (List.mem_map.mpr ⟨cell, hcell, hsame⟩)
  refine ⟨h.queued.free fun hmem => ?_, hapart, fun cell hcell => ?_⟩
  · obtain ⟨cell, hcell, hsame⟩ := List.mem_map.mp hmem
    exact hout cell (List.mem_append_right _ hcell) hsame
  · obtain ⟨next, hnode⟩ := h.kept cell (List.mem_cons_of_mem _ hcell)
    have hne := hout cell (List.mem_append_left _ hcell)
    exact ⟨next, (Function.update_of_ne hne _ _).trans hnode⟩

end Holding

end AbstractHttp.Library
