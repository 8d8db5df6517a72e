import AbstractHttp.ErrorCode
import AbstractHttp.Library.LinkedQueue
import AbstractHttp.Library.Schedule

/-!
# The thread pool

Pushes, workers and the call that frees the pool act on one queue in sections that a mutex
protects. A worker that waits may wake at any time, signalled or not, and no one acts on a pool
that is freed. A join waits until its thread has exited.
-/
namespace AbstractHttp.Concurrency
open Library

variable {τ : Type*}

/-- `struct AbstractHttpThreadPool` as far as its tasks go; a task is `cb` with `arg`. -/
structure ThreadPool (τ : Type*) where
  queue : LinkedQueue τ
  stop : Bool

/-- `abstract_http_thread_pool_push`; no `task` has a NULL `cb`, and `addr` is what `malloc`
returns. -/
def threadPoolPush (pool : ThreadPool τ) (task : Option τ) (addr : Option ℕ) :
    Except ErrorCode (ThreadPool τ) :=
  match task, addr with
  | none, _ => .error .inval
  | some _, none => .error .nomem
  | some task, some addr =>
    if pool.stop then .error .inval else .ok { pool with queue := pool.queue.append addr task }

/-- What a worker does once it has the lock. -/
inductive WorkerTurn (τ : Type*) where
  | waits
  | exits
  | takes (addr : ℕ) (task : τ) (pool : ThreadPool τ)

/-- The section of `worker_thread`, from the lock, or from a return of the wait, to the unlock or
the next wait. -/
def workerTurn (pool : ThreadPool τ) : WorkerTurn τ :=
  match pool.queue.unlink with
  | none => if pool.stop then .exits else .waits
  | some (addr, task, queue) => .takes addr task { pool with queue := queue }

/-- Where a worker is outside of the sections. -/
inductive Worker (τ : Type*) where
  | ready
  | waiting
  | executing (addr : ℕ) (task : τ)
  | exited
  deriving DecidableEq, Repr

/-- The node that a worker holds. -/
def Worker.cell? : Worker τ → Option (ℕ × τ)
  | .executing addr task => some (addr, task)
  | _ => none

/-- How far `abstract_http_thread_pool_free` is. -/
inductive FreePhase where
  | notCalled
  | joining
  | returned
  deriving DecidableEq, Repr

/-- The pool with its threads and a record, where each push has a number: which tasks were
accepted and which were refused, which were taken from the queue and which were executed. -/
structure PoolState (τ : Type*) where
  pool : ThreadPool (ℕ × τ)
  workers : List (Worker (ℕ × τ))
  freePhase : FreePhase
  pushes : ℕ
  accepted : List (ℕ × τ)
  refused : List (ℕ × Option τ)
  dequeued : List (ℕ × τ)
  executed : List (ℕ × τ)

/-- `abstract_http_thread_pool_init`, where everything it calls succeeds. -/
def threadPoolInit (numThreads : ℕ) : Except ErrorCode (PoolState τ) :=
  if numThreads = 0 then .error .inval
  else .ok ⟨⟨.empty, false⟩, List.replicate numThreads .ready, .notCalled, 0, [], [], [], []⟩

namespace PoolState

/-- A call of `abstract_http_thread_pool_push`. -/
def push (s : PoolState τ) (task : Option τ) (addr : Option ℕ) : PoolState τ :=
  match task, threadPoolPush s.pool (task.map fun task => (s.pushes, task)) addr with
  | some task, .ok pool =>
    { s with pool := pool, pushes := s.pushes + 1, accepted := s.accepted ++ [(s.pushes, task)] }
  | _, _ => { s with pushes := s.pushes + 1, refused := s.refused ++ [(s.pushes, task)] }

/-- Worker `w` gets the lock. -/
def turn (s : PoolState τ) (w : ℕ) : PoolState τ :=
  match workerTurn s.pool with
  | .waits => { s with workers := s.workers.set w .waiting }
  | .exits => { s with workers := s.workers.set w .exited }
  | .takes addr task pool =>
    { s with
      pool := pool
      workers := s.workers.set w (.executing addr task)
      dequeued := s.dequeued ++ [task] }

/-- Worker `w` is back from the callback of its task, and frees the node. -/
def finish (s : PoolState τ) (w addr : ℕ) (task : ℕ × τ) : PoolState τ :=
  { s with
    pool := { s.pool with queue := s.pool.queue.free addr }
    workers := s.workers.set w .ready
    executed := s.executed ++ [task] }

end PoolState

/-- The actions of callers and workers. -/
inductive PoolAction (τ : Type*) where
  | push (task : Option τ) (addr : Option ℕ)
  | turn (w : ℕ)
  | finish (w : ℕ)
  | free
  | freeReturns

/-- One action, where it is enabled; `malloc` returns an address that is not in use. -/
def poolStep (s : PoolState τ) : PoolAction τ → Option (PoolState τ)
  | .push task addr =>
    if s.freePhase ≠ .returned ∧ ∀ a ∈ addr, (s.pool.queue.nodes a).isNone then
      some (s.push task addr)
    else none
  | .turn w =>
    match s.workers[w]? with
    | some .ready => some (s.turn w)
    | some .waiting => some (s.turn w)
    | _ => none
  | .finish w =>
    match s.workers[w]? with
    | some (.executing addr task) => some (s.finish w addr task)
    | _ => none
  | .free =>
    if s.freePhase = .notCalled then
      some { s with pool := { s.pool with stop := true }, freePhase := .joining }
    else none
  | .freeReturns =>
    if s.freePhase = .joining ∧ s.workers.all (fun worker => worker matches .exited) then
      some { s with pool := { s.pool with queue := .empty }, freePhase := .returned }
    else none

/-- What each action needs and does. -/
inductive PoolMove (s : PoolState τ) : PoolAction τ → PoolState τ → Prop where
  | push {task : Option τ} {addr : Option ℕ} (hopen : s.freePhase ≠ .returned)
      (hfresh : ∀ a ∈ addr, (s.pool.queue.nodes a).isNone) :
      PoolMove s (.push task addr) (s.push task addr)
  | turn {w : ℕ} {worker : Worker (ℕ × τ)} (hold : s.workers[w]? = some worker)
      (hidle : worker = .ready ∨ worker = .waiting) : PoolMove s (.turn w) (s.turn w)
  | finish {w addr : ℕ} {task : ℕ × τ} (hold : s.workers[w]? = some (.executing addr task)) :
      PoolMove s (.finish w) (s.finish w addr task)
  | free (hfirst : s.freePhase = .notCalled) :
      PoolMove s .free { s with pool := { s.pool with stop := true }, freePhase := .joining }
  | freeReturns (hjoins : s.freePhase = .joining)
      (hexited : s.workers.all (fun worker => worker matches .exited)) :
      PoolMove s .freeReturns
        { s with pool := { s.pool with queue := .empty }, freePhase := .returned }

theorem poolStep_eq_some_iff {s u : PoolState τ} {a : PoolAction τ} :
    poolStep s a = some u ↔ PoolMove s a u := by
  constructor
  · intro h
    cases a with
    | push task addr =>
      rw [poolStep, Option.ite_none_right_eq_some] at h
      exact Option.some.inj h.2 ▸ .push h.1.1 h.1.2
    | turn w =>
      rw [poolStep] at h
      split at h
      next hold => exact Option.some.inj h ▸ .turn hold (.inl rfl)
      next hold => exact Option.some.inj h ▸ .turn hold (.inr rfl)
      next => cases h
    | finish w =>
      rw [poolStep] at h
      split at h
      next hold => exact Option.some.inj h ▸ .finish hold
      next => cases h
    | free =>
      rw [poolStep, Option.ite_none_right_eq_some] at h
      exact Option.some.inj h.2 ▸ .free h.1
    | freeReturns =>
      rw [poolStep, Option.ite_none_right_eq_some] at h
      exact Option.some.inj h.2 ▸ .freeReturns h.1.1 h.1.2
  · intro h
    cases h with
    | push hopen hfresh => exact if_pos ⟨hopen, hfresh⟩
    | turn hold hidle => rcases hidle with rfl | rfl <;> simp only [poolStep, hold]
    | finish hold => simp only [poolStep, hold]
    | free hfirst => exact if_pos hfirst
    | freeReturns hjoins hexited => exact if_pos ⟨hjoins, hexited⟩

section Discipline

variable {s u : PoolState τ} {cells : List (ℕ × ℕ × τ)} {actions : List (PoolAction τ)}

/-- The nodes that the workers hold. -/
def PoolState.running (s : PoolState τ) : List (ℕ × ℕ × τ) := s.workers.filterMap Worker.cell?

theorem filterMap_middle {α β : Type*} (f : α → Option β) (before after : List α) (x : α) :
    ((before ++ x :: after).filterMap f).Perm
      ((f x).toList ++ (before.filterMap f ++ after.filterMap f)) := by
  rw [List.filterMap_append]
  cases hx : f x with
  | none => rw [List.filterMap_cons_none hx, Option.toList_none, List.nil_append]
  | some y =>
    rw [List.filterMap_cons_some hx, Option.toList_some]
    exact List.perm_middle

/-- One party changes, and what the others hold is the same. -/
theorem filterMap_set {α β : Type*} (f : α → Option β) {xs : List α} {i : ℕ} {x : α} (y : α)
    (hx : xs[i]? = some x) :
    ∃ rest, (xs.filterMap f).Perm ((f x).toList ++ rest) ∧
      ((xs.set i y).filterMap f).Perm ((f y).toList ++ rest) := by
  obtain ⟨hi, rfl⟩ := List.getElem?_eq_some_iff.mp hx
  obtain ⟨before, after, hsplit, -, hset⟩ := @List.exists_of_set α i y xs hi
  refine ⟨before.filterMap f ++ after.filterMap f, ?_, ?_⟩
  · conv_lhs => rw [hsplit]
    exact filterMap_middle f before after _
  · rw [hset]
    exact filterMap_middle f before after y

/-- What the workers and the queue hold is what was accepted; a worker has exited only from an
empty queue that takes no more tasks. -/
structure Disciplined (s : PoolState τ) (cells : List (ℕ × ℕ × τ)) : Prop where
  holding : Holding s.pool.queue s.running cells
  inOrder : s.dequeued ++ cells.map Prod.snd = s.accepted
  executed : (s.executed ++ s.running.map Prod.snd).Perm s.dequeued
  distinct : (s.accepted.map Prod.fst ++ s.refused.map Prod.fst).Nodup
  numbered : ∀ k ∈ s.accepted.map Prod.fst ++ s.refused.map Prod.fst, k < s.pushes
  exited : .exited ∈ s.workers → s.pool.stop = true ∧ cells = []
  returned : s.freePhase = .returned → ∀ worker ∈ s.workers, worker = .exited
  workers : s.workers ≠ []

namespace Disciplined

theorem init {numThreads : ℕ} (h : threadPoolInit numThreads = .ok s) : Disciplined s [] := by
  rw [threadPoolInit] at h
  split_ifs at h with hzero
  obtain rfl := Except.ok.inj h
  have hrunning : (List.replicate numThreads (Worker.ready : Worker (ℕ × τ))).filterMap
      Worker.cell? = [] :=
    List.filterMap_eq_nil_iff.mpr fun worker hworker => by
      rw [List.eq_of_mem_replicate hworker]
      rfl
  constructor
  · rw [PoolState.running, hrunning]
    exact .empty
  · rfl
  · rw [PoolState.running, hrunning]
    exact .refl _
  · exact List.nodup_nil
  · exact fun k hk => absurd hk List.not_mem_nil
  · intro hexited
    cases List.eq_of_mem_replicate hexited
  · intro hphase
    cases hphase
  · simpa using hzero

/-- The number of a push is new. -/
theorem next_fresh (h : Disciplined s cells) :
    s.pushes ∉ s.accepted.map Prod.fst ++ s.refused.map Prod.fst :=
  fun hmem => (h.numbered _ hmem).ne rfl

theorem numbered_succ (h : Disciplined s cells) {k : ℕ}
    (hk : k ∈ s.accepted.map Prod.fst ++ s.refused.map Prod.fst ∨ k = s.pushes) :
    k < s.pushes + 1 := by
  rcases hk with hk | rfl
  · exact (h.numbered k hk).trans (Nat.lt_succ_self _)
  · exact Nat.lt_succ_self _

theorem refuse (h : Disciplined s cells) (task : Option τ) :
    Disciplined { s with pushes := s.pushes + 1, refused := s.refused ++ [(s.pushes, task)] }
      cells := by
  refine { h with distinct := ?_, numbered := fun k hk => h.numbered_succ ?_ }
  · rw [List.map_append, ← List.append_assoc, List.map_singleton]
    refine List.Nodup.append h.distinct (List.nodup_singleton _) ?_
    simpa using h.next_fresh
  · simpa [or_assoc] using hk

theorem accept {task : τ} {addr : ℕ} (h : Disciplined s cells)
    (hfresh : s.pool.queue.nodes addr = none) (hrunning : s.pool.stop = false) :
    Disciplined
      { s with
        pool := { s.pool with queue := s.pool.queue.append addr (s.pushes, task) }
        pushes := s.pushes + 1
        accepted := s.accepted ++ [(s.pushes, task)] }
      (cells ++ [(addr, s.pushes, task)]) := by
  refine ⟨h.holding.append hfresh, ?_, h.executed, ?_, fun k hk => h.numbered_succ ?_, ?_,
    h.returned, h.workers⟩
  · rw [List.map_append, ← List.append_assoc, h.inOrder]
    rfl
  · have hnew := h.next_fresh
    have hdistinct := h.distinct
    rw [List.map_append, List.append_assoc]
    exact List.nodup_middle.mpr (List.nodup_cons.mpr ⟨hnew, hdistinct⟩)
  · rw [List.map_append, List.append_assoc] at hk
    exact (List.mem_cons.mp (List.perm_middle.mem_iff.mp hk)).symm
  · intro hexited
    cases hrunning.symm.trans (h.exited hexited).1

theorem push {task : Option τ} {addr : Option ℕ} (h : Disciplined s cells)
    (hfresh : ∀ a ∈ addr, (s.pool.queue.nodes a).isNone) :
    ∃ cells, Disciplined (s.push task addr) cells := by
  cases task with
  | none => exact ⟨cells, h.refuse none⟩
  | some task =>
    cases addr with
    | none => exact ⟨cells, h.refuse (some task)⟩
    | some addr =>
      have hfree : s.pool.queue.nodes addr = none := Option.isNone_iff_eq_none.mp (hfresh addr rfl)
      unfold PoolState.push
      cases hstop : s.pool.stop with
      | true =>
        simp only [Option.map_some, threadPoolPush, hstop, if_true]
        exact ⟨cells, h.refuse (some task)⟩
      | false =>
        simp only [Option.map_some, threadPoolPush, hstop, Bool.false_eq_true, if_false]
        rw [← hstop]
        exact ⟨_, h.accept hfree hstop⟩

/-- A worker that is still there. -/
theorem not_returned {w : ℕ} {old : Worker (ℕ × τ)} (h : Disciplined s cells)
    (hold : s.workers[w]? = some old) (hthere : old ≠ .exited) : s.freePhase ≠ .returned :=
  fun hreturned => hthere (h.returned hreturned old (List.mem_of_getElem? hold))

theorem exited_set {w : ℕ} {new : Worker (ℕ × τ)} (h : Disciplined s cells)
    (hnew : new = .exited → s.pool.stop = true ∧ cells = [])
    (hexited : .exited ∈ s.workers.set w new) : s.pool.stop = true ∧ cells = [] := by
  rcases List.mem_or_eq_of_mem_set hexited with hmem | hsame
  · exact h.exited hmem
  · exact hnew hsame.symm

/-- A worker that holds no node waits or exits. -/
theorem set_idle {w : ℕ} {old new : Worker (ℕ × τ)} (h : Disciplined s cells)
    (hold : s.workers[w]? = some old) (hthere : old ≠ .exited) (hidle : old.cell? = none)
    (hidle' : new.cell? = none) (hnew : new = .exited → s.pool.stop = true ∧ cells = []) :
    Disciplined { s with workers := s.workers.set w new } cells := by
  obtain ⟨rest, hbefore, hafter⟩ := filterMap_set Worker.cell? new hold
  rw [hidle] at hbefore
  rw [hidle'] at hafter
  have hrunning : ((s.workers.set w new).filterMap Worker.cell?).Perm s.running :=
    hafter.trans hbefore.symm
  refine ⟨h.holding.perm hrunning, h.inOrder, ?_, h.distinct, h.numbered, h.exited_set hnew,
    fun hreturned => absurd hreturned (h.not_returned hold hthere), ?_⟩
  · exact ((hrunning.map _).append_left _).trans h.executed
  · exact fun hnil => h.workers ((List.set_eq_nil_iff ..).mp hnil)

theorem turn {w : ℕ} {old : Worker (ℕ × τ)} (h : Disciplined s cells)
    (hold : s.workers[w]? = some old) (hthere : old ≠ .exited) (hidle : old.cell? = none) :
    ∃ cells, Disciplined (s.turn w) cells := by
  match cells with
  | [] =>
    rw [PoolState.turn, workerTurn, h.holding.queued.unlink_nil]
    cases hstop : s.pool.stop with
    | true => exact ⟨[], h.set_idle hold hthere hidle rfl fun _ => ⟨hstop, rfl⟩⟩
    | false => exact ⟨[], h.set_idle hold hthere hidle rfl fun hexits => by cases hexits⟩
  | (addr, task) :: cells =>
    obtain ⟨queue, hunlink, hholding⟩ := h.holding.unlink
    obtain ⟨rest, hbefore, hafter⟩ := filterMap_set Worker.cell? (.executing addr task) hold
    rw [hidle] at hbefore
    have hrunning : ((s.workers.set w (.executing addr task)).filterMap Worker.cell?).Perm
        ((addr, task) :: s.running) := hafter.trans (hbefore.symm.cons _)
    rw [PoolState.turn, workerTurn, hunlink]
    refine ⟨cells, hholding.perm hrunning, ?_, ?_, h.distinct, h.numbered, ?_,
      fun hreturned => absurd hreturned (h.not_returned hold hthere), ?_⟩
    · rw [← h.inOrder, List.append_assoc]
      rfl
    · refine ((hrunning.map _).append_left _).trans ?_
      refine (List.perm_middle.trans ((h.executed.cons task))).trans ?_
      exact (List.perm_append_singleton _ _).symm
    · intro hexited
      rcases List.mem_or_eq_of_mem_set hexited with hmem | hsame
      · cases (h.exited hmem).2
      · cases hsame
    · exact fun hnil => h.workers ((List.set_eq_nil_iff ..).mp hnil)

theorem finish {w addr : ℕ} {task : ℕ × τ} (h : Disciplined s cells)
    (hold : s.workers[w]? = some (.executing addr task)) :
    Disciplined (s.finish w addr task) cells := by
  obtain ⟨rest, hbefore, hafter⟩ := filterMap_set Worker.cell? .ready hold
  have hrunning : s.running.Perm
      ((addr, task) :: (s.workers.set w .ready).filterMap Worker.cell?) :=
    hbefore.trans (hafter.symm.cons _)
  refine ⟨(h.holding.perm hrunning.symm).free, h.inOrder, ?_, h.distinct, h.numbered,
    h.exited_set (by simp),
    fun hreturned => absurd hreturned (h.not_returned hold (by simp)), ?_⟩
  · refine .trans ?_ (((hrunning.map _).append_left _).symm.trans h.executed)
    rw [PoolState.finish, List.append_assoc]
    exact .refl _
  · exact fun hnil => h.workers ((List.set_eq_nil_iff ..).mp hnil)

theorem free (h : Disciplined s cells) :
    Disciplined { s with pool := { s.pool with stop := true }, freePhase := .joining } cells :=
  ⟨h.holding, h.inOrder, h.executed, h.distinct, h.numbered,
    fun hexited => ⟨rfl, (h.exited hexited).2⟩, by simp, h.workers⟩

/-- Where all workers have exited nothing is queued, and no task is being executed. -/
theorem all_exited (h : Disciplined s cells) (hall : ∀ worker ∈ s.workers, worker = .exited) :
    cells = [] ∧ s.running = [] := by
  obtain ⟨worker, rest, hworkers⟩ := List.exists_cons_of_ne_nil h.workers
  constructor
  · refine (h.exited ?_).2
    rw [← hall worker (hworkers ▸ List.mem_cons_self), hworkers]
    exact List.mem_cons_self
  · refine List.filterMap_eq_nil_iff.mpr fun worker hworker => ?_
    rw [hall worker hworker]
    rfl

theorem freeReturns (h : Disciplined s cells) (hall : ∀ worker ∈ s.workers, worker = .exited) :
    Disciplined
      { s with pool := { s.pool with queue := .empty }, freePhase := .returned } [] := by
  obtain ⟨rfl, hrunning⟩ := h.all_exited hall
  refine ⟨?_, h.inOrder, h.executed, h.distinct, h.numbered, h.exited, fun _ => hall, h.workers⟩
  rw [PoolState.running] at hrunning ⊢
  rw [hrunning]
  exact .empty

end Disciplined

theorem poolStep_disciplined {a : PoolAction τ} (h : ∃ cells, Disciplined s cells)
    (hstep : poolStep s a = some u) : ∃ cells, Disciplined u cells := by
  obtain ⟨cells, h⟩ := h
  cases poolStep_eq_some_iff.mp hstep with
  | push hopen hfresh => exact h.push hfresh
  | turn hold hidle => rcases hidle with rfl | rfl <;> exact h.turn hold (by simp) rfl
  | finish hold => exact ⟨cells, h.finish hold⟩
  | free => exact ⟨cells, h.free⟩
  | freeReturns hjoins hexited =>
    refine ⟨[], h.freeReturns fun worker hworker => ?_⟩
    have hexit := List.all_eq_true.mp hexited worker hworker
    cases worker <;> first | rfl | cases hexit

/-- Tasks leave the queue in the order in which they were accepted, each is executed once by the
worker that took it, no other is executed, and none is left when the pool is freed. -/
structure QueueDiscipline (s : PoolState τ) : Prop where
  inOrder : s.dequeued <+: s.accepted
  executed : (s.executed ++ s.running.map Prod.snd).Perm s.dequeued
  once : ((s.executed ++ s.running.map Prod.snd).map Prod.fst).Nodup
  notRefused : ∀ task ∈ s.executed ++ s.running.map Prod.snd,
    task ∈ s.accepted ∧ ∀ refused ∈ s.refused, refused.1 ≠ task.1
  drained : s.freePhase = .returned → s.dequeued = s.accepted ∧ s.executed.Perm s.accepted

theorem Disciplined.queueDiscipline (h : Disciplined s cells) : QueueDiscipline s := by
  have hinOrder : s.dequeued <+: s.accepted := ⟨_, h.inOrder⟩
  have haccepted := List.Nodup.of_append_left h.distinct
  refine ⟨hinOrder, h.executed, ?_, fun task htask => ?_, fun hreturned => ?_⟩
  · exact (h.executed.map _).nodup_iff.mpr ((hinOrder.sublist.map _).nodup haccepted)
  · have hmem : task ∈ s.accepted := hinOrder.subset (h.executed.mem_iff.mp htask)
    refine ⟨hmem, fun refused hrefused hsame => ?_⟩
    exact List.disjoint_of_nodup_append h.distinct (List.mem_map_of_mem hmem)
      (hsame ▸ List.mem_map_of_mem hrefused)
  · obtain ⟨rfl, hrunning⟩ := h.all_exited (h.returned hreturned)
    have hall : s.dequeued = s.accepted := by simpa using h.inOrder
    have hexecuted := h.executed
    rw [hrunning, List.map_nil, List.append_nil, hall] at hexecuted
    exact ⟨hall, hexecuted⟩

theorem disciplined_of_run {numThreads : ℕ} {start : PoolState τ}
    (hinit : threadPoolInit numThreads = .ok start) (h : Run poolStep start actions s) :
    ∃ cells, Disciplined s cells :=
  h.invariant (P := fun s => ∃ cells, Disciplined s cells) (A := fun _ => True)
    (fun _ _ _ _ hprev hstep => poolStep_disciplined hprev hstep) ⟨[], .init hinit⟩
    fun _ _ => trivial

/-- In every run of pushes and of any number of workers, with at most one call that frees the
pool, the queue keeps its discipline. -/
theorem threadPool_discipline {numThreads : ℕ} {start : PoolState τ}
    (hinit : threadPoolInit numThreads = .ok start) (h : Run poolStep start actions s) :
    QueueDiscipline s := by
  obtain ⟨cells, hcells⟩ := disciplined_of_run hinit h
  exact hcells.queueDiscipline

/-- No task is accepted any more once the pool is being freed. -/
def PoolState.StopsWhenFreed (s : PoolState τ) : Prop :=
  s.freePhase ≠ .notCalled → s.pool.stop = true

theorem push_stop (s : PoolState τ) (task : Option τ) (addr : Option ℕ) :
    (s.push task addr).pool.stop = s.pool.stop ∧ (s.push task addr).freePhase = s.freePhase := by
  cases task with
  | none => exact ⟨rfl, rfl⟩
  | some task =>
    cases addr with
    | none => exact ⟨rfl, rfl⟩
    | some addr =>
      unfold PoolState.push threadPoolPush
      cases hstop : s.pool.stop with
      | true => exact ⟨hstop, rfl⟩
      | false => exact ⟨rfl, rfl⟩

theorem turn_stop (s : PoolState τ) (w : ℕ) :
    (s.turn w).pool.stop = s.pool.stop ∧ (s.turn w).freePhase = s.freePhase := by
  unfold PoolState.turn workerTurn
  cases s.pool.queue.unlink with
  | none =>
    cases hstop : s.pool.stop with
    | true => exact ⟨hstop, rfl⟩
    | false => exact ⟨hstop, rfl⟩
  | some taken => exact ⟨rfl, rfl⟩

theorem poolStep_stopsWhenFreed {a : PoolAction τ} (h : s.StopsWhenFreed)
    (hstep : poolStep s a = some u) : u.StopsWhenFreed := by
  intro hfreed
  cases poolStep_eq_some_iff.mp hstep with
  | push =>
    rw [(push_stop s _ _).2] at hfreed
    exact (push_stop s _ _).1.trans (h hfreed)
  | turn =>
    rw [(turn_stop s _).2] at hfreed
    exact (turn_stop s _).1.trans (h hfreed)
  | finish => exact h hfreed
  | free => rfl
  | freeReturns hjoins => exact h (by simp [hjoins])

/-- What a worker still has to do: to execute its task, and to exit. -/
def Worker.steps : Worker τ → ℕ
  | .ready | .waiting => 1
  | .executing _ _ => 2
  | .exited => 0

/-- What the workers still have to do: to take and execute what is queued, and to exit. -/
def PoolState.steps (s : PoolState τ) : ℕ :=
  2 * (s.accepted.length - s.dequeued.length) + (s.workers.map Worker.steps).sum

theorem sum_steps_set {w : ℕ} {old : Worker (ℕ × τ)} (new : Worker (ℕ × τ))
    (hold : s.workers[w]? = some old) :
    ((s.workers.set w new).map Worker.steps).sum + old.steps =
      (s.workers.map Worker.steps).sum + new.steps := by
  obtain ⟨rest, hbefore, hafter⟩ := filterMap_set (fun worker => some worker.steps) new hold
  rw [List.filterMap_eq_map'] at hbefore hafter
  rw [hbefore.sum_eq, hafter.sum_eq]
  simp only [Option.toList_some, List.singleton_append, List.sum_cons]
  omega

namespace Disciplined

/-- A worker that finds the lock free takes a task, or exits from a pool that is being freed. -/
theorem turn_steps {w : ℕ} {old : Worker (ℕ × τ)} (h : Disciplined s cells)
    (hold : s.workers[w]? = some old) (hsteps : old.steps = 1) (hstop : s.pool.stop = true) :
    (s.turn w).steps < s.steps := by
  match cells with
  | [] =>
    have hsum := sum_steps_set .exited hold
    rw [hsteps] at hsum
    simp only [PoolState.turn, workerTurn, h.holding.queued.unlink_nil, hstop, if_true,
      PoolState.steps]
    simp only [Worker.steps] at hsum
    omega
  | (addr, task) :: cells =>
    obtain ⟨queue, hunlink, -⟩ := h.holding.unlink
    have hsum := sum_steps_set (.executing addr task) hold
    have hqueued := congrArg List.length h.inOrder
    rw [hsteps] at hsum
    simp only [PoolState.turn, workerTurn, hunlink, PoolState.steps, List.length_append,
      List.length_singleton]
    simp only [List.length_append, List.map_cons, List.length_cons] at hqueued
    simp only [Worker.steps] at hsum
    omega

theorem finish_steps {w addr : ℕ} {task : ℕ × τ}
    (hold : s.workers[w]? = some (.executing addr task)) :
    (s.finish w addr task).steps < s.steps := by
  have hsum := sum_steps_set .ready hold
  simp only [PoolState.finish, PoolState.steps]
  simp only [Worker.steps] at hsum
  omega

/-- In a pool that is being freed, a worker that has not exited can go on. -/
theorem exists_step (h : Disciplined s cells) (hstop : s.pool.stop = true)
    (hthere : ¬ ∀ worker ∈ s.workers, worker = .exited) :
    ∃ w u, (poolStep s (.turn w) = some u ∨ poolStep s (.finish w) = some u) ∧
      u.pool.stop = true ∧ u.freePhase = s.freePhase ∧ u.steps < s.steps := by
  push Not at hthere
  obtain ⟨worker, hworker, hexited⟩ := hthere
  obtain ⟨w, hold⟩ := List.mem_iff_getElem?.mp hworker
  have hturn : worker = .ready ∨ worker = .waiting → worker.steps = 1 →
      ∃ w u, (poolStep s (.turn w) = some u ∨ poolStep s (.finish w) = some u) ∧
        u.pool.stop = true ∧ u.freePhase = s.freePhase ∧ u.steps < s.steps :=
    fun hidle hsteps => ⟨w, s.turn w, .inl (poolStep_eq_some_iff.mpr (.turn hold hidle)),
      (turn_stop s w).1.trans hstop, (turn_stop s w).2, h.turn_steps hold hsteps hstop⟩
  cases worker with
  | ready => exact hturn (.inl rfl) rfl
  | waiting => exact hturn (.inr rfl) rfl
  | executing addr task =>
    exact ⟨w, s.finish w addr task, .inr (poolStep_eq_some_iff.mpr (.finish hold)), hstop, rfl,
      finish_steps hold⟩
  | exited => exact absurd rfl hexited

end Disciplined

/-- Wherever the call that frees the pool waits for the workers, they can come to their ends, and
then it returns. -/
theorem free_can_return {numThreads : ℕ} {start : PoolState τ}
    (hinit : threadPoolInit numThreads = .ok start) (h : Run poolStep start actions s)
    (hjoining : s.freePhase = .joining) :
    ∃ turns u, (∀ a ∈ turns, ∃ w, a = .turn w ∨ a = .finish w) ∧
      Run poolStep s (turns ++ [.freeReturns]) u ∧ u.freePhase = .returned := by
  have hstops : s.StopsWhenFreed := by
    refine h.invariant (P := PoolState.StopsWhenFreed) (A := fun _ => True)
      (fun _ _ _ _ hprev hstep => poolStep_stopsWhenFreed hprev hstep) ?_ fun _ _ => trivial
    rw [threadPoolInit] at hinit
    split_ifs at hinit
    cases hinit
    exact fun hfreed => absurd rfl hfreed
  have hlowers : ∀ t : PoolState τ,
      ((∃ cells, Disciplined t cells) ∧ t.pool.stop = true ∧ t.freePhase = .joining) →
      ¬ (∀ worker ∈ t.workers, worker = .exited) →
      ∃ a u, (∃ w, a = .turn w ∨ a = .finish w) ∧ poolStep t a = some u ∧
        ((∃ cells, Disciplined u cells) ∧ u.pool.stop = true ∧ u.freePhase = .joining) ∧
        u.steps < t.steps := by
    rintro t ⟨⟨cells, ht⟩, hstop, hjoins⟩ hthere
    obtain ⟨w, u, hstep, hstop', hphase, hless⟩ := ht.exists_step hstop hthere
    rcases hstep with hstep | hstep
    · exact ⟨.turn w, u, ⟨w, .inl rfl⟩, hstep,
        ⟨poolStep_disciplined ⟨cells, ht⟩ hstep, hstop', hphase.trans hjoins⟩, hless⟩
    · exact ⟨.finish w, u, ⟨w, .inr rfl⟩, hstep,
        ⟨poolStep_disciplined ⟨cells, ht⟩ hstep, hstop', hphase.trans hjoins⟩, hless⟩
  obtain ⟨turns, t, hturns, hrun, ⟨-, -, hjoins⟩, hexited⟩ :=
    exists_run_of_lowers PoolState.steps hlowers
      ⟨disciplined_of_run hinit h, hstops (by simp [hjoining]), hjoining⟩
  have hall : t.workers.all (fun worker => worker matches .exited) = true :=
    List.all_eq_true.mpr fun worker hworker => by rw [hexited worker hworker]
  exact ⟨turns, _, hturns, hrun.next (poolStep_eq_some_iff.mpr (.freeReturns hjoins hall)), rfl⟩

end Discipline

/-- Two workers; one wakes with an empty queue, and a push comes after the stop. -/
def stopRace : List (PoolAction ℕ) :=
  [.turn 0, .push (some 7) (some 20), .push (some 8) (some 21), .turn 1, .turn 0, .free,
    .push (some 9) (some 22), .finish 0, .turn 0, .finish 1, .turn 1, .freeReturns]

theorem threadPool_discipline_stopRace :
    ∃ start s, threadPoolInit 2 = .ok start ∧ Run poolStep start stopRace s ∧
      s.executed = [(1, 8), (0, 7)] ∧ QueueDiscipline s := by
  let start : PoolState ℕ := ⟨⟨.empty, false⟩, [.ready, .ready], .notCalled, 0, [], [], [], []⟩
  have hinit : threadPoolInit 2 = .ok start := rfl
  obtain ⟨s, hs⟩ := Option.isSome_iff_exists.mp
    (by decide : (stopRace.foldlM poolStep start).isSome)
  have hexecuted : (stopRace.foldlM poolStep start).map PoolState.executed =
      some [(1, 8), (0, 7)] := by decide
  rw [hs] at hexecuted
  exact ⟨start, s, hinit, run_iff.mpr hs, Option.some.inj hexecuted,
    threadPool_discipline hinit (run_iff.mpr hs)⟩

end AbstractHttp.Concurrency
