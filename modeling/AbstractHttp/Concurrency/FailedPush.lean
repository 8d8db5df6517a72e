import AbstractHttp.Concurrency.ThreadPool

/-!
# Pushes that fail

A push calls `malloc` and the functions of the mutex and of the condition variable, each of which
may fail. Its caller keeps the argument of the task when the push returns an error, and frees it:
`c_abstract_http_ws_async_register` and `c_abstract_http_sse_async_register` do so with the
context of their task. The task must then not be in the queue.
-/
namespace AbstractHttp.Concurrency
open Library

variable {τ : Type*}

/-- What the calls made by a push return; `none` is `C_ABSTRACT_HTTP_SUCCESS`, but for `malloc`. -/
structure PushCalls where
  malloc : Option ℕ
  lock : Option ErrorCode
  condSignal : Option ErrorCode
  unlock : Option ErrorCode

/-- `abstract_http_thread_pool_push` whatever its calls return: its own result, and the pool. -/
def pushResult (pool : ThreadPool τ) (task : Option τ) (calls : PushCalls) :
    Option ErrorCode × ThreadPool τ :=
  match task, calls.malloc with
  | none, _ => (some .inval, pool)
  | some _, none => (some .nomem, pool)
  | some task, some addr =>
    match calls.lock with
    | some err => (some err, pool)
    | none =>
      if pool.stop then (some (calls.unlock.getD .inval), pool)
      else
        -- the task stays linked whatever the last two calls return
        (calls.condSignal.or calls.unlock, { pool with queue := pool.queue.append addr task })

/-- A push that links its task and returns an error. -/
def LinksAndFails {σ : Type*} (pool : ThreadPool σ) (task : Option τ) (calls : PushCalls) : Prop :=
  (task.isSome ∧ calls.malloc.isSome ∧ calls.lock = none ∧ pool.stop = false) ∧
    (calls.condSignal ≠ none ∨ calls.unlock ≠ none)

section Result

variable {pool : ThreadPool τ} {task : Option τ} {calls : PushCalls} {err : ErrorCode}

/-- Where every call succeeds this is the push of the other runs. -/
theorem pushResult_of_success (pool : ThreadPool τ) (task : Option τ) (addr : Option ℕ) :
    pushResult pool task ⟨addr, none, none, none⟩ =
      match threadPoolPush pool task addr with
      | .ok pool => (none, pool)
      | .error err => (some err, pool) := by
  cases task with
  | none => rfl
  | some task =>
    cases addr with
    | none => rfl
    | some addr =>
      unfold pushResult threadPoolPush
      cases pool.stop <;> simp

/-- A push that returns an error leaves the pool as it was, unless its task is linked already. -/
theorem pushResult_error {err : ErrorCode} (h : (pushResult pool task calls).1 = some err)
    (hunlinked : ¬ LinksAndFails pool task calls) : (pushResult pool task calls).2 = pool := by
  obtain ⟨malloc, lock, condSignal, unlock⟩ := calls
  match task, malloc, lock with
  | none, _, _ => rfl
  | some _, none, _ => rfl
  | some _, some _, some _ => rfl
  | some task, some addr, none =>
    cases hstop : pool.stop with
    | true => simp [pushResult, hstop]
    | false =>
      have hsucceeds : condSignal = none ∧ unlock = none := by
        simpa [LinksAndFails, hstop] using hunlinked
      obtain ⟨rfl, rfl⟩ := hsucceeds
      simp [pushResult, hstop] at h

theorem LinksAndFails.result (h : LinksAndFails pool task calls) :
    (∃ err, (pushResult pool task calls).1 = some err) ∧ ∃ value ∈ task, ∃ addr ∈ calls.malloc,
      (pushResult pool task calls).2 = { pool with queue := pool.queue.append addr value } := by
  obtain ⟨malloc, lock, condSignal, unlock⟩ := calls
  obtain ⟨⟨htask, hmalloc, rfl, hrunning⟩, hfails⟩ := h
  obtain ⟨value, rfl⟩ := Option.isSome_iff_exists.mp htask
  obtain ⟨addr, rfl⟩ := Option.isSome_iff_exists.mp hmalloc
  have hresult : pushResult pool (some value) ⟨some addr, none, condSignal, unlock⟩ =
      (condSignal.or unlock, { pool with queue := pool.queue.append addr value }) := by
    simp [pushResult, hrunning]
  rw [hresult]
  refine ⟨?_, value, rfl, addr, rfl, rfl⟩
  cases condSignal with
  | some err => exact ⟨err, rfl⟩
  | none => exact Option.ne_none_iff_exists'.mp (hfails.resolve_left (by simp))

end Result

namespace PoolState

/-- A call of `abstract_http_thread_pool_push`, recorded by its result. -/
def pushWith (s : PoolState τ) (task : Option τ) (calls : PushCalls) : PoolState τ :=
  let result := pushResult s.pool (task.map fun task => (s.pushes, task)) calls
  let called := { s with pool := result.2, pushes := s.pushes + 1 }
  if result.1.isNone then
    { called with accepted := s.accepted ++ (task.map fun task => (s.pushes, task)).toList }
  else { called with refused := s.refused ++ [(s.pushes, task)] }

/-- The pool and its threads, without the record of what the pushes returned. -/
def unrecorded (s : PoolState τ) : PoolState τ := { s with accepted := [], refused := [] }

end PoolState

/-- The actions of a pool some of whose pushes fail. -/
inductive FaultyAction (τ : Type*) where
  | push (task : Option τ) (calls : PushCalls)
  | pool (action : PoolAction τ)

/-- One action, where it is enabled. -/
def faultyStep (s : PoolState τ) : FaultyAction τ → Option (PoolState τ)
  | .push task calls =>
    if s.freePhase ≠ .returned ∧ ∀ a ∈ calls.malloc, (s.pool.queue.nodes a).isNone then
      some (s.pushWith task calls)
    else none
  | .pool action => poolStep s action

/-- A push without failures that does the same to the queue. -/
def FaultyAction.asPool : FaultyAction τ → PoolAction τ
  | .push task calls => .push task (if calls.lock.isNone then calls.malloc else none)
  | .pool action => action

section Simulation

variable {s t u : PoolState τ}

theorem pushWith_unrecorded (s : PoolState τ) (task : Option τ) (calls : PushCalls) :
    (s.pushWith task calls).unrecorded =
      { s.unrecorded with
        pool := (pushResult s.pool (task.map fun task => (s.pushes, task)) calls).2
        pushes := s.pushes + 1 } := by
  rw [PoolState.pushWith]
  split <;> rfl

theorem push_unrecorded (s : PoolState τ) (task : Option τ) (addr : Option ℕ) :
    (s.push task addr).unrecorded =
      { s.unrecorded with
        pool := (pushResult s.pool (task.map fun task => (s.pushes, task))
          ⟨addr, none, none, none⟩).2
        pushes := s.pushes + 1 } := by
  rw [pushResult_of_success]
  unfold PoolState.push
  cases hpush : threadPoolPush s.pool (task.map fun task => (s.pushes, task)) addr with
  | error err => cases task <;> rfl
  | ok pool =>
    cases task with
    | none => cases hpush
    | some task => rfl

/-- What the last two calls return makes no difference to the pool, and a lock that fails none
either from a `malloc` that does. -/
theorem pushResult_pool (pool : ThreadPool τ) (task : Option τ) (calls : PushCalls) :
    (pushResult pool task calls).2 =
      (pushResult pool task
        ⟨if calls.lock.isNone then calls.malloc else none, none, none, none⟩).2 := by
  obtain ⟨malloc, lock, condSignal, unlock⟩ := calls
  match task, malloc, lock with
  | none, _, _ => rfl
  | some _, none, none => rfl
  | some _, none, some _ => rfl
  | some _, some _, some _ => rfl
  | some task, some addr, none =>
    cases hstop : pool.stop <;> simp [pushResult, hstop]

theorem unrecorded_eq_iff :
    s.unrecorded = t.unrecorded ↔
      ∃ accepted refused, t = { s with accepted := accepted, refused := refused } := by
  constructor
  · intro h
    refine ⟨t.accepted, t.refused, ?_⟩
    obtain ⟨pool, workers, freePhase, pushes, accepted, refused, dequeued, executed⟩ := s
    obtain ⟨pool', workers', freePhase', pushes', accepted', refused', dequeued', executed'⟩ := t
    simp only [PoolState.unrecorded, PoolState.mk.injEq, true_and] at h
    obtain ⟨rfl, rfl, rfl, rfl, rfl, rfl⟩ := h
    rfl
  · rintro ⟨accepted, refused, rfl⟩
    rfl

theorem turn_unrecorded (s : PoolState τ) (w : ℕ) (accepted : List (ℕ × τ))
    (refused : List (ℕ × Option τ)) :
    ({ s with accepted := accepted, refused := refused }.turn w).unrecorded =
      (s.turn w).unrecorded := by
  unfold PoolState.turn
  dsimp only
  split <;> rfl

/-- What the pushes returned has no influence on what happens later. -/
theorem poolStep_unrecorded {a : PoolAction τ} (hsame : s.unrecorded = t.unrecorded)
    (h : poolStep s a = some u) : ∃ v, poolStep t a = some v ∧ u.unrecorded = v.unrecorded := by
  obtain ⟨accepted, refused, rfl⟩ := unrecorded_eq_iff.mp hsame
  let t : PoolState τ := { s with accepted := accepted, refused := refused }
  change ∃ v, poolStep t a = some v ∧ u.unrecorded = v.unrecorded
  simp only [poolStep_eq_some_iff]
  cases poolStep_eq_some_iff.mp h with
  | push hopen hfresh =>
    refine ⟨_, .push hopen hfresh, ?_⟩
    rw [push_unrecorded, push_unrecorded]
    rfl
  | turn hold hidle => exact ⟨_, .turn hold hidle, (turn_unrecorded s _ accepted refused).symm⟩
  | finish hold => exact ⟨_, .finish hold, rfl⟩
  | free hfirst => exact ⟨_, .free hfirst, rfl⟩
  | freeReturns hjoins hexited => exact ⟨_, .freeReturns hjoins hexited, rfl⟩

/-- A run with failing pushes does to the queue and to the threads what some run without does. -/
theorem faultyStep_simulated {a : FaultyAction τ} (hsame : s.unrecorded = t.unrecorded)
    (h : faultyStep s a = some u) :
    ∃ v, poolStep t a.asPool = some v ∧ u.unrecorded = v.unrecorded := by
  cases a with
  | pool action => exact poolStep_unrecorded hsame h
  | push task calls =>
    rw [faultyStep, Option.ite_none_right_eq_some] at h
    obtain ⟨⟨hopen, hfresh⟩, hu⟩ := h
    obtain rfl := Option.some.inj hu
    have hless : ∀ a ∈ (if calls.lock.isNone then calls.malloc else none),
        (s.pool.queue.nodes a).isNone := by
      intro a ha
      split_ifs at ha
      · exact hfresh a ha
      · cases ha
    have hstep : poolStep s (.push task (if calls.lock.isNone then calls.malloc else none)) =
        some (s.push task (if calls.lock.isNone then calls.malloc else none)) :=
      if_pos ⟨hopen, hless⟩
    obtain ⟨v, hv, hpushed⟩ := poolStep_unrecorded hsame hstep
    refine ⟨v, hv, .trans ?_ hpushed⟩
    rw [pushWith_unrecorded, push_unrecorded, pushResult_pool]

theorem run_simulated {actions : List (FaultyAction τ)} (hsame : s.unrecorded = t.unrecorded)
    (h : Run faultyStep s actions u) :
    ∃ v, Run poolStep t (actions.map FaultyAction.asPool) v ∧ u.unrecorded = v.unrecorded :=
  h.simulated (R := fun s t : PoolState τ => s.unrecorded = t.unrecorded) FaultyAction.asPool
    (fun _ _ _ _ => faultyStep_simulated) hsame

end Simulation

section Ownership

variable {s u : PoolState τ} {task : Option τ} {calls : PushCalls}

/-- The tasks that a worker is running or has run. -/
def PoolState.taken (s : PoolState τ) : List (ℕ × τ) := s.executed ++ s.running.map Prod.snd

/-- If the push returns an error, then it leaves the pool as it was, and no worker ever runs its
task. -/
def KeepsOwnership (s : PoolState τ) (task : Option τ) (calls : PushCalls) : Prop :=
  ∀ err, (pushResult s.pool (task.map fun task => (s.pushes, task)) calls).1 = some err →
    (s.pushWith task calls).pool = s.pool ∧
      ∀ later u, Run faultyStep (s.pushWith task calls) later u →
        ∀ taken ∈ u.taken, taken.1 ≠ s.pushes

theorem pushWith_pool (s : PoolState τ) (task : Option τ) (calls : PushCalls) :
    (s.pushWith task calls).pool =
      (pushResult s.pool (task.map fun task => (s.pushes, task)) calls).2 :=
  congrArg PoolState.pool (pushWith_unrecorded s task calls)

theorem poolStep_refused {a : PoolAction τ} (h : poolStep s a = some u) :
    s.refused ⊆ u.refused := by
  cases poolStep_eq_some_iff.mp h with
  | push =>
    unfold PoolState.push
    split
    · exact List.Subset.refl _
    · exact List.subset_append_left _ _
  | turn =>
    unfold PoolState.turn
    split <;> exact List.Subset.refl _
  | finish => exact List.Subset.refl _
  | free => exact List.Subset.refl _
  | freeReturns => exact List.Subset.refl _

/-- A call that was refused in a run without failures is not run later. -/
theorem refused_not_taken {numThreads : ℕ} {start t v : PoolState τ}
    {actions later : List (PoolAction τ)} (hinit : threadPoolInit numThreads = .ok start)
    (h : Run poolStep start actions t) (hlater : Run poolStep t later v) (call : ℕ × Option τ)
    (hcall : call ∈ t.refused) : ∀ taken ∈ v.taken, taken.1 ≠ call.1 := by
  obtain ⟨cells, hcells⟩ := disciplined_of_run hinit (h.append hlater)
  have hkept : call ∈ v.refused :=
    hlater.invariant (P := fun s => call ∈ s.refused) (A := fun _ => True)
      (fun _ _ _ _ hmem hstep => poolStep_refused hstep hmem) hcall fun _ _ => trivial
  exact fun taken htaken hsame =>
    (hcells.queueDiscipline.notRefused taken htaken).2 call hkept hsame.symm

/-- Where the pool stays as it was, the call might as well have had no callback. -/
theorem pushWith_unchanged {t : PoolState τ} (hsame : s.unrecorded = t.unrecorded)
    (hpool : (s.pushWith task calls).pool = s.pool) :
    (s.pushWith task calls).unrecorded = (t.push none none).unrecorded := by
  rw [pushWith_unrecorded, ← pushWith_pool, hpool, push_unrecorded, ← hsame]
  obtain ⟨accepted, refused, rfl⟩ := unrecorded_eq_iff.mp hsame
  rfl

/-- Of all pushes that return an error, in any state that a pool reaches, exactly those that have
linked their task before do not leave it to the caller. -/
theorem keepsOwnership_iff {numThreads : ℕ} {start : PoolState τ} {actions : List (FaultyAction τ)}
    (hinit : threadPoolInit numThreads = .ok start) (h : Run faultyStep start actions s)
    (hpush : (faultyStep s (.push task calls)).isSome) :
    KeepsOwnership s task calls ↔ ¬ LinksAndFails s.pool task calls := by
  have henabled : s.freePhase ≠ .returned ∧ ∀ a ∈ calls.malloc, (s.pool.queue.nodes a).isNone := by
    rw [faultyStep] at hpush
    split at hpush
    · assumption
    · cases hpush
  have hnumbered : LinksAndFails s.pool (task.map fun task => (s.pushes, task)) calls ↔
      LinksAndFails s.pool task calls := by
    simp [LinksAndFails]
  rw [← hnumbered]
  constructor
  · intro hkeeps hlinks
    obtain ⟨⟨err, herr⟩, value, -, addr, haddr, hpool⟩ := hlinks.result
    have hsame := (hkeeps err herr).1
    rw [pushWith_pool, hpool] at hsame
    have hqueue : s.pool.queue.append addr value = s.pool.queue := congrArg ThreadPool.queue hsame
    have hlinked := s.pool.queue.append_isSome addr value
    rw [hqueue, Option.isNone_iff_eq_none.mp (henabled.2 addr haddr)] at hlinked
    cases hlinked
  · intro hunlinked err herr
    have hpool : (s.pushWith task calls).pool = s.pool := by
      rw [pushWith_pool]
      exact pushResult_error herr hunlinked
    refine ⟨hpool, fun later u hlater => ?_⟩
    obtain ⟨t, hrun, hsame⟩ := run_simulated rfl h
    have hcall := pushWith_unchanged hsame hpool
    obtain ⟨v, hlater', hsame'⟩ := run_simulated hcall hlater
    have hopen : t.freePhase ≠ .returned := by
      obtain ⟨accepted, refused, rfl⟩ := unrecorded_eq_iff.mp hsame
      exact henabled.1
    have hrefused : poolStep t (.push none none) = some (t.push none none) :=
      if_pos ⟨hopen, by simp⟩
    have hnever := refused_not_taken hinit (hrun.next hrefused) hlater'
      (t.pushes, none) (List.mem_append_right _ (List.mem_singleton_self _))
    obtain ⟨accepted, refused, rfl⟩ := unrecorded_eq_iff.mp hsame
    obtain ⟨accepted', refused', rfl⟩ := unrecorded_eq_iff.mp hsame'
    exact hnever

end Ownership

/-- One worker and a push whose lock fails; the next one is made after the stop. -/
def refusedTwice : List (FaultyAction ℕ) :=
  [.push (some 7) ⟨some 20, some .io, none, none⟩, .push (some 8) ⟨some 20, none, none, none⟩,
    .pool (.turn 0), .pool .free]

theorem keepsOwnership_iff_refusedTwice :
    ∃ start s, threadPoolInit 1 = .ok start ∧ Run faultyStep start refusedTwice s ∧
      s.taken = [(1, 8)] ∧ (KeepsOwnership s (some 9) ⟨some 21, none, none, some .io⟩ ↔
        ¬ LinksAndFails s.pool (some 9) ⟨some 21, none, none, some .io⟩) := by
  let start : PoolState ℕ := ⟨⟨.empty, false⟩, [.ready], .notCalled, 0, [], [], [], []⟩
  have hinit : threadPoolInit 1 = .ok start := rfl
  obtain ⟨s, hs⟩ := Option.isSome_iff_exists.mp
    (by decide : (refusedTwice.foldlM faultyStep start).isSome)
  have htaken : (refusedTwice.foldlM faultyStep start).map PoolState.taken = some [(1, 8)] := by
    decide
  have hpush : ((refusedTwice.foldlM faultyStep start).bind fun s =>
      faultyStep s (.push (some 9) ⟨some 21, none, none, some .io⟩)).isSome := by
    decide
  rw [hs] at htaken hpush
  exact ⟨start, s, hinit, run_iff.mpr hs, Option.some.inj htaken,
    keepsOwnership_iff hinit (run_iff.mpr hs) hpush⟩

/-- The signal of a push fails, and the caller frees the context that the worker then uses. -/
theorem signalFails_taskRuns :
    ∃ start s u : PoolState ℕ, threadPoolInit 1 = .ok start ∧
      (pushResult start.pool (some (0, 7)) ⟨some 20, none, some .io, none⟩).1 = some .io ∧
      faultyStep start (.push (some 7) ⟨some 20, none, some .io, none⟩) = some s ∧
      s.refused = [(0, some 7)] ∧
      Run faultyStep s [.pool (.turn 0), .pool (.finish 0)] u ∧ u.executed = [(0, 7)] := by
  let start : PoolState ℕ := ⟨⟨.empty, false⟩, [.ready], .notCalled, 0, [], [], [], []⟩
  let calls : PushCalls := ⟨some 20, none, some .io, none⟩
  let s : PoolState ℕ := start.pushWith (some 7) calls
  obtain ⟨u, hu⟩ := Option.isSome_iff_exists.mp
    (by decide : ([.pool (.turn 0), .pool (.finish 0)].foldlM faultyStep s).isSome)
  have hexecuted : ([.pool (.turn 0), .pool (.finish 0)].foldlM faultyStep s).map
      PoolState.executed = some [(0, 7)] := by
    decide
  rw [hu] at hexecuted
  exact ⟨start, s, u, rfl, rfl, rfl, rfl, run_iff.mpr hu, Option.some.inj hexecuted⟩

end AbstractHttp.Concurrency
