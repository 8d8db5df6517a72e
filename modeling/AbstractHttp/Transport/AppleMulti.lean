import AbstractHttp.Library.Schedule
import AbstractHttp.Transport.AppleStream
import AbstractHttp.Transport.SendMulti

/-!
# Many requests through one run loop

`apple_multi_worker` opens a stream for each request, runs the run loop until a
counter of open streams is down to zero, and settles the futures.  What CFNetwork
and the allocator answer is a parameter.
-/
namespace AbstractHttp.Transport
open Library Http

/-- Which calls of `apple_multi_worker` succeed, for the request of an index, and what the header of
its response and its `on_chunk` say. -/
structure AppleCalls where
  statesAllocated : Bool
  streamsAllocated : Bool
  responseAllocated : ℕ → Bool
  responseInitialised : ℕ → Bool
  urlCreated : ℕ → Bool
  requestCreated : ℕ → Bool
  streamCreated : ℕ → Bool
  status : ℕ → Option Int32
  bodyAllocated : ℕ → Bool
  onChunk : ℕ → List (List UInt8) → ℤ

/-- The arrays of the worker, the responses in the futures and the counter. -/
structure AppleWorker where
  states : ℕ → AppleReqState
  streams : ℕ → Bool
  responses : ℕ → Option HttpResponse
  pending : ℤ

/-- `(int)n` for a `size_t`. -/
def intOfSize (n : ℕ) : ℤ := (n : ℤ).bmod (2 ^ 32)

/-- The least `int`. -/
def intMin : ℤ := -2 ^ 31

namespace AppleWorker

/-- Before the first request. -/
def start (count : ℕ) : AppleWorker where
  states := fun _ => .zero
  streams := fun _ => false
  responses := fun _ => none
  pending := intOfSize count

/-- A request that fails: its error is kept and `pending` counted down, which has no result below
the least `int`. -/
def fail (w : AppleWorker) (i : ℕ) (e : ErrorCode) : Option AppleWorker :=
  if w.pending = intMin then none
  else some { w with
    states := Function.update w.states i { w.states i with error := e.value }
    pending := w.pending - 1 }

/-- The streams that are open and not done. -/
def undone (w : AppleWorker) (count : ℕ) : ℕ :=
  ((Finset.range count).filter fun i => w.streams i = true ∧ (w.states i).done = false).card

end AppleWorker

/-- The loop body for one request, and whether the worker returns in the middle of it. -/
def setupRequest (calls : AppleCalls) (i : ℕ) (w : AppleWorker) : Option (AppleWorker × Bool) :=
  if calls.responseAllocated i = false then (w.fail i .nomem).map (·, false)
  else if calls.responseInitialised i = false then (w.fail i .nomem).map (·, true)
  else
    let w := { w with responses := Function.update w.responses i (some .init) }
    if calls.urlCreated i = false then (w.fail i .inval).map (·, false)
    else if calls.requestCreated i = false then (w.fail i .nomem).map (·, false)
    else if calls.streamCreated i = false then (w.fail i .nomem).map (·, false)
    else some ({ w with streams := Function.update w.streams i true }, false)

/-- The loop over `k` requests from index `i` on. -/
def setupRequests (calls : AppleCalls) : ℕ → ℕ → AppleWorker → Option (AppleWorker × Bool)
  | _, 0, w => some (w, false)
  | i, k + 1, w =>
    (setupRequest calls i w).bind fun (w, returned) =>
      if returned then some (w, true) else setupRequests calls (i + 1) k w

/-- The last loop of the worker: the future of index `i`. -/
def settleFuture (calls : AppleCalls) (w : AppleWorker) (i : ℕ) : HttpFuture HttpResponse :=
  if w.streams i ∧ (w.states i).error = 0 then
    let (response, rc) := appleExtractResponse (calls.bodyAllocated i) (calls.status i) (w.states i)
      ((w.responses i).getD .init)
    ⟨true, rc, some response⟩
  else ⟨true, (w.states i).error, w.responses i⟩

/-- Where the worker is: in the run loop, or returned with the futures as they then are, having come
by the last loop or not. An `int` may also have overflowed. -/
inductive AppleMulti where
  | overflowed
  | waiting (w : AppleWorker)
  | settled (w : AppleWorker) (futures : ℕ → HttpFuture HttpResponse)
  | abandoned (futures : ℕ → HttpFuture HttpResponse)

/-- What follows on `if (pending > 0)`. -/
def enterRunLoop (calls : AppleCalls) (w : AppleWorker) : AppleMulti :=
  if 0 < w.pending then .waiting w else .settled w (settleFuture calls w)

/-- `apple_multi_worker` up to the run loop. -/
def appleStart (calls : AppleCalls) (count : ℕ) : AppleMulti :=
  if calls.statesAllocated = false ∨ calls.streamsAllocated = false then .abandoned fun _ => .init
  else
    match setupRequests calls 0 count (.start count) with
    | none => .overflowed
    | some (w, true) => .abandoned fun i => ⟨false, 0, w.responses i⟩
    | some (w, false) => enterRunLoop calls w

/-- `on_chunk` of a request. -/
def requestOnChunk (calls : AppleCalls) (requests : List HttpRequest) (i : ℕ) : OnChunk :=
  if (requests[i]?).any HttpRequest.onChunk then some (calls.onChunk i) else none

/-- An event of the stream of index `i`, which is delivered while the worker is in the run loop.
When the last stream is done, the callback stops the run loop. -/
def appleStep (calls : AppleCalls) (requests : List HttpRequest) :
    AppleMulti → ℕ × StreamEvent → Option AppleMulti
  | .waiting w, (i, type) =>
    if w.streams i then
      let state := appleStreamCb (requestOnChunk calls requests i) (w.states i) type
      let w' := { w with states := Function.update w.states i state }
      if (w.states i).done = false ∧ state.done then
        some (enterRunLoop calls { w' with pending := w.pending - 1 })
      else some (.waiting w')
    else none
  | _, _ => none

/-- The events of one stream, in order. -/
def ownEvents (i : ℕ) (actions : List (ℕ × StreamEvent)) : List StreamEvent :=
  (actions.filter (·.1 = i)).map Prod.snd

section Setup

variable {calls : AppleCalls} {w w' : AppleWorker} {i k : ℕ}

/-- The stream of a request is opened. -/
def AppleCalls.opens (calls : AppleCalls) (i : ℕ) : Bool :=
  calls.responseAllocated i && calls.responseInitialised i && calls.urlCreated i &&
    calls.requestCreated i && calls.streamCreated i

/-- The worker returns in the middle of the loop at this request. -/
def AppleCalls.returnsAt (calls : AppleCalls) (i : ℕ) : Bool :=
  calls.responseAllocated i && !calls.responseInitialised i

/-- The requests below an index whose streams are opened. -/
def AppleCalls.opened (calls : AppleCalls) (i : ℕ) : ℕ :=
  ((Finset.range i).filter fun j => calls.opens j = true).card

theorem AppleCalls.opened_succ (calls : AppleCalls) (i : ℕ) :
    calls.opened (i + 1) = calls.opened i + if calls.opens i then 1 else 0 := by
  rw [opened, opened, Finset.range_add_one, Finset.filter_insert]
  split
  · rw [Finset.card_insert_of_notMem (by simp)]
  · rfl

/-- How a request below `i` has been left by the first loop, and one from `i` on is found. -/
structure SetUp (calls : AppleCalls) (i : ℕ) (w : AppleWorker) : Prop where
  streams : ∀ j, w.streams j = true ↔ j < i ∧ calls.opens j = true
  opened : ∀ j, w.streams j = true → w.states j = .zero ∧ w.responses j = some .init
  failed : ∀ j < i, w.streams j = false → (w.states j).error ≠ 0
  undone : ∀ j, (w.states j).done = false
  later : ∀ j, i ≤ j → w.states j = .zero

theorem setUp_start (calls : AppleCalls) (count : ℕ) : SetUp calls 0 (.start count) where
  streams j := by simp [AppleWorker.start]
  opened j hj := by simp [AppleWorker.start] at hj
  failed j hj := by simp at hj
  undone j := rfl
  later j _ := rfl

/-- What the loop body does with a request: the counter overflows, the worker returns, the request
fails, or its stream is opened. -/
inductive SetupMove (calls : AppleCalls) (i : ℕ) (w : AppleWorker) :
    Option (AppleWorker × Bool) → Prop where
  | overflow (hopens : calls.opens i = false) (hmin : w.pending = intMin) :
      SetupMove calls i w none
  | returned (hreturns : calls.returnsAt i = true) (w' : AppleWorker) :
      SetupMove calls i w (some (w', true))
  | failed (hreturns : calls.returnsAt i = false) (hopens : calls.opens i = false)
      (hmin : w.pending ≠ intMin) (e : ErrorCode) (responses : ℕ → Option HttpResponse)
      (hresponses : ∀ j ≠ i, responses j = w.responses j) :
      SetupMove calls i w (some ({ w with
        states := Function.update w.states i { w.states i with error := e.value }
        responses := responses
        pending := w.pending - 1 }, false))
  | opened (hopens : calls.opens i = true) (hreturns : calls.returnsAt i = false) :
      SetupMove calls i w (some ({ w with
        responses := Function.update w.responses i (some .init)
        streams := Function.update w.streams i true }, false))

theorem setupRequest_moves (calls : AppleCalls) (i : ℕ) (w : AppleWorker) :
    SetupMove calls i w (setupRequest calls i w) := by
  have hsame : ∀ j ≠ i, w.responses j = w.responses j := fun _ _ => rfl
  have hupdated : ∀ j ≠ i, Function.update w.responses i (some .init) j = w.responses j :=
    fun j hj => Function.update_of_ne hj _ _
  have hfail (e : ErrorCode) {responses : ℕ → Option HttpResponse}
      (hresponses : ∀ j ≠ i, responses j = w.responses j) (hopens : calls.opens i = false)
      (hreturns : calls.returnsAt i = false) :
      SetupMove calls i w
        ((AppleWorker.fail { w with responses := responses } i e).map (·, false)) := by
    by_cases hmin : w.pending = intMin
    · rw [AppleWorker.fail, if_pos hmin]
      exact .overflow hopens hmin
    · rw [AppleWorker.fail, if_neg hmin]
      exact .failed hreturns hopens hmin e responses hresponses
  rw [setupRequest]
  cases hresponse : calls.responseAllocated i with
  | false =>
    exact hfail .nomem hsame (by simp [AppleCalls.opens, hresponse])
      (by simp [AppleCalls.returnsAt, hresponse])
  | true =>
    cases hinit : calls.responseInitialised i with
    | false =>
      have hopens : calls.opens i = false := by simp [AppleCalls.opens, hinit]
      have hreturns : calls.returnsAt i = true := by simp [AppleCalls.returnsAt, hresponse, hinit]
      by_cases hmin : w.pending = intMin
      · rw [AppleWorker.fail, if_pos hmin]
        exact .overflow hopens hmin
      · rw [AppleWorker.fail, if_neg hmin]
        exact .returned hreturns _
    | true =>
      have hreturns : calls.returnsAt i = false := by simp [AppleCalls.returnsAt, hinit]
      cases hurl : calls.urlCreated i with
      | false => exact hfail .inval hupdated (by simp [AppleCalls.opens, hurl]) hreturns
      | true =>
        cases hrequest : calls.requestCreated i with
        | false => exact hfail .nomem hupdated (by simp [AppleCalls.opens, hrequest]) hreturns
        | true =>
          cases hstream : calls.streamCreated i with
          | false => exact hfail .nomem hupdated (by simp [AppleCalls.opens, hstream]) hreturns
          | true =>
            have hopens : calls.opens i = true := by
              simp [AppleCalls.opens, hresponse, hinit, hurl, hrequest, hstream]
            exact .opened hopens hreturns

/-- A request that fails gets an error, and the others stay as they are. -/
theorem SetUp.next_of_failed (h : SetUp calls i w) (hopens : calls.opens i = false)
    (e : ErrorCode) {responses : ℕ → Option HttpResponse}
    (hresponses : ∀ j ≠ i, responses j = w.responses j) (pending : ℤ) :
    SetUp calls (i + 1) { w with
      states := Function.update w.states i { w.states i with error := e.value }
      responses := responses
      pending := pending } := by
  have hkept : ∀ j ≠ i, Function.update w.states i { w.states i with error := e.value } j =
      w.states j := fun j hj => Function.update_of_ne hj _ _
  refine ⟨fun j => ?_, fun j hj => ?_, fun j hj hstream => ?_, fun j => ?_, fun j hj => ?_⟩
  · rw [h.streams j]
    refine ⟨fun hj => ⟨by omega, hj.2⟩, fun hj => ⟨?_, hj.2⟩⟩
    have hne : j ≠ i := fun hji => Bool.false_ne_true (hopens.symm.trans (hji ▸ hj.2))
    omega
  · have hne : j ≠ i := ((h.streams j).mp hj).1.ne
    dsimp only
    rw [hkept j hne, hresponses j hne]
    exact h.opened j hj
  · dsimp only
    by_cases hji : j = i
    · rw [hji, Function.update_self]
      exact e.value_ne_zero
    · rw [hkept j hji]
      exact h.failed j (by omega) hstream
  · dsimp only
    by_cases hji : j = i
    · rw [hji, Function.update_self]
      exact h.undone i
    · rw [hkept j hji]
      exact h.undone j
  · dsimp only
    rw [hkept j (by omega)]
    exact h.later j (by omega)

/-- A request whose stream is opened gets a fresh response. -/
theorem SetUp.next_of_opened (h : SetUp calls i w) (hopens : calls.opens i = true) :
    SetUp calls (i + 1) { w with
      responses := Function.update w.responses i (some .init)
      streams := Function.update w.streams i true } := by
  refine ⟨fun j => ?_, fun j hj => ?_, fun j hj hstream => ?_, h.undone,
    fun j hj => h.later j (by omega)⟩
  · by_cases hji : j = i
    · simp [hji, hopens]
    · dsimp only
      rw [Function.update_of_ne hji, h.streams j]
      exact and_congr_left fun _ => by omega
  · by_cases hji : j = i
    · simp [hji, h.later i le_rfl]
    · dsimp only at hj ⊢
      rw [Function.update_of_ne hji] at hj ⊢
      exact h.opened j hj
  · by_cases hji : j = i
    · simp [hji] at hstream
    · dsimp only at hstream ⊢
      rw [Function.update_of_ne hji] at hstream
      exact h.failed j (by omega) hstream

/-- The loop body goes on to the next request. -/
theorem SetUp.next (h : SetUp calls i w) (hnext : setupRequest calls i w = some (w', false)) :
    SetUp calls (i + 1) w' ∧
      w'.pending = w.pending - (if calls.opens i then 0 else 1) ∧
      (w.pending = intMin → calls.opens i = true) := by
  have hmove := setupRequest_moves calls i w
  rw [hnext] at hmove
  cases hmove with
  | failed hreturns hopens hmin e responses hresponses =>
    exact ⟨h.next_of_failed hopens e hresponses _, by simp [hopens],
      fun hpending => absurd hpending hmin⟩
  | opened hopens hreturns =>
    exact ⟨h.next_of_opened hopens, by simp [hopens], fun _ => hopens⟩

/-- A first loop that comes to its end has set every request up. -/
theorem SetUp.all (h : SetUp calls i w) (hall : setupRequests calls i k w = some (w', false)) :
    SetUp calls (i + k) w' := by
  induction k generalizing i w with
  | zero =>
    cases hall
    exact h
  | succ k ih =>
    rw [setupRequests, Option.bind_eq_some_iff] at hall
    obtain ⟨⟨w₁, returned⟩, hfirst, hrest⟩ := hall
    cases returned with
    | true => cases hrest
    | false =>
      rw [show i + (k + 1) = i + 1 + k by omega]
      exact ih (h.next hfirst).1 hrest

/-- Where no request makes the worker return, the first loop comes to its end, or the counter
overflows, which it does not while it is above the least `int` by the number of requests left. -/
theorem setupRequests_prepares (calls : AppleCalls)
    (hreturns : ∀ j, i ≤ j → j < i + k → calls.returnsAt j = false)
    (h : SetUp calls i w) (hmin : intMin ≤ w.pending) :
    (∃ w', setupRequests calls i k w = some (w', false) ∧ intMin ≤ w'.pending ∧
        w'.pending + k = w.pending + calls.opened (i + k) - calls.opened i) ∨
      setupRequests calls i k w = none ∧ w.pending < intMin + k := by
  induction k generalizing i w with
  | zero => exact Or.inl ⟨w, rfl, hmin, by simp⟩
  | succ k ih =>
    have hmove := setupRequest_moves calls i w
    have hstay := hreturns i le_rfl (by omega)
    rw [setupRequests]
    cases hfirst : setupRequest calls i w with
    | none =>
      rw [hfirst] at hmove
      cases hmove with
      | overflow hopens hleast =>
        refine Or.inr ⟨rfl, ?_⟩
        rw [hleast]
        omega
    | some result =>
      obtain ⟨w', returned⟩ := result
      cases returned with
      | true =>
        rw [hfirst] at hmove
        cases hmove with
        | returned hleaves => exact absurd (hstay.symm.trans hleaves) Bool.false_ne_true
      | false =>
        obtain ⟨hnext, hpending, hroom⟩ := h.next hfirst
        have hopened := calls.opened_succ i
        have hmin' : intMin ≤ w'.pending := by
          cases hopens : calls.opens i with
          | true => simpa [hpending, hopens] using hmin
          | false =>
            have hne : w.pending ≠ intMin := fun heq => by
              rw [hroom heq] at hopens
              contradiction
            rw [hopens] at hpending
            simp only [Bool.false_eq_true, if_false] at hpending
            omega
        have hlater : ∀ j, i + 1 ≤ j → j < i + 1 + k → calls.returnsAt j = false :=
          fun j hle hlt => hreturns j (by omega) (by omega)
        rw [show i + (k + 1) = i + 1 + k by omega]
        simp only [Option.bind_some, Bool.false_eq_true, if_false]
        rcases ih hlater hnext hmin' with ⟨w'', hrest, hleast, hcount⟩ | ⟨hrest, hlow⟩
        · refine Or.inl ⟨w'', hrest, hleast, ?_⟩
          rw [hopened] at hcount
          cases hopens : calls.opens i <;> simp [hopens] at hpending hcount <;> push_cast <;> omega
        · refine Or.inr ⟨hrest, ?_⟩
          cases hopens : calls.opens i <;> simp [hopens] at hpending <;> push_cast <;> omega

/-- A request that makes the worker return lets the first loop end there, if not before. -/
theorem setupRequests_returns (calls : AppleCalls) (w : AppleWorker)
    (hreturns : ∃ j, i ≤ j ∧ j < i + k ∧ calls.returnsAt j = true) :
    setupRequests calls i k w = none ∨ ∃ w', setupRequests calls i k w = some (w', true) := by
  induction k generalizing i w with
  | zero =>
    obtain ⟨j, hle, hlt, -⟩ := hreturns
    omega
  | succ k ih =>
    have hmove := setupRequest_moves calls i w
    rw [setupRequests]
    cases hfirst : setupRequest calls i w with
    | none => exact Or.inl rfl
    | some result =>
      obtain ⟨w', returned⟩ := result
      cases returned with
      | true => exact Or.inr ⟨w', rfl⟩
      | false =>
        have hstay : calls.returnsAt i = false := by
          rw [hfirst] at hmove
          cases hmove with
          | failed hstay => exact hstay
          | opened _ hstay => exact hstay
        obtain ⟨j, hle, hlt, hj⟩ := hreturns
        have hne : j ≠ i := by
          rintro rfl
          rw [hstay] at hj
          contradiction
        exact ih w' ⟨j, by omega, by omega, hj⟩

/-- When all requests are set up, the open streams are the ones opened. -/
theorem SetUp.undone_eq (h : SetUp calls i w) : w.undone i = calls.opened i := by
  rw [AppleWorker.undone, AppleCalls.opened]
  congr 1
  apply Finset.filter_congr
  intro j hj
  rw [h.streams j, h.undone j]
  simp [Finset.mem_range.mp hj]

end Setup

section Runs

variable {calls : AppleCalls} {requests : List HttpRequest} {w : AppleWorker} {i count : ℕ}
  {actions : List (ℕ × StreamEvent)} {type : StreamEvent} {t : AppleMulti}

/-- The state of a request after the events of its own stream. -/
def ownState (calls : AppleCalls) (requests : List HttpRequest)
    (actions : List (ℕ × StreamEvent)) (i : ℕ) : AppleReqState :=
  appleStream (requestOnChunk calls requests i) (ownEvents i actions)

theorem ownState_append_self (calls : AppleCalls) (requests : List HttpRequest)
    (actions : List (ℕ × StreamEvent)) (i : ℕ) (type : StreamEvent) :
    ownState calls requests (actions ++ [(i, type)]) i =
      appleStreamCb (requestOnChunk calls requests i) (ownState calls requests actions i) type := by
  rw [ownState, ownState, ← appleStream_append]
  simp [ownEvents]

theorem ownState_append_of_ne (calls : AppleCalls) (requests : List HttpRequest)
    (actions : List (ℕ × StreamEvent)) {i j : ℕ} (h : j ≠ i) (type : StreamEvent) :
    ownState calls requests (actions ++ [(i, type)]) j = ownState calls requests actions j := by
  simp [ownState, ownEvents, h.symm]

/-- The open streams have seen their own events, and the other requests have failed. -/
structure Follows (calls : AppleCalls) (requests : List HttpRequest)
    (actions : List (ℕ × StreamEvent)) (w : AppleWorker) : Prop where
  streams : ∀ j, w.streams j = true ↔ j < requests.length ∧ calls.opens j = true
  own : ∀ j, w.streams j = true →
    w.states j = ownState calls requests actions j ∧ w.responses j = some .init
  failed : ∀ j < requests.length, w.streams j = false → (w.states j).error ≠ 0

theorem SetUp.follows (h : SetUp calls requests.length w) : Follows calls requests [] w :=
  ⟨h.streams, h.opened, h.failed⟩

/-- An event is seen by the request of its stream. -/
theorem Follows.event (h : Follows calls requests actions w) (hopen : w.streams i = true)
    (type : StreamEvent) (pending : ℤ) :
    Follows calls requests (actions ++ [(i, type)]) { w with
      states := Function.update w.states i
        (appleStreamCb (requestOnChunk calls requests i) (w.states i) type)
      pending := pending } where
  streams := h.streams
  own j hj := by
    obtain ⟨hstate, hresponse⟩ := h.own j hj
    refine ⟨?_, hresponse⟩
    by_cases hji : j = i
    · subst hji
      rw [ownState_append_self, ← hstate]
      exact Function.update_self ..
    · rw [ownState_append_of_ne calls requests actions hji, ← hstate]
      exact Function.update_of_ne hji _ _
  failed j hj hstream := by
    have hji : j ≠ i := by
      rintro rfl
      exact Bool.false_ne_true (hstream.symm.trans hopen)
    dsimp only
    rw [Function.update_of_ne hji]
    exact h.failed j hj hstream

/-- A request that gets done is one less that is not. -/
theorem undone_of_done {state : AppleReqState} (pending : ℤ) (hi : i < count)
    (hopen : w.streams i = true) (hbefore : (w.states i).done = false)
    (hdone : state.done = true) :
    AppleWorker.undone { w with states := Function.update w.states i state, pending := pending }
      count + 1 = w.undone count := by
  have hset : ((Finset.range count).filter fun j => w.streams j = true ∧
      (Function.update w.states i state j).done = false) =
      ((Finset.range count).filter fun j =>
        w.streams j = true ∧ (w.states j).done = false).erase i := by
    ext j
    rw [Finset.mem_erase, Finset.mem_filter, Finset.mem_filter]
    by_cases hji : j = i
    · simp [hji, hdone]
    · simp [hji]
  rw [AppleWorker.undone, AppleWorker.undone, hset]
  exact Finset.card_erase_add_one (by simp [hi, hopen, hbefore])

theorem undone_of_same {state : AppleReqState} (hsame : state.done = (w.states i).done) :
    AppleWorker.undone { w with states := Function.update w.states i state } count =
      w.undone count := by
  rw [AppleWorker.undone, AppleWorker.undone]
  congr 1
  apply Finset.filter_congr
  intro j _
  by_cases hji : j = i
  · simp [hji, hsame]
  · simp [hji]

/-- Along a run, the requests follow their own streams. -/
def Tracks (calls : AppleCalls) (requests : List HttpRequest)
    (actions : List (ℕ × StreamEvent)) : AppleMulti → Prop
  | .waiting w => Follows calls requests actions w
  | .settled w futures => Follows calls requests actions w ∧ futures = settleFuture calls w
  | _ => True

theorem enterRunLoop_tracks (h : Follows calls requests actions w) :
    Tracks calls requests actions (enterRunLoop calls w) := by
  rw [enterRunLoop]
  split
  · exact h
  · exact ⟨h, rfl⟩

theorem appleStep_tracks {u : AppleMulti} (h : Tracks calls requests actions t)
    (hstep : appleStep calls requests t (i, type) = some u) :
    Tracks calls requests (actions ++ [(i, type)]) u := by
  cases t with
  | overflowed => cases hstep
  | settled => cases hstep
  | abandoned => cases hstep
  | waiting w =>
    simp only [appleStep] at hstep
    split_ifs at hstep with hopen hdone
    · obtain rfl := Option.some.inj hstep
      exact enterRunLoop_tracks (h.event hopen type _)
    · obtain rfl := Option.some.inj hstep
      exact h.event hopen type w.pending

theorem appleStart_tracks (calls : AppleCalls) (requests : List HttpRequest) :
    Tracks calls requests [] (appleStart calls requests.length) := by
  rw [appleStart]
  split_ifs with harrays
  · trivial
  · split
    next => trivial
    next => trivial
    next w hsetup =>
      have hready := (setUp_start calls requests.length).all hsetup
      rw [Nat.zero_add] at hready
      exact enterRunLoop_tracks hready.follows

theorem run_tracks
    (h : Run (appleStep calls requests) (appleStart calls requests.length) actions t) :
    Tracks calls requests actions t := by
  induction h with
  | start => exact appleStart_tracks calls requests
  | next hrun hstep ih => exact appleStep_tracks ih hstep

/-- In the run loop the counter is the number of streams that are not done, and once it is left
there is none. -/
def Counts (count : ℕ) : AppleMulti → Prop
  | .waiting w => w.pending = w.undone count ∧ 0 < w.undone count
  | .settled w _ => w.undone count = 0
  | _ => False

theorem enterRunLoop_counts (hpending : w.pending = w.undone count) :
    Counts count (enterRunLoop calls w) := by
  rw [enterRunLoop]
  split
  next hpos => exact ⟨hpending, by omega⟩
  next hpos =>
    rw [Counts]
    omega

theorem appleStep_counts {u : AppleMulti} (htracks : Tracks calls requests actions t)
    (h : Counts requests.length t) (hstep : appleStep calls requests t (i, type) = some u) :
    Counts requests.length u := by
  cases t with
  | overflowed => cases hstep
  | settled => cases hstep
  | abandoned => cases hstep
  | waiting w =>
    obtain ⟨hpending, hpos⟩ := h
    simp only [appleStep] at hstep
    split_ifs at hstep with hopen hdone
    · obtain rfl := Option.some.inj hstep
      have hlt := ((htracks.streams i).mp hopen).1
      refine enterRunLoop_counts ?_
      have hless := undone_of_done (w.pending - 1) hlt hopen hdone.1 hdone.2
      dsimp only
      omega
    · obtain rfl := Option.some.inj hstep
      have hsame : (appleStreamCb (requestOnChunk calls requests i) (w.states i) type).done =
          (w.states i).done := by
        cases hbefore : (w.states i).done with
        | true => rw [appleStreamCb_of_done hbefore, hbefore]
        | false => simpa [hbefore] using hdone
      refine ⟨?_, ?_⟩
      · exact hpending.trans (congrArg Nat.cast (undone_of_same hsame).symm)
      · exact hpos.trans_eq (undone_of_same hsame).symm

theorem run_counts (hstart : Counts requests.length (appleStart calls requests.length))
    (h : Run (appleStep calls requests) (appleStart calls requests.length) actions t) :
    Counts requests.length t := by
  induction h with
  | start => exact hstart
  | next hrun hstep ih => exact appleStep_counts (run_tracks hrun) ih hstep

theorem start_pending (count : ℕ) : (AppleWorker.start count).pending = intOfSize count := by
  simp only [AppleWorker.start]

theorem intMin_eq : intMin = -2147483648 := by norm_num [intMin]

theorem intOfSize_of_lt {n : ℕ} (h : n < 2 ^ 31) : intOfSize n = n := by
  norm_num at h
  exact Int.bmod_eq_of_le (by norm_num) (by norm_num; omega)

/-- A size that is no `int` becomes a number that is less by at least `2 ^ 32`. -/
theorem intOfSize_add_le {n : ℕ} (h : 2 ^ 31 ≤ n) : intOfSize n + 2 ^ 32 ≤ n := by
  have hlt := Int.bmod_lt (x := (n : ℤ)) (m := 2 ^ 32) (by norm_num)
  have hsum := Int.bmod_add_bdiv (n : ℤ) (2 ^ 32)
  have hle : (2 : ℤ) ^ 31 ≤ n := by exact_mod_cast h
  unfold intOfSize
  generalize (n : ℤ).bmod (2 ^ 32) = r at *
  generalize (n : ℤ).bdiv (2 ^ 32) = q at *
  norm_num at hle hlt hsum ⊢
  have hq : 1 ≤ q := by
    by_contra hq
    have hnonpos : q ≤ 0 := by omega
    linarith
  linarith

theorem intMin_le_intOfSize (n : ℕ) : intMin ≤ intOfSize n := by
  have hle := Int.le_bmod (x := (n : ℤ)) (m := 2 ^ 32) (by norm_num)
  unfold intMin intOfSize
  generalize (n : ℤ).bmod (2 ^ 32) = r at *
  norm_num at hle ⊢
  exact hle

theorem appleStart_of_setup (hstates : calls.statesAllocated = true)
    (hstreams : calls.streamsAllocated = true)
    (hsetup : setupRequests calls 0 count (.start count) = some (w, false)) :
    appleStart calls count = enterRunLoop calls w := by
  rw [appleStart, if_neg (by simp [hstates, hstreams]), hsetup]

/-- The first loop over all requests, of which none makes the worker return. -/
theorem setup_all (hreturns : ∀ i < count, calls.returnsAt i = false) :
    (∃ w, setupRequests calls 0 count (.start count) = some (w, false) ∧ SetUp calls count w ∧
        intMin ≤ w.pending ∧ w.pending + count = intOfSize count + calls.opened count) ∨
      setupRequests calls 0 count (.start count) = none ∧ intOfSize count < intMin + count := by
  have hstart := start_pending count
  have hzero : calls.opened 0 = 0 := rfl
  have hbegin := setUp_start calls count
  have hall : ∀ j, 0 ≤ j → j < 0 + count → calls.returnsAt j = false :=
    fun j _ hj => hreturns j (by omega)
  rcases setupRequests_prepares calls hall hbegin
    ((intMin_le_intOfSize count).trans_eq hstart.symm) with
    ⟨w, hsetup, hleast, hcount⟩ | ⟨hsetup, hlow⟩
  · rw [hstart, hzero, Nat.zero_add] at hcount
    have hready := hbegin.all hsetup
    rw [Nat.zero_add] at hready
    exact Or.inl ⟨w, hsetup, hready, hleast, by simpa using hcount⟩
  · rw [hstart] at hlow
    exact Or.inr ⟨hsetup, hlow⟩

theorem appleStart_counts (hstates : calls.statesAllocated = true)
    (hstreams : calls.streamsAllocated = true) (hlt : count < 2 ^ 31)
    (hreturns : ∀ i < count, calls.returnsAt i = false) :
    Counts count (appleStart calls count) := by
  have hstart := intOfSize_of_lt hlt
  have hmin := intMin_eq
  rcases setup_all hreturns with ⟨w, hsetup, hready, -, hcount⟩ | ⟨-, hlow⟩
  · rw [appleStart_of_setup hstates hstreams hsetup]
    refine enterRunLoop_counts ?_
    rw [hready.undone_eq]
    omega
  · norm_num at hlt
    omega

/-- The response has been extracted from the stream of the request, which has come to its end. -/
def Extracted (calls : AppleCalls) (requests : List HttpRequest)
    (actions : List (ℕ × StreamEvent)) (i : ℕ) (res : HttpResponse) : Prop :=
  calls.opens i = true ∧ (ownState calls requests actions i).done = true ∧
    (ownState calls requests actions i).error = 0 ∧
    appleExtractResponse (calls.bodyAllocated i) (calls.status i)
      (ownState calls requests actions i) .init = (res, 0)

/-- Every future is ready, and one without an error has the response of its own stream. -/
def FuturesSettled (calls : AppleCalls) (requests : List HttpRequest)
    (actions : List (ℕ × StreamEvent)) (futures : ℕ → HttpFuture HttpResponse) : Prop :=
  ∀ i < requests.length, (futures i).isReady = true ∧
    ((futures i).errorCode = 0 →
      ∃ res, (futures i).response = some res ∧ Extracted calls requests actions i res)

/-- In every order of events, the counter is the number of streams not yet done while the worker
waits, the run loop is left when and only when there is none, and the worker returns with every
future settled. -/
def AppleSettles (calls : AppleCalls) (requests : List HttpRequest) : Prop :=
  ∀ actions t, Run (appleStep calls requests) (appleStart calls requests.length) actions t →
    match t with
    | .overflowed => False
    | .waiting w => w.pending = w.undone requests.length ∧ 0 < w.undone requests.length
    | .settled w futures => w.undone requests.length = 0 ∧
        FuturesSettled calls requests actions futures
    | .abandoned futures => FuturesSettled calls requests actions futures

theorem Follows.settled (h : Follows calls requests actions w)
    (hundone : w.undone requests.length = 0) :
    FuturesSettled calls requests actions (settleFuture calls w) := by
  intro i hi
  rw [settleFuture]
  split
  next hgood =>
    obtain ⟨hopen, herror⟩ := hgood
    obtain ⟨hstate, hresponse⟩ := h.own i hopen
    refine ⟨rfl, fun hrc => ⟨_, rfl, ((h.streams i).mp hopen).2, ?_, ?_, ?_⟩⟩
    · rw [← hstate]
      by_contra hnot
      have hmem : i ∈ (Finset.range requests.length).filter fun j =>
          w.streams j = true ∧ (w.states j).done = false := by simpa [hi, hopen] using hnot
      rw [Finset.card_eq_zero.mp hundone] at hmem
      simp at hmem
    · rw [← hstate]
      exact herror
    · rw [← hstate]
      refine Prod.ext ?_ ?_
      · simp [hresponse]
      · simpa [hresponse] using hrc
  next hbad =>
    refine ⟨rfl, fun hrc => ?_⟩
    cases hopen : w.streams i with
    | true => exact absurd ⟨hopen, hrc⟩ hbad
    | false => exact absurd hrc (h.failed i hi hopen)

/-- A worker that has returned takes no event. -/
theorem run_from_abandoned {futures : ℕ → HttpFuture HttpResponse}
    (h : Run (appleStep calls requests) (.abandoned futures) actions t) :
    t = .abandoned futures := by
  induction h with
  | start => rfl
  | next _ hstep ih =>
    rw [ih] at hstep
    cases hstep

/-- With more requests than an `int` counts, the counter overflows or is wrong from the start. -/
theorem not_appleSettles_of_le (hle : 2 ^ 31 ≤ requests.length)
    (hstates : calls.statesAllocated = true) (hstreams : calls.streamsAllocated = true)
    (hreturns : ∀ i < requests.length, calls.returnsAt i = false) :
    ¬ AppleSettles calls requests := by
  intro h
  have hless := intOfSize_add_le hle
  have hmin := intMin_eq
  have hstarted := h [] _ .start
  rcases setup_all hreturns with ⟨w, hsetup, hready, hleast, hcount⟩ | ⟨hsetup, -⟩
  · have hundone := hready.undone_eq
    rw [appleStart_of_setup hstates hstreams hsetup, enterRunLoop] at hstarted
    split_ifs at hstarted with hpos
    · obtain ⟨hpending, -⟩ := hstarted
      norm_num at hless
      omega
    · obtain ⟨hnone, -⟩ := hstarted
      norm_num at hless
      omega
  · rw [appleStart, if_neg (by simp [hstates, hstreams]), hsetup] at hstarted
    exact hstarted

/-- The worker returns early: its futures are not ready. -/
theorem not_appleSettles_of_abandoned {futures : ℕ → HttpFuture HttpResponse}
    (hstart : appleStart calls requests.length = .abandoned futures)
    (hi : i < requests.length) (hready : (futures i).isReady = false) :
    ¬ AppleSettles calls requests := by
  intro h
  have hstarted := h [] _ .start
  rw [hstart] at hstarted
  exact Bool.false_ne_true (hready.symm.trans (hstarted i hi).1)

theorem not_appleSettles_of_arrays (hne : requests ≠ [])
    (harrays : calls.statesAllocated = false ∨ calls.streamsAllocated = false) :
    ¬ AppleSettles calls requests :=
  not_appleSettles_of_abandoned (by rw [appleStart, if_pos harrays])
    (List.length_pos_iff.mpr hne) rfl

theorem not_appleSettles_of_returnsAt (hstates : calls.statesAllocated = true)
    (hstreams : calls.streamsAllocated = true) (hi : i < requests.length)
    (hreturns : calls.returnsAt i = true) : ¬ AppleSettles calls requests := by
  have hinside : ∃ j, 0 ≤ j ∧ j < 0 + requests.length ∧ calls.returnsAt j = true :=
    ⟨i, Nat.zero_le i, by omega, hreturns⟩
  have hend := setupRequests_returns calls (.start requests.length) hinside
  have hstart : appleStart calls requests.length =
      match setupRequests calls 0 requests.length (.start requests.length) with
      | none => .overflowed
      | some (w, true) => .abandoned fun i => ⟨false, 0, w.responses i⟩
      | some (w, false) => enterRunLoop calls w := by
    rw [appleStart, if_neg (by simp [hstates, hstreams])]
  rcases hend with hsetup | ⟨w, hsetup⟩
  · intro h
    have hstarted := h [] _ .start
    rw [hstart, hsetup] at hstarted
    exact hstarted
  · rw [hsetup] at hstart
    exact not_appleSettles_of_abandoned hstart hi rfl

theorem appleSettles_of_counts
    (hstart : Counts requests.length (appleStart calls requests.length)) :
    AppleSettles calls requests := by
  intro actions t hrun
  have hcounts := run_counts hstart hrun
  have htracks := run_tracks hrun
  cases t with
  | overflowed => exact hcounts
  | waiting w => exact hcounts
  | settled w futures =>
    obtain ⟨hfollows, rfl⟩ := htracks
    exact ⟨hcounts, hfollows.settled hcounts⟩
  | abandoned futures => exact hcounts.elim

theorem appleSettles_nil (calls : AppleCalls) : AppleSettles calls [] := by
  by_cases harrays : calls.statesAllocated = false ∨ calls.streamsAllocated = false
  · intro actions t hrun
    have hstart : appleStart calls 0 = .abandoned fun _ => .init := by
      rw [appleStart, if_pos harrays]
    rw [List.length_nil, hstart] at hrun
    rw [run_from_abandoned hrun]
    intro i hi
    exact absurd hi (Nat.not_lt_zero i)
  · rw [not_or, Bool.not_eq_false, Bool.not_eq_false] at harrays
    exact appleSettles_of_counts (appleStart_counts harrays.1 harrays.2 (by norm_num)
      fun i hi => absurd hi (Nat.not_lt_zero i))

/-- The futures of a multi-request are settled exactly when there is no request, or the arrays are
allocated, the number of requests is an `int`, and every response allocated is initialised. -/
theorem appleSettles_iff (calls : AppleCalls) (requests : List HttpRequest) :
    AppleSettles calls requests ↔
      requests = [] ∨
        calls.statesAllocated = true ∧ calls.streamsAllocated = true ∧
          requests.length < 2 ^ 31 ∧
          ∀ i < requests.length,
            calls.responseAllocated i = true → calls.responseInitialised i = true := by
  have hreturnsAt (i : ℕ) : calls.returnsAt i = false ↔
      (calls.responseAllocated i = true → calls.responseInitialised i = true) := by
    cases hresponse : calls.responseAllocated i <;> cases hinit : calls.responseInitialised i <;>
      simp [AppleCalls.returnsAt, hresponse, hinit]
  simp only [← hreturnsAt]
  constructor
  · intro h
    by_cases hne : requests = []
    · exact Or.inl hne
    have harrays : ¬ (calls.statesAllocated = false ∨ calls.streamsAllocated = false) :=
      fun harrays => not_appleSettles_of_arrays hne harrays h
    rw [not_or, Bool.not_eq_false, Bool.not_eq_false] at harrays
    obtain ⟨hstates, hstreams⟩ := harrays
    have hreturns : ∀ i < requests.length, calls.returnsAt i = false := by
      intro i hi
      by_contra hreturns
      exact not_appleSettles_of_returnsAt hstates hstreams hi (by simpa using hreturns) h
    refine Or.inr ⟨hstates, hstreams, ?_, hreturns⟩
    by_contra hle
    exact not_appleSettles_of_le (not_lt.mp hle) hstates hstreams hreturns h
  · rintro (rfl | ⟨hstates, hstreams, hlt, hreturns⟩)
    · exact appleSettles_nil calls
    · exact appleSettles_of_counts (appleStart_counts hstates hstreams hlt hreturns)

/-- An event comes from a stream that is open. -/
theorem run_opens
    (h : Run (appleStep calls requests) (appleStart calls requests.length) actions t)
    (hmem : (i, type) ∈ actions) : i < requests.length ∧ calls.opens i = true := by
  induction h with
  | start => cases hmem
  | @next actions t u action hrun hstep ih =>
    rcases List.mem_append.mp hmem with hold | hlast
    · exact ih hold
    · obtain rfl := List.mem_singleton.mp hlast
      have htracks := run_tracks hrun
      cases t with
      | overflowed => cases hstep
      | settled => cases hstep
      | abandoned => cases hstep
      | waiting w =>
        rw [appleStep] at hstep
        split_ifs at hstep with hopen
        exact (htracks.streams i).mp hopen

/-- What the worker leaves in the future of a request without `on_chunk` whose stream has delivered
blocks and ended. -/
theorem settled_blocks {request : HttpRequest} {blocks : List (List UInt8)}
    {futures : ℕ → HttpFuture HttpResponse}
    (h : Run (appleStep calls requests) (appleStart calls requests.length) actions
      (.settled w futures))
    (hrequest : requests[i]? = some request) (hchunk : request.onChunk = false)
    (hbody : calls.bodyAllocated i = true) (hblocks : ReadBlocks blocks)
    (hevents : ownEvents i actions = blockEvents blocks) :
    futures i = ⟨true, 0, some (appleExtractResponse true (calls.status i)
      (appleStream none (blockEvents blocks)) .init).1⟩ := by
  obtain ⟨hfollows, rfl⟩ := run_tracks h
  have hmem : (i, StreamEvent.endEncountered) ∈ actions := by
    have hlast : StreamEvent.endEncountered ∈ ownEvents i actions := by
      rw [hevents, blockEvents]
      exact List.mem_append_right _ List.mem_cons_self
    obtain ⟨⟨j, type⟩, haction, rfl⟩ := List.mem_map.mp hlast
    obtain ⟨hin, hj⟩ := List.mem_filter.mp haction
    obtain rfl : j = i := by simpa using hj
    exact hin
  have hopen := (hfollows.streams i).mpr (run_opens h hmem)
  obtain ⟨hstate, hresponse⟩ := hfollows.own i hopen
  have hnone : requestOnChunk calls requests i = none := by
    simp [requestOnChunk, hrequest, hchunk]
  rw [ownState, hevents, hnone] at hstate
  have herror : (w.states i).error = 0 := by rw [hstate, appleStream_blockEvents hblocks]
  have hrc := (hasBody_appleExtractResponse (calls.status i)
    (appleStream none (blockEvents blocks)) []).1
  rw [settleFuture, if_pos ⟨hopen, herror⟩, hstate, hresponse, hbody]
  exact congrArg (fun rc => (⟨true, rc, _⟩ : HttpFuture HttpResponse)) hrc

/-- The blocks of a stream become the body of the response, from `http_apple_send` and in every run
of the worker, exactly when there is at most one block, while `on_chunk` is given all of them. -/
theorem appleBody_iff (blocks : List (List UInt8)) (hblocks : ReadBlocks blocks) :
    (appleStream (some fun _ => 0) (blockEvents blocks)).passed = blocks ∧
      (∀ status, (∃ res, appleSend none true status (blockEvents blocks) = some (.ok res) ∧
        HasBody res blocks.flatten) ↔ blocks.length ≤ 1) ∧
      ∀ calls requests i request actions w futures,
        Run (appleStep calls requests) (appleStart calls requests.length) actions
          (.settled w futures) →
        requests[i]? = some request → request.onChunk = false → calls.bodyAllocated i = true →
        ownEvents i actions = blockEvents blocks →
        ((futures i).errorCode = 0 ∧
          (∃ res, (futures i).response = some res ∧ HasBody res blocks.flatten) ↔
            blocks.length ≤ 1) := by
  refine ⟨appleStream_blockEvents_passed hblocks, fun status => appleSend_body_iff status hblocks,
    fun calls requests i request actions w futures hrun hrequest hchunk hbody hevents => ?_⟩
  rw [settled_blocks hrun hrequest hchunk hbody hblocks hevents,
    ← appleExtractResponse_blocks (calls.status i) hblocks]
  constructor
  · rintro ⟨-, res, hres, hbytes⟩
    rw [Option.some.inj hres]
    exact hbytes
  · exact fun hbytes => ⟨rfl, _, rfl, hbytes⟩

theorem appleBody_iff_twoBlocks :
    ReadBlocks [[65], [66]] ∧
      ¬ ∃ res, appleSend none true (some 200) (blockEvents [[65], [66]]) = some (.ok res) ∧
        HasBody res [65, 66] := by
  have hblocks : ReadBlocks [[65], [66]] := by simp [ReadBlocks]
  refine ⟨hblocks, fun hbody => ?_⟩
  have hlen := ((appleBody_iff [[65], [66]] hblocks).2.1 (some 200)).mp hbody
  simp at hlen

/-- A response that comes in two blocks has the second one as its body. -/
theorem appleSend_forgets_block :
    ∃ res, appleSend none true (some 200) (blockEvents [[65], [66]]) = some (.ok res) ∧
      HasBody res [66] ∧ ¬ HasBody res [65, 66] := by
  refine ⟨{ HttpResponse.init with statusCode := 200, body := some [66, 0], bodyLen := 1 }, ?_⟩
  simp [HasBody]
  decide

end Runs

/-- Every call succeeds but the one that allocates the array of states. -/
def noStates : AppleCalls where
  statesAllocated := false
  streamsAllocated := true
  responseAllocated := fun _ => true
  responseInitialised := fun _ => true
  urlCreated := fun _ => true
  requestCreated := fun _ => true
  streamCreated := fun _ => true
  status := fun _ => some 200
  bodyAllocated := fun _ => true
  onChunk := fun _ _ => 0

theorem not_appleSettles_noStates : ¬ AppleSettles noStates [.init] :=
  not_appleSettles_of_arrays (by simp) (Or.inl rfl)

end AbstractHttp.Transport
