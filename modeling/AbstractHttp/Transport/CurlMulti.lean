import AbstractHttp.Http.Types
import AbstractHttp.Library.Ledger

/-!
# Many requests through a multi handle

`http_curl_send_multi` makes a task with an easy handle for each request and leaves it to the
future of the request. Where one request fails it takes back what it made for all of them. What
the allocator and libcurl answer is a parameter, and a call without a result is one that uses a
pointer that points to nothing.
-/
namespace AbstractHttp.Transport
open Library Http

inductive CurlKind where
  | task
  | easy
  | memory
  | headers
  deriving DecidableEq, Repr

/-- A pointer to what there was before the call, or to what the call makes for the request of an
index. -/
inductive CurlPointer where
  | earlier (address : ℕ)
  | own (kind : CurlKind) (i : ℕ)
  deriving DecidableEq, Repr

/-- `struct CurlMultiTask`, `none` for NULL; `memory` is that of its `write_ctx.chunk`. -/
structure CurlMultiTask where
  easy : Option CurlPointer
  headers : Option CurlPointer
  memory : Option CurlPointer
  future : Option ℕ
  req : Option HttpRequest

/-- What `calloc` makes. -/
def CurlMultiTask.zero : CurlMultiTask := ⟨none, none, none, none, none⟩

/-- A request with the address of its future. No string of a header is NULL, as `http_headers_add`
leaves them. -/
structure FutureRequest where
  request : HttpRequest
  future : ℕ
  filled : request.headers.Filled

/-- The calls made for one request that succeed; those for a header are given its index. -/
structure CurlRequestCalls where
  taskAllocated : Bool
  handleDuplicated : Bool
  memoryAllocated : Bool
  headerFormatted : ℕ → Bool
  headerAppended : ℕ → Bool
  writeFunctionSet : Bool
  writeDataSet : Bool
  privateSet : Bool
  handleAdded : Bool

/-- Whether the arguments are given, not NULL, and which calls succeed. -/
structure CurlMultiCalls where
  argumentsGiven : Bool
  socketFunctionSet : Bool
  socketDataSet : Bool
  timerFunctionSet : Bool
  timerDataSet : Bool
  request : ℕ → CurlRequestCalls

/-- What the call made and released, the tasks, the `internal_state` of each future and the easy
handles in the multi handle. -/
structure CurlMulti where
  ledger : Ledger CurlPointer
  tasks : ℕ → CurlMultiTask
  futures : ℕ → Option CurlPointer
  handles : List CurlPointer

namespace CurlMulti

/-- Before the call. -/
def start (futures : ℕ → Option ℕ) (handles : List ℕ) : CurlMulti where
  ledger := .empty
  tasks := fun _ => .zero
  futures := fun address => (futures address).map .earlier
  handles := handles.map .earlier

def setTask (s : CurlMulti) (i : ℕ) (task : CurlMultiTask) : CurlMulti :=
  { s with tasks := Function.update s.tasks i task }

def setFuture (s : CurlMulti) (address : ℕ) (p : Option CurlPointer) : CurlMulti :=
  { s with futures := Function.update s.futures address p }

def create (s : CurlMulti) (kind : CurlKind) (i : ℕ) : CurlMulti :=
  { s with ledger := s.ledger.create (.own kind i) }

def free (s : CurlMulti) (bs : List CurlPointer) : Option CurlMulti :=
  (s.ledger.releaseAll bs).map fun ledger => { s with ledger }

/-- `curl_slist_free_all` of the headers of a task and `free` of its memory. -/
def freeData (s : CurlMulti) (i : ℕ) : Option CurlMulti :=
  s.free ((s.tasks i).headers.toList ++ (s.tasks i).memory.toList)

/-- `curl_easy_cleanup` of the handle of a task, which must not be in the multi handle, and `free`
of the task. -/
def freeTask (s : CurlMulti) (i : ℕ) : Option CurlMulti :=
  if (s.tasks i).easy.any (· ∈ s.handles) then none
  else s.free ((s.tasks i).easy.toList ++ [.own .task i])

/-- What a request that fails does with its own task. -/
def abandon (s : CurlMulti) (i address : ℕ) : Option CurlMulti := do
  let s ← s.freeData i
  let s ← s.freeTask i
  return s.setFuture address none

/-- `ABSTRACT_HTTP_CURL_SLIST_APPEND`, where it succeeds. -/
def appendHeader (s : CurlMulti) (i : ℕ) : CurlMulti :=
  if (s.tasks i).headers.isSome then s
  else
    (s.create .headers i).setTask i { s.tasks i with headers := some (.own .headers i) }

/-- The task that the `internal_state` of a future points to. -/
def taskOf (s : CurlMulti) (address : ℕ) : Option ℕ :=
  match s.futures address with
  | some (.own .task i) =>
    if .own .task i ∈ s.ledger.created ∧ .own .task i ∉ s.ledger.released then some i else none
  | _ => none

/-- `ABSTRACT_HTTP_CURL_MULTI_REMOVE_HANDLE`. -/
def removeHandle (s : CurlMulti) (i : ℕ) : CurlMulti :=
  { s with handles := s.handles.filter fun p => some p ≠ (s.tasks i).easy }

end CurlMulti

/-- The headers of `setup_curl_request` from index `k` on. -/
def setupHeaders (calls : CurlRequestCalls) (i : ℕ) :
    ℕ → List HttpHeader → CurlMulti → Option (CurlMulti × Option ErrorCode)
  | _, [], s => some (s, none)
  | k, h :: rest, s =>
    if h.key.isSome && h.value.isSome then
      if calls.headerFormatted k && calls.headerAppended k then
        setupHeaders calls i (k + 1) rest (s.appendHeader i)
      else do
        let s ← s.free (s.tasks i).headers.toList
        return (s.setTask i { s.tasks i with headers := none }, some .nomem)
    else none

/-- `setup_curl_request`, without the options of the easy handle that it sets unchecked. -/
def setupCurlRequest (calls : CurlRequestCalls) (req : HttpRequest) (i : ℕ) (s : CurlMulti) :
    Option (CurlMulti × Option ErrorCode) :=
  if req.partsCount > 0 ∧ req.body = none then some (s, some .inval)
  else if !calls.memoryAllocated then some (s, some .nomem)
  else do
    let s := (s.create .memory i).setTask i { s.tasks i with memory := some (.own .memory i) }
    let (s, error) ← setupHeaders calls i 0 req.headers.headers s
    if error.isSome then return (s, error)
    else if !calls.writeFunctionSet then return (s, some .io)
    else if !calls.writeDataSet then return (s, some .io)
    else return (s, none)

/-- The loop body of `http_curl_send_multi`. -/
def addRequest (calls : CurlRequestCalls) (r : FutureRequest) (i : ℕ) (s : CurlMulti) :
    Option (CurlMulti × Option ErrorCode) :=
  if !calls.taskAllocated then some (s, some .nomem)
  else if !calls.handleDuplicated then do
    let s ← ((s.create .task i).setTask i .zero).free [.own .task i]
    return (s, some .nomem)
  else do
    let s := ((s.create .task i).create .easy i).setTask i
      { CurlMultiTask.zero with
        easy := some (.own .easy i), future := some r.future, req := some r.request }
    let s := s.setFuture r.future (some (.own .task i))
    let (s, error) ← setupCurlRequest calls r.request i s
    if error.isSome then (s.abandon i r.future).map (·, error)
    else if !calls.privateSet then (s.abandon i r.future).map (·, some .io)
    else if !calls.handleAdded then (s.abandon i r.future).map (·, some .io)
    else return ({ s with handles := s.handles ++ [.own .easy i] }, none)

/-- The loop of `http_curl_send_multi` from index `i` on, with the index at which it stops. -/
def addRequests (calls : ℕ → CurlRequestCalls) :
    ℕ → List FutureRequest → CurlMulti → Option (CurlMulti × ℕ × Option ErrorCode)
  | i, [], s => some (s, i, none)
  | i, r :: rest, s => do
    let (s, error) ← addRequest (calls i) r i s
    if error.isSome then return (s, i, error)
    else addRequests calls (i + 1) rest s

/-- The cleanup of `http_curl_send_multi`. -/
def rollBack : List FutureRequest → CurlMulti → Option CurlMulti
  | [], s => some s
  | r :: rest, s => do
    let i ← s.taskOf r.future
    let s ← s.freeData i
    let s ← (s.removeHandle i).freeTask i
    rollBack rest s

/-- `http_curl_send_multi`: the state it leaves, with the error that it returns. -/
def curlSendMulti (calls : CurlMultiCalls) (requests : List FutureRequest) (s : CurlMulti) :
    Option (CurlMulti × Option ErrorCode) :=
  if !calls.argumentsGiven then some (s, some .inval)
  else if !calls.socketFunctionSet then some (s, some .io)
  else if !calls.socketDataSet then some (s, some .io)
  else if !calls.timerFunctionSet then some (s, some .io)
  else if !calls.timerDataSet then some (s, some .io)
  else do
    let (s, i, error) ← addRequests calls.request 0 requests s
    if error.isSome then (rollBack (requests.take i) s).map (·, error)
    else return (s, none)

/-- Every call of `setup_curl_request` succeeds. -/
structure CurlRequestCalls.SetsUp (calls : CurlRequestCalls) (req : HttpRequest) : Prop where
  body : ¬ (req.partsCount > 0 ∧ req.body = none)
  memory : calls.memoryAllocated = true
  headers : ∀ k < req.headers.count,
    calls.headerFormatted k = true ∧ calls.headerAppended k = true
  writeFunction : calls.writeFunctionSet = true
  writeData : calls.writeDataSet = true

/-- Every call made for a request succeeds. -/
structure CurlRequestCalls.Passes (calls : CurlRequestCalls) (req : HttpRequest) : Prop where
  task : calls.taskAllocated = true
  handle : calls.handleDuplicated = true
  setup : calls.SetsUp req
  priv : calls.privateSet = true
  added : calls.handleAdded = true

/-- The loop of `http_curl_send_multi` is reached. -/
structure CurlMultiCalls.Starts (calls : CurlMultiCalls) : Prop where
  arguments : calls.argumentsGiven = true
  socketFunction : calls.socketFunctionSet = true
  socketData : calls.socketDataSet = true
  timerFunction : calls.timerFunctionSet = true
  timerData : calls.timerDataSet = true

/-! What a task owns. -/

/-- The pointers of a task point to what was made for it. -/
structure CurlMultiTask.OwnedBy (task : CurlMultiTask) (i : ℕ) : Prop where
  easy : ∀ p ∈ task.easy, p = .own .easy i
  headers : ∀ p ∈ task.headers, p = .own .headers i
  memory : ∀ p ∈ task.memory, p = .own .memory i

/-- All that `freeData` and `freeTask` release. -/
def CurlMultiTask.blocks (task : CurlMultiTask) (i : ℕ) : List CurlPointer :=
  (task.headers.toList ++ task.memory.toList) ++ (task.easy.toList ++ [.own .task i])

/-- Nothing was made for the requests from index `i` on. -/
def CurlMulti.Fresh (s : CurlMulti) (i : ℕ) : Prop :=
  ∀ kind k, i ≤ k → .own kind k ∉ s.ledger.created

section Tasks

variable {task : CurlMultiTask} {s base : CurlMulti} {i : ℕ}

theorem toList_of_forall_eq {o : Option CurlPointer} {q : CurlPointer} (h : ∀ p ∈ o, p = q) :
    o.toList = [] ∨ o.toList = [q] := by
  cases o with
  | none => exact .inl rfl
  | some p => exact .inr (congrArg (fun p => [p]) (h p rfl))

theorem CurlMultiTask.OwnedBy.own (h : task.OwnedBy i) {p : CurlPointer} (hp : p ∈ task.blocks i) :
    ∃ kind, p = .own kind i := by
  simp only [CurlMultiTask.blocks, List.mem_append, Option.mem_toList, List.mem_singleton] at hp
  rcases hp with (hp | hp) | (hp | hp)
  · exact ⟨_, h.headers p hp⟩
  · exact ⟨_, h.memory p hp⟩
  · exact ⟨_, h.easy p hp⟩
  · exact ⟨_, hp⟩

theorem CurlMultiTask.OwnedBy.nodup (h : task.OwnedBy i) : (task.blocks i).Nodup := by
  rw [CurlMultiTask.blocks]
  rcases toList_of_forall_eq h.easy with heasy | heasy <;>
    rcases toList_of_forall_eq h.headers with hheaders | hheaders <;>
    rcases toList_of_forall_eq h.memory with hmemory | hmemory <;>
    simp [heasy, hheaders, hmemory]

theorem CurlMultiTask.OwnedBy.index_eq {other : CurlMultiTask} {k : ℕ} (h : task.OwnedBy i)
    (hother : other.OwnedBy k) {p : CurlPointer} (hp : p ∈ task.blocks i)
    (hp' : p ∈ other.blocks k) : i = k := by
  obtain ⟨_, rfl⟩ := h.own hp
  obtain ⟨_, hsame⟩ := hother.own hp'
  exact (CurlPointer.own.inj hsame).2

theorem CurlMulti.mem_removeHandle {p : CurlPointer} :
    p ∈ (s.removeHandle i).handles ↔ p ∈ s.handles ∧ some p ≠ (s.tasks i).easy := by
  simp [removeHandle]

/-- What a task owns is released in two steps, once its handle is not in the multi handle. -/
theorem CurlMulti.freeTask_of_held (howned : (s.tasks i).OwnedBy i)
    (hheld : ∀ b ∈ (s.tasks i).blocks i, b ∈ s.ledger.held) {handles : List CurlPointer}
    (hremoved : ∀ p ∈ (s.tasks i).easy, p ∉ handles) :
    ∃ mid ledger, s.freeData i = some { s with ledger := mid } ∧
      freeTask { s with ledger := mid, handles } i = some { s with ledger, handles } ∧
      ledger.created = s.ledger.created ∧
      ledger.held = s.ledger.held \ {b | b ∈ (s.tasks i).blocks i} := by
  have hnodup := howned.nodup
  rw [CurlMultiTask.blocks] at hheld hnodup ⊢
  obtain ⟨hdata, htask, hdisjoint⟩ := List.nodup_append'.mp hnodup
  obtain ⟨mid, hmid, hcreated, hheldMid⟩ :=
    Ledger.releaseAll_of_held hdata fun b hb => hheld b (List.mem_append_left _ hb)
  have hrest : ∀ b ∈ (s.tasks i).easy.toList ++ [.own .task i], b ∈ mid.held := by
    intro b hb
    rw [hheldMid]
    exact ⟨hheld b (List.mem_append_right _ hb), fun hfreed => hdisjoint hfreed hb⟩
  obtain ⟨ledger, hledger, hcreated', hheldAll⟩ := Ledger.releaseAll_of_held htask hrest
  refine ⟨mid, ledger, ?_, ?_, hcreated'.trans hcreated, ?_⟩
  · rw [freeData, free, hmid]
    rfl
  · have hout : ((s.tasks i).easy.any (· ∈ handles)) = false := by
      cases heasy : (s.tasks i).easy with
      | none => rfl
      | some p => exact decide_eq_false (hremoved p heasy)
    rw [freeTask, hout, if_neg Bool.false_ne_true, free, hledger]
    rfl
  · rw [hheldAll, hheldMid, Set.sdiff_sdiff]
    congr 1
    ext b
    exact List.mem_append.symm

/-- What the loop body did so far for the request of index `i`: the tasks of the others are as they
were, and beside what was held its task holds what it owns. -/
structure During (base : CurlMulti) (i : ℕ) (s : CurlMulti) : Prop where
  tasks : ∀ k, k ≠ i → s.tasks k = base.tasks k
  futures : s.futures = base.futures
  handles : s.handles = base.handles
  created : ∀ b ∈ s.ledger.created, b ∈ base.ledger.created ∨ ∃ kind, b = .own kind i
  owned : (s.tasks i).OwnedBy i
  easy : (s.tasks i).easy = some (.own .easy i)
  held : s.ledger.held = base.ledger.held ∪ {b | b ∈ (s.tasks i).blocks i}

/-- One more thing is made for the task. -/
theorem During.create (h : During base i s) {kind : CurlKind}
    (hfresh : .own kind i ∉ s.ledger.created) (howned : task.OwnedBy i)
    (heasy : task.easy = some (.own .easy i))
    (hblocks : ∀ b, b ∈ task.blocks i ↔ b = .own kind i ∨ b ∈ (s.tasks i).blocks i) :
    During base i ((s.create kind i).setTask i task) where
  tasks k hk := (Function.update_of_ne hk _ _).trans (h.tasks k hk)
  futures := h.futures
  handles := h.handles
  created b hb := by
    rcases List.mem_append.mp hb with hb | hb
    · exact h.created b hb
    · exact .inr ⟨kind, List.mem_singleton.mp hb⟩
  owned := by simpa [CurlMulti.setTask] using howned
  easy := by simpa [CurlMulti.setTask] using heasy
  held := by
    change (s.ledger.create (.own kind i)).held = _
    rw [Ledger.held_create hfresh, h.held]
    ext b
    simp only [CurlMulti.setTask, Function.update_self, Set.mem_insert_iff, Set.mem_union,
      Set.mem_ofPred_eq, hblocks]
    exact or_left_comm

theorem During.appendHeader (h : During base i s)
    (hfresh : (s.tasks i).headers = none → .own .headers i ∉ s.ledger.created) :
    During base i (s.appendHeader i) ∧ ((s.appendHeader i).tasks i).headers ≠ none := by
  rw [CurlMulti.appendHeader]
  cases hheaders : (s.tasks i).headers with
  | some p => exact ⟨h, by simp [hheaders]⟩
  | none =>
    refine ⟨h.create (hfresh hheaders) ⟨h.owned.easy, by simp, h.owned.memory⟩ h.easy fun b => ?_,
      by simp [CurlMulti.setTask]⟩
    simp [CurlMultiTask.blocks, hheaders]

/-- The headers that were made are released where a header fails. -/
theorem During.freeHeaders (h : During base i s) (hbase : base.Fresh i) :
    ∃ t, s.free (s.tasks i).headers.toList = some t ∧
      During base i (t.setTask i { t.tasks i with headers := none }) := by
  have hblocks : ∀ b ∈ (s.tasks i).headers.toList, b ∈ s.ledger.held := by
    intro b hb
    rw [h.held]
    exact .inr (List.mem_append_left _ (List.mem_append_left _ hb))
  have hnodup := h.owned.nodup
  rw [CurlMultiTask.blocks, List.append_assoc] at hnodup
  obtain ⟨hheaders, -, hdisjoint⟩ := List.nodup_append'.mp hnodup
  obtain ⟨ledger, hledger, hcreated, hheld⟩ := Ledger.releaseAll_of_held hheaders hblocks
  refine ⟨{ s with ledger }, by rw [CurlMulti.free, hledger]; rfl, ?_⟩
  refine ⟨fun k hk => (Function.update_of_ne hk _ _).trans (h.tasks k hk), h.futures, h.handles,
    fun b hb => h.created b (hcreated ▸ hb), ?_, ?_, ?_⟩
  · simpa [CurlMulti.setTask] using ⟨h.owned.easy, by simp, h.owned.memory⟩
  · simpa [CurlMulti.setTask] using h.easy
  · change ledger.held = _
    rw [hheld, h.held]
    ext b
    simp only [CurlMulti.setTask, Function.update_self, Set.mem_sdiff, Set.mem_union,
      Set.mem_ofPred_eq, CurlMultiTask.blocks, Option.toList_none, List.nil_append,
      List.append_assoc, List.mem_append (s := (s.tasks i).headers.toList)]
    constructor
    · rintro ⟨hb | hb | hb, hout⟩
      · exact .inl hb
      · exact absurd hb hout
      · exact .inr hb
    · rintro (hb | hb)
      · refine ⟨.inl hb, fun hheader => ?_⟩
        obtain rfl := h.owned.headers b (Option.mem_toList.mp hheader)
        exact hbase _ i le_rfl hb.1
      · exact ⟨.inr (.inr hb), fun hheader => hdisjoint hheader hb⟩

/-- The headers are all appended, or the list is given back. -/
theorem setupHeaders_spec (calls : CurlRequestCalls) (hbase : base.Fresh i) {k : ℕ}
    {hs : List HttpHeader} (hfilled : ∀ h ∈ hs, ∃ key value, h = ⟨some key, some value⟩)
    (h : During base i s)
    (hfresh : (s.tasks i).headers = none → .own .headers i ∉ s.ledger.created) :
    ∃ t error, setupHeaders calls i k hs s = some (t, error) ∧ During base i t ∧
      (error = none ↔ ∀ j < hs.length,
        calls.headerFormatted (k + j) = true ∧ calls.headerAppended (k + j) = true) := by
  induction hs generalizing k s with
  | nil => exact ⟨s, none, rfl, h, by simp⟩
  | cons header rest ih =>
    obtain ⟨⟨key, value, rfl⟩, hrest⟩ := List.forall_mem_cons.mp hfilled
    have hcons : (∀ j < rest.length + 1,
        calls.headerFormatted (k + j) = true ∧ calls.headerAppended (k + j) = true) ↔
        (calls.headerFormatted k = true ∧ calls.headerAppended k = true) ∧
          ∀ j < rest.length, calls.headerFormatted (k + 1 + j) = true ∧
            calls.headerAppended (k + 1 + j) = true := by
      rw [Nat.forall_lt_succ_left]
      simp only [Nat.add_zero, Nat.add_assoc, Nat.add_comm 1]
    rw [List.length_cons, hcons, setupHeaders, if_pos (by rfl)]
    by_cases hpass : calls.headerFormatted k = true ∧ calls.headerAppended k = true
    · obtain ⟨hduring, hheaders⟩ := h.appendHeader hfresh
      obtain ⟨t, error, hrun, ht, herror⟩ :=
        ih (k := k + 1) hrest hduring fun hnone => absurd hnone hheaders
      refine ⟨t, error, ?_, ht, herror.trans (and_iff_right hpass).symm⟩
      rw [if_pos (by simpa using hpass), hrun]
    · obtain ⟨t, hfree, ht⟩ := h.freeHeaders hbase
      refine ⟨_, some .nomem, ?_, ht, by simp [hpass]⟩
      rw [if_neg (by simpa using hpass), hfree]
      rfl

theorem setupCurlRequest_spec (calls : CurlRequestCalls) (hbase : base.Fresh i) {req : HttpRequest}
    (hfilled : req.headers.Filled) (h : During base i s) (hmemory : (s.tasks i).memory = none)
    (hheaders : (s.tasks i).headers = none) (hfreshMemory : .own .memory i ∉ s.ledger.created)
    (hfreshHeaders : .own .headers i ∉ s.ledger.created) :
    ∃ t error, setupCurlRequest calls req i s = some (t, error) ∧ During base i t ∧
      (error = none ↔ calls.SetsUp req) := by
  have hduring : During base i
      ((s.create .memory i).setTask i { s.tasks i with memory := some (.own .memory i) }) := by
    refine h.create hfreshMemory ⟨h.owned.easy, h.owned.headers, by simp⟩ h.easy fun b => ?_
    simp [CurlMultiTask.blocks, hmemory, hheaders]
  obtain ⟨t, error, hrun, ht, herror⟩ := setupHeaders_spec calls hbase (k := 0) hfilled hduring
    fun _ => by simpa [CurlMulti.setTask, CurlMulti.create, Ledger.create] using hfreshHeaders
  simp only [Nat.zero_add] at herror
  rw [setupCurlRequest]
  by_cases hbody : req.partsCount > 0 ∧ req.body = none
  · rw [if_pos hbody]
    exact ⟨s, _, rfl, h, iff_of_false (by simp) fun hset => hset.body hbody⟩
  rw [if_neg hbody]
  cases hmem : calls.memoryAllocated with
  | false => exact ⟨s, _, rfl, h, iff_of_false (by simp) fun hset => by simp [hset.memory] at hmem⟩
  | true =>
    rw [if_neg (by simp)]
    simp only [hrun, Option.bind_eq_bind, Option.bind_some, Option.pure_def]
    cases error with
    | some e =>
      refine ⟨t, _, rfl, ht, iff_of_false (by simp) fun hset => ?_⟩
      cases herror.mpr hset.headers
    | none =>
      cases hfunction : calls.writeFunctionSet with
      | false =>
        exact ⟨t, _, rfl, ht, iff_of_false (by simp) fun hset => by
          simp [hset.writeFunction] at hfunction⟩
      | true =>
        cases hdata : calls.writeDataSet with
        | false =>
          exact ⟨t, _, rfl, ht, iff_of_false (by simp) fun hset => by
            simp [hset.writeData] at hdata⟩
        | true =>
          exact ⟨t, _, rfl, ht, iff_of_true rfl ⟨hbody, hmem, herror.mp rfl, hfunction, hdata⟩⟩

/-- A request that fails leaves everything else as it was, and holds nothing. -/
structure Undone (base : CurlMulti) (address i : ℕ) (s : CurlMulti) : Prop where
  tasks : ∀ k, k ≠ i → s.tasks k = base.tasks k
  futures : ∀ other, other ≠ address → s.futures other = base.futures other
  future : s.futures address = none ∨ s.futures address = base.futures address
  handles : s.handles = base.handles
  created : ∀ b ∈ s.ledger.created, b ∈ base.ledger.created ∨ ∃ kind, b = .own kind i
  held : s.ledger.held = base.ledger.held

/-- A request that passes has its task, which its future points to, and its handle in the multi
handle. -/
structure Added (base : CurlMulti) (address i : ℕ) (s : CurlMulti) : Prop where
  tasks : ∀ k, k ≠ i → s.tasks k = base.tasks k
  futures : ∀ other, other ≠ address → s.futures other = base.futures other
  future : s.futures address = some (.own .task i)
  handles : s.handles = base.handles ++ [.own .easy i]
  created : ∀ b ∈ s.ledger.created, b ∈ base.ledger.created ∨ ∃ kind, b = .own kind i
  owned : (s.tasks i).OwnedBy i
  easy : (s.tasks i).easy = some (.own .easy i)
  held : s.ledger.held = base.ledger.held ∪ {b | b ∈ (s.tasks i).blocks i}

variable {address : ℕ}

theorem During.abandon (hbase : base.Fresh i) (hhandle : .own .easy i ∉ base.handles)
    (h : During (base.setFuture address (some (.own .task i))) i s) :
    ∃ t, s.abandon i address = some t ∧ Undone base address i t := by
  have hblocks : ∀ b ∈ (s.tasks i).blocks i, b ∈ s.ledger.held := by
    intro b hb
    rw [h.held]
    exact .inr hb
  have hremoved : ∀ p ∈ (s.tasks i).easy, p ∉ s.handles := by
    intro p hp
    obtain rfl := h.owned.easy p hp
    rw [h.handles]
    exact hhandle
  obtain ⟨mid, ledger, hdata, htask, hcreated, hheld⟩ :=
    CurlMulti.freeTask_of_held h.owned hblocks hremoved
  refine ⟨CurlMulti.setFuture { s with ledger } address none, ?_, ?_⟩
  · rw [CurlMulti.abandon, hdata, Option.bind_eq_bind, Option.bind_some, htask]
    rfl
  · refine ⟨h.tasks, fun other hother => ?_, .inl (Function.update_self _ _ _), h.handles,
      fun b hb => h.created b (hcreated ▸ hb), ?_⟩
    · refine (Function.update_of_ne hother _ _).trans ?_
      rw [h.futures]
      exact Function.update_of_ne hother _ _
    · change ledger.held = _
      rw [hheld, h.held, Set.union_sdiff_right]
      refine sdiff_eq_left.mpr (Set.disjoint_left.mpr fun b hb hown => ?_)
      obtain ⟨kind, rfl⟩ := h.owned.own hown
      exact hbase kind i le_rfl hb.1

/-- A task without a handle is all that a failed duplication leaves. -/
theorem undone_of_taskOnly (address : ℕ) (hbase : base.Fresh i) :
    ∃ t, ((base.create .task i).setTask i .zero).free [.own .task i] = some t ∧
      Undone base address i t := by
  have hfresh := hbase .task i le_rfl
  have hcreate := Ledger.held_create hfresh
  obtain ⟨ledger, hledger, hcreated, hheld⟩ := Ledger.releaseAll_of_held
    (l := base.ledger.create (.own .task i)) (List.nodup_singleton (.own .task i))
    (by simp [hcreate])
  refine ⟨{ (base.create .task i).setTask i .zero with ledger }, ?_, ?_⟩
  · rw [CurlMulti.free]
    change Option.map _ ((base.ledger.create (.own .task i)).releaseAll _) = _
    rw [hledger]
    rfl
  · refine ⟨fun k hk => Function.update_of_ne hk _ _, fun _ _ => rfl, .inr rfl, rfl,
      fun b hb => ?_, ?_⟩
    · rcases List.mem_append.mp (hcreated ▸ hb) with hb | hb
      · exact .inl hb
      · exact .inr ⟨.task, List.mem_singleton.mp hb⟩
    · change ledger.held = _
      have hout : .own .task i ∉ base.ledger.held := fun hin => hfresh hin.1
      rw [hheld, hcreate]
      simpa using Set.insert_sdiff_self_of_notMem hout

/-- The task with its handle, in front of the setup. -/
theorem during_of_duplicated (address : ℕ) (hbase : base.Fresh i)
    (htask : task.easy = some (.own .easy i)) (hheaders : task.headers = none)
    (hmemory : task.memory = none) :
    During (base.setFuture address (some (.own .task i))) i
      ((((base.create .task i).create .easy i).setTask i task).setFuture address
        (some (.own .task i))) := by
  have heasy : .own .easy i ∉ (base.ledger.create (.own .task i)).created := by
    simpa [Ledger.create] using hbase .easy i le_rfl
  refine ⟨fun k hk => Function.update_of_ne hk _ _, rfl, rfl, fun b hb => ?_, ?_, ?_, ?_⟩
  · simp only [CurlMulti.setFuture, CurlMulti.setTask, CurlMulti.create, Ledger.create,
      List.append_assoc, List.mem_append, List.mem_singleton] at hb
    rcases hb with hb | rfl | rfl
    · exact .inl hb
    · exact .inr ⟨_, rfl⟩
    · exact .inr ⟨_, rfl⟩
  · simp only [CurlMulti.setFuture, CurlMulti.setTask, Function.update_self]
    exact ⟨by simp [htask], by simp [hheaders], by simp [hmemory]⟩
  · simpa only [CurlMulti.setFuture, CurlMulti.setTask, Function.update_self] using htask
  · change ((base.ledger.create (.own .task i)).create (.own .easy i)).held = _
    rw [Ledger.held_create heasy, Ledger.held_create (hbase .task i le_rfl)]
    ext b
    simp only [CurlMulti.setFuture, CurlMulti.setTask, Function.update_self, CurlMultiTask.blocks,
      htask, hheaders, hmemory, Option.toList_none, Option.toList_some, List.nil_append,
      List.cons_append, Set.mem_insert_iff, Set.mem_union, Set.mem_ofPred_eq, List.mem_cons,
      List.not_mem_nil, or_false]
    tauto

/-- One request passes, or it fails and leaves nothing behind. -/
theorem addRequest_spec (calls : CurlRequestCalls) (r : FutureRequest) (hbase : base.Fresh i)
    (hhandle : .own .easy i ∉ base.handles) :
    (calls.Passes r.request ∧
        ∃ t, addRequest calls r i base = some (t, none) ∧ Added base r.future i t) ∨
      (¬ calls.Passes r.request ∧
        ∃ t e, addRequest calls r i base = some (t, some e) ∧ Undone base r.future i t) := by
  rw [addRequest]
  cases htask : calls.taskAllocated with
  | false =>
    refine .inr ⟨fun hpasses => by simp [hpasses.task] at htask, base, .nomem, rfl, ?_⟩
    exact ⟨fun _ _ => rfl, fun _ _ => rfl, .inr rfl, rfl, fun _ hb => .inl hb, rfl⟩
  | true =>
    cases hdup : calls.handleDuplicated with
    | false =>
      obtain ⟨t, hfree, ht⟩ := undone_of_taskOnly r.future hbase
      refine .inr ⟨fun hpasses => by simp [hpasses.handle] at hdup, t, .nomem, ?_, ht⟩
      simp [hfree]
    | true =>
      generalize hnew : ({ CurlMultiTask.zero with
        easy := some (.own .easy i), future := some r.future, req := some r.request } :
          CurlMultiTask) = new
      have hbegin := during_of_duplicated r.future hbase (by rw [← hnew] : new.easy = _)
        (by rw [← hnew]; rfl) (by rw [← hnew]; rfl)
      have hfresh : (base.setFuture r.future (some (.own .task i))).Fresh i := hbase
      obtain ⟨t, error, hrun, hduring, hset⟩ := setupCurlRequest_spec calls hfresh r.filled hbegin
        (by simp [CurlMulti.setFuture, CurlMulti.setTask, ← hnew, CurlMultiTask.zero])
        (by simp [CurlMulti.setFuture, CurlMulti.setTask, ← hnew, CurlMultiTask.zero])
        (by simpa [CurlMulti.setFuture, CurlMulti.setTask, CurlMulti.create, Ledger.create] using
          hbase .memory i le_rfl)
        (by simpa [CurlMulti.setFuture, CurlMulti.setTask, CurlMulti.create, Ledger.create] using
          hbase .headers i le_rfl)
      obtain ⟨u, habandon, hu⟩ := hduring.abandon hbase hhandle
      simp only [Bool.not_true, Bool.false_eq_true, if_false, hrun, Option.bind_eq_bind,
        Option.bind_some, Option.pure_def, habandon, Option.map_some]
      cases error with
      | some e =>
        refine .inr ⟨fun hpasses => ?_, u, e, rfl, hu⟩
        cases hset.mpr hpasses.setup
      | none =>
        cases hpriv : calls.privateSet with
        | false =>
          exact .inr ⟨fun hpasses => by simp [hpasses.priv] at hpriv, u, .io, rfl, hu⟩
        | true =>
          cases hadded : calls.handleAdded with
          | false =>
            exact .inr ⟨fun hpasses => by simp [hpasses.added] at hadded, u, .io, rfl, hu⟩
          | true =>
            refine .inl ⟨⟨htask, hdup, hset.mp rfl, hpriv, hadded⟩, _, rfl, hduring.tasks,
              fun other hother => ?_, ?_, congrArg (· ++ _) hduring.handles, hduring.created,
              hduring.owned, hduring.easy, hduring.held⟩
            · exact (congrFun hduring.futures other).trans (Function.update_of_ne hother _ _)
            · exact (congrFun hduring.futures r.future).trans (Function.update_self _ _ _)

end Tasks

/-! The loop and the cleanup. -/

/-- The tasks of the requests from `j` up to `i` are there with all that they own, and nothing else
is. -/
structure Kept (first : CurlMulti) (j i : ℕ) (s : CurlMulti) : Prop where
  handles : ∀ p, p ∈ s.handles ↔ p ∈ first.handles ∨ ∃ k, j ≤ k ∧ k < i ∧ p = .own .easy k
  owned : ∀ k, j ≤ k → k < i → (s.tasks k).OwnedBy k
  easy : ∀ k, j ≤ k → k < i → (s.tasks k).easy = some (.own .easy k)
  held : ∀ b, b ∈ s.ledger.held ↔ ∃ k, j ≤ k ∧ k < i ∧ b ∈ (s.tasks k).blocks k

/-- The futures of the first requests point to their own tasks. -/
def Points (requests : List FutureRequest) (i : ℕ) (s : CurlMulti) : Prop :=
  ∀ k r, k < i → requests[k]? = some r → s.futures r.future = some (.own .task k)

section Runs

variable {first s t : CurlMulti} {requests : List FutureRequest} {r : FutureRequest} {i j : ℕ}

theorem fresh_succ (h : s.Fresh i)
    (hcreated : ∀ b ∈ t.ledger.created, b ∈ s.ledger.created ∨ ∃ kind, b = .own kind i) :
    t.Fresh (i + 1) := by
  intro kind k hk hb
  rcases hcreated _ hb with hb | ⟨_, hsame⟩
  · exact h kind k (Nat.le_of_succ_le hk) hb
  · obtain ⟨-, rfl⟩ := CurlPointer.own.inj hsame
    omega

/-- Two requests of different indices have different futures. -/
theorem future_ne (hdistinct : (requests.map FutureRequest.future).Nodup) {q : FutureRequest}
    (hq : requests[j]? = some q) (hr : requests[i]? = some r) (hji : j ≠ i) :
    q.future ≠ r.future := by
  intro hsame
  have hj : (requests.map FutureRequest.future)[j]? = some q.future := by simp [hq]
  have hi : (requests.map FutureRequest.future)[i]? = some r.future := by simp [hr]
  have hlt : j < (requests.map FutureRequest.future).length :=
    (List.getElem?_eq_some_iff.mp hj).1
  exact hji ((List.getElem?_inj hlt hdistinct).mp (hj.trans (hsame ▸ hi.symm)))

theorem Kept.added (h : Kept first 0 i s) (ht : Added s r.future i t) : Kept first 0 (i + 1) t where
  handles p := by
    rw [ht.handles, List.mem_append, h.handles, List.mem_singleton, or_assoc]
    refine or_congr_right ⟨?_, ?_⟩
    · rintro (⟨k, hj, hk, rfl⟩ | rfl)
      · exact ⟨k, hj, Nat.lt_succ_of_lt hk, rfl⟩
      · exact ⟨i, Nat.zero_le i, Nat.lt_succ_self i, rfl⟩
    · rintro ⟨k, hj, hk, rfl⟩
      rcases Nat.lt_succ_iff_lt_or_eq.mp hk with hk | rfl
      · exact .inl ⟨k, hj, hk, rfl⟩
      · exact .inr rfl
  owned k hj hk := by
    rcases Nat.lt_succ_iff_lt_or_eq.mp hk with hk | rfl
    · rw [ht.tasks k hk.ne]
      exact h.owned k hj hk
    · exact ht.owned
  easy k hj hk := by
    rcases Nat.lt_succ_iff_lt_or_eq.mp hk with hk | rfl
    · rw [ht.tasks k hk.ne]
      exact h.easy k hj hk
    · exact ht.easy
  held b := by
    rw [ht.held, Set.mem_union, h.held]
    constructor
    · rintro (⟨k, hj, hk, hb⟩ | hb)
      · exact ⟨k, hj, Nat.lt_succ_of_lt hk, by rwa [ht.tasks k hk.ne]⟩
      · exact ⟨i, Nat.zero_le i, Nat.lt_succ_self i, hb⟩
    · rintro ⟨k, hj, hk, hb⟩
      rcases Nat.lt_succ_iff_lt_or_eq.mp hk with hk | rfl
      · exact .inl ⟨k, hj, hk, by rwa [ht.tasks k hk.ne] at hb⟩
      · exact .inr hb

theorem Kept.undone {address : ℕ} (h : Kept first 0 i s) (ht : Undone s address i t) :
    Kept first 0 i t where
  handles p := by rw [ht.handles, h.handles]
  owned k hj hk := by
    rw [ht.tasks k hk.ne]
    exact h.owned k hj hk
  easy k hj hk := by
    rw [ht.tasks k hk.ne]
    exact h.easy k hj hk
  held b := by
    rw [ht.held, h.held]
    refine exists_congr fun k => and_congr_right fun _ => and_congr_right fun hk => ?_
    rw [ht.tasks k hk.ne]

theorem Points.added (h : Points requests i s)
    (hdistinct : (requests.map FutureRequest.future).Nodup) (hr : requests[i]? = some r)
    (ht : Added s r.future i t) : Points requests (i + 1) t := by
  intro k q hk hq
  rcases Nat.lt_succ_iff_lt_or_eq.mp hk with hk | rfl
  · rw [ht.futures _ (future_ne hdistinct hq hr hk.ne)]
    exact h k q hk hq
  · obtain rfl := Option.some.inj (hq.symm.trans hr)
    exact ht.future

theorem Points.undone (h : Points requests i s)
    (hdistinct : (requests.map FutureRequest.future).Nodup) (hr : requests[i]? = some r)
    (ht : Undone s r.future i t) : Points requests i t := by
  intro k q hk hq
  rw [ht.futures _ (future_ne hdistinct hq hr hk.ne)]
  exact h k q hk hq

/-- What the loop leaves: where it stops, the earlier requests have passed, and the one of that
index, if there is one, has not. -/
structure Stopped (calls : ℕ → CurlRequestCalls) (first : CurlMulti) (requests : List FutureRequest)
    (i : ℕ) (error : Option ErrorCode) (s : CurlMulti) : Prop where
  kept : Kept first 0 i s
  points : (requests.map FutureRequest.future).Nodup → Points requests i s
  passed : ∀ k r, k < i → requests[k]? = some r → (calls k).Passes r.request
  stopped : ∀ r, requests[i]? = some r → error ≠ none ∧ ¬ (calls i).Passes r.request
  failed : error ≠ none → i < requests.length

/-- Without an error every request is reached. -/
theorem Stopped.length_le {calls : ℕ → CurlRequestCalls}
    (h : Stopped calls first requests i none s) : requests.length ≤ i := by
  by_contra hlt
  exact (h.stopped _ (List.getElem?_eq_getElem (Nat.lt_of_not_le hlt))).1 rfl

theorem addRequests_stops (calls : ℕ → CurlRequestCalls) {rest : List FutureRequest}
    (hfirst : ∀ k, .own .easy k ∉ first.handles) (hrest : requests.drop i = rest)
    (hfresh : s.Fresh i) (hkept : Kept first 0 i s)
    (hpoints : (requests.map FutureRequest.future).Nodup → Points requests i s)
    (hpassed : ∀ k r, k < i → requests[k]? = some r → (calls k).Passes r.request) :
    ∃ t k error, addRequests calls i rest s = some (t, k, error) ∧
      Stopped calls first requests k error t := by
  induction rest generalizing i s with
  | nil =>
    have hlength : requests.length ≤ i := List.drop_eq_nil_iff.mp hrest
    refine ⟨s, i, none, rfl, hkept, hpoints, hpassed, fun r hr => ?_, fun hne => absurd rfl hne⟩
    rw [List.getElem?_eq_none hlength] at hr
    cases hr
  | cons r rest ih =>
    have hr : requests[i]? = some r := by
      rw [← List.head?_drop, hrest]
      rfl
    have hhandle : .own .easy i ∉ s.handles := by
      rw [hkept.handles]
      rintro (hin | ⟨k, -, hk, hsame⟩)
      · exact hfirst i hin
      · exact hk.ne (CurlPointer.own.inj hsame).2.symm
    rcases addRequest_spec (calls i) r hfresh hhandle with
      ⟨hpasses, t, hrun, ht⟩ | ⟨hfails, t, e, hrun, ht⟩
    · have hdrop : requests.drop (i + 1) = rest := by
        rw [← List.tail_drop, hrest]
        rfl
      obtain ⟨u, k, error, hloop, hstopped⟩ := ih hdrop (fresh_succ hfresh ht.created)
        (hkept.added ht) (fun hdistinct => (hpoints hdistinct).added hdistinct hr ht)
        fun k q hk hq => by
          rcases Nat.lt_succ_iff_lt_or_eq.mp hk with hk | rfl
          · exact hpassed k q hk hq
          · obtain rfl := Option.some.inj (hq.symm.trans hr)
            exact hpasses
      refine ⟨u, k, error, ?_, hstopped⟩
      simp [addRequests, hrun, hloop]
    · refine ⟨t, i, some e, by simp [addRequests, hrun], hkept.undone ht,
        fun hdistinct => (hpoints hdistinct).undone hdistinct hr ht, hpassed, fun q hq => ?_,
        fun _ => (List.getElem?_eq_some_iff.mp hr).1⟩
      obtain rfl := Option.some.inj (hq.symm.trans hr)
      exact ⟨Option.some_ne_none e, hfails⟩

/-- One round of the cleanup takes the first of the tasks that are left. -/
theorem Kept.rollBack_step (hfirst : ∀ k, .own .easy k ∉ first.handles) (h : Kept first j i s)
    (hji : j < i) (hfuture : s.futures r.future = some (.own .task j)) :
    ∃ t, (∀ rest, rollBack (r :: rest) s = rollBack rest t) ∧ Kept first (j + 1) i t ∧
      t.futures = s.futures := by
  have howned := h.owned j le_rfl hji
  have hblocks : ∀ b ∈ (s.tasks j).blocks j, b ∈ s.ledger.held :=
    fun b hb => (h.held b).mpr ⟨j, le_rfl, hji, hb⟩
  have htask : .own .task j ∈ s.ledger.held := hblocks _ (by simp [CurlMultiTask.blocks])
  have hremoved : ∀ p ∈ (s.tasks j).easy, p ∉ (s.removeHandle j).handles := by
    intro p hp hin
    exact (CurlMulti.mem_removeHandle.mp hin).2 hp.symm
  obtain ⟨mid, ledger, hdata, hfree, -, hheld⟩ := CurlMulti.freeTask_of_held howned hblocks hremoved
  refine ⟨{ s with ledger, handles := (s.removeHandle j).handles }, fun rest => ?_, ?_, rfl⟩
  · have hof : s.taskOf r.future = some j := by
      simp only [CurlMulti.taskOf, hfuture]
      exact if_pos htask
    rw [rollBack, hof, Option.bind_eq_bind, Option.bind_some, hdata]
    change (CurlMulti.freeTask
      { s with ledger := mid, handles := (s.removeHandle j).handles } j).bind _ = _
    rw [hfree]
    rfl
  · refine ⟨fun p => ?_, fun k hk hki => h.owned k (Nat.le_of_succ_le hk) hki,
      fun k hk hki => h.easy k (Nat.le_of_succ_le hk) hki, fun b => ?_⟩
    · change p ∈ (s.removeHandle j).handles ↔ _
      rw [CurlMulti.mem_removeHandle, h.handles, h.easy j le_rfl hji, ne_eq, Option.some.injEq]
      constructor
      · rintro ⟨hp | ⟨k, hk, hki, rfl⟩, hne⟩
        · exact .inl hp
        · have hkj : k ≠ j := fun hsame => hne (hsame ▸ rfl)
          exact .inr ⟨k, by omega, hki, rfl⟩
      · rintro (hp | ⟨k, hk, hki, rfl⟩)
        · exact ⟨.inl hp, fun hsame => hfirst j (hsame ▸ hp)⟩
        · refine ⟨.inr ⟨k, Nat.le_of_succ_le hk, hki, rfl⟩, fun hsame => ?_⟩
          obtain ⟨-, rfl⟩ := CurlPointer.own.inj hsame
          omega
    · change b ∈ ledger.held ↔ _
      rw [hheld, Set.mem_sdiff, h.held]
      constructor
      · rintro ⟨⟨k, hk, hki, hb⟩, hout⟩
        have hkj : k ≠ j := fun hsame => hout (hsame ▸ hb)
        exact ⟨k, by omega, hki, hb⟩
      · rintro ⟨k, hk, hki, hb⟩
        refine ⟨⟨k, Nat.le_of_succ_le hk, hki, hb⟩, fun hin => ?_⟩
        have hkj := (h.owned k (Nat.le_of_succ_le hk) hki).index_eq howned hb hin
        omega

/-- With distinct futures the cleanup ends, and nothing is left. -/
theorem Kept.rollBack (hfirst : ∀ k, .own .easy k ∉ first.handles) {rest : List FutureRequest}
    (hrest : (requests.take i).drop j = rest) (hi : i ≤ requests.length) (hji : j ≤ i)
    (h : Kept first j i s) (hpoints : Points requests i s) :
    ∃ t, rollBack rest s = some t ∧ Kept first i i t := by
  induction rest generalizing j s with
  | nil =>
    have hlength := List.drop_eq_nil_iff.mp hrest
    rw [List.length_take, Nat.min_eq_left hi] at hlength
    obtain rfl := Nat.le_antisymm hji hlength
    exact ⟨s, rfl, h⟩
  | cons r rest ih =>
    have hget : (requests.take i)[j]? = some r := by
      rw [← List.head?_drop, hrest]
      rfl
    obtain ⟨hj, -⟩ := List.getElem?_eq_some_iff.mp hget
    rw [List.length_take, Nat.min_eq_left hi] at hj
    rw [List.getElem?_take_of_lt hj] at hget
    obtain ⟨t, hstep, ht, hfutures⟩ := h.rollBack_step hfirst hj (hpoints j r hj hget)
    have hdrop : (requests.take i).drop (j + 1) = rest := by
      rw [← List.tail_drop, hrest]
      rfl
    rw [hstep]
    refine ih hdrop hj ht fun k q hk hq => ?_
    rw [hfutures]
    exact hpoints k q hk hq

/-! A future whose task the cleanup released still points to it. -/

theorem free_eq_some {bs : List CurlPointer} (h : s.free bs = some t) :
    t.tasks = s.tasks ∧ t.futures = s.futures ∧ t.ledger.released = s.ledger.released ++ bs := by
  rw [CurlMulti.free, Option.map_eq_some_iff] at h
  obtain ⟨ledger, hledger, rfl⟩ := h
  exact ⟨rfl, rfl, (Ledger.releaseAll_eq_some hledger).2⟩

theorem freeTask_eq_some (h : s.freeTask i = some t) :
    t.tasks = s.tasks ∧ t.futures = s.futures ∧
      t.ledger.released = s.ledger.released ++ ((s.tasks i).easy.toList ++ [.own .task i]) := by
  rw [CurlMulti.freeTask, Option.ite_none_left_eq_some] at h
  exact free_eq_some h.2

/-- One round of the cleanup, where it ends. -/
theorem rollBack_cons {rest : List FutureRequest} (h : rollBack (r :: rest) s = some t) :
    ∃ i u, s.futures r.future = some (.own .task i) ∧ rollBack rest u = some t ∧
      u.futures = s.futures ∧ s.ledger.released ⊆ u.ledger.released ∧
      .own .task i ∈ u.ledger.released := by
  simp only [rollBack, Option.bind_eq_bind, Option.bind_eq_some_iff] at h
  obtain ⟨i, htask, mid, hdata, u, hfree, hrest⟩ := h
  obtain ⟨-, hfutures, hreleased⟩ := free_eq_some hdata
  obtain ⟨-, hfutures', hreleased'⟩ := freeTask_eq_some hfree
  refine ⟨i, u, ?_, hrest, hfutures'.trans hfutures, fun b hb => ?_, ?_⟩
  · rw [CurlMulti.taskOf] at htask
    split at htask
    next k hfuture =>
      rw [Option.ite_none_right_eq_some] at htask
      obtain rfl := Option.some.inj htask.2
      exact hfuture
    next => cases htask
  · rw [hreleased']
    refine List.mem_append_left _ ?_
    change b ∈ mid.ledger.released
    rw [hreleased]
    exact List.mem_append_left _ hb
  · rw [hreleased']
    simp

theorem rollBack_keeps {rest : List FutureRequest} (h : rollBack rest s = some t) :
    t.futures = s.futures ∧ s.ledger.released ⊆ t.ledger.released := by
  induction rest generalizing s with
  | nil =>
    obtain rfl := Option.some.inj h
    exact ⟨rfl, List.Subset.refl _⟩
  | cons r rest ih =>
    obtain ⟨i, u, -, hrest, hfutures, hreleased, -⟩ := rollBack_cons h
    obtain ⟨hfutures', hreleased'⟩ := ih hrest
    exact ⟨hfutures'.trans hfutures, fun b hb => hreleased' (hreleased hb)⟩

theorem rollBack_dangles {rest : List FutureRequest} (h : rollBack (r :: rest) s = some t) :
    ∃ i, t.futures r.future = some (.own .task i) ∧ .own .task i ∈ t.ledger.released := by
  obtain ⟨i, u, hfuture, hrest, hfutures, -, hfreed⟩ := rollBack_cons h
  obtain ⟨hfutures', hreleased⟩ := rollBack_keeps hrest
  exact ⟨i, by rw [hfutures', hfutures, hfuture], hreleased hfreed⟩

end Runs

/-! The call. -/

section Call

variable {calls : CurlMultiCalls} {requests : List FutureRequest} (futures : ℕ → Option ℕ)
  (handles : List ℕ)

theorem curlSendMulti_of_starts (h : calls.Starts) (s : CurlMulti) :
    curlSendMulti calls requests s =
      (addRequests calls.request 0 requests s).bind fun (s, i, error) =>
        if error.isSome then (rollBack (requests.take i) s).map (·, error) else some (s, none) := by
  rw [curlSendMulti]
  simp only [h.arguments, h.socketFunction, h.socketData, h.timerFunction, h.timerData,
    Bool.not_true, Bool.false_eq_true, if_false]
  rfl

theorem curlSendMulti_of_not_starts (h : ¬ calls.Starts) (requests : List FutureRequest)
    (s : CurlMulti) :
    ∃ e, curlSendMulti calls requests s = some (s, some e) := by
  rw [curlSendMulti]
  split_ifs with harguments hsocketFunction hsocketData htimerFunction htimerData
  · exact ⟨_, rfl⟩
  · exact ⟨_, rfl⟩
  · exact ⟨_, rfl⟩
  · exact ⟨_, rfl⟩
  · exact ⟨_, rfl⟩
  · exact absurd ⟨by simpa using harguments, by simpa using hsocketFunction,
      by simpa using hsocketData, by simpa using htimerFunction, by simpa using htimerData⟩ h

theorem held_start : (CurlMulti.start futures handles).ledger.held = ∅ :=
  Set.eq_empty_of_forall_notMem fun _ hb => List.not_mem_nil hb.1

theorem easy_not_mem_start (k : ℕ) : .own .easy k ∉ (CurlMulti.start futures handles).handles := by
  simp [CurlMulti.start]

theorem futures_start (address : ℕ) (kind : CurlKind) (i : ℕ) :
    (CurlMulti.start futures handles).futures address ≠ some (.own kind i) := by
  simp [CurlMulti.start]

theorem fresh_start (i : ℕ) : (CurlMulti.start futures handles).Fresh i :=
  fun _ _ _ => List.not_mem_nil

theorem kept_start : Kept (.start futures handles) 0 0 (.start futures handles) where
  handles p := by simp
  owned _ _ hk := absurd hk (Nat.not_lt_zero _)
  easy _ _ hk := absurd hk (Nat.not_lt_zero _)
  held b := by simp [held_start]

/-- The loop on a call that was just made. -/
theorem addRequests_start (calls : ℕ → CurlRequestCalls) (requests : List FutureRequest) :
    ∃ t k error, addRequests calls 0 requests (.start futures handles) = some (t, k, error) ∧
      Stopped calls (.start futures handles) requests k error t :=
  addRequests_stops calls (easy_not_mem_start futures handles) rfl (fresh_start futures handles 0)
    (kept_start futures handles)
    (fun _ _ _ hk => absurd hk (Nat.not_lt_zero _)) fun _ _ hk => absurd hk (Nat.not_lt_zero _)

/-- With distinct futures, an error leaves nothing that the call made and the multi handle as it
was; a success leaves each future with its own task, and its handle in the multi handle. -/
theorem curlSendMulti_released (hdistinct : (requests.map FutureRequest.future).Nodup) :
    ∃ t error, curlSendMulti calls requests (.start futures handles) = some (t, error) ∧
      (error ≠ none →
        (∀ b ∈ t.ledger.created, t.ledger.released.count b = 1) ∧
          ∀ p, p ∈ t.handles ↔ p ∈ handles.map .earlier) ∧
      (error = none → ∀ i r, requests[i]? = some r →
        t.taskOf r.future = some i ∧ .own .easy i ∈ t.handles) := by
  by_cases hstarts : calls.Starts
  · obtain ⟨t, k, error, hloop, hstopped⟩ :=
      addRequests_start futures handles calls.request requests
    rw [curlSendMulti_of_starts hstarts, hloop]
    have hpoints := hstopped.points hdistinct
    cases error with
    | none =>
      refine ⟨t, none, rfl, fun hne => absurd rfl hne, fun _ i r hr => ?_⟩
      have hi : i < k := (List.getElem?_eq_some_iff.mp hr).1.trans_le hstopped.length_le
      have htask : .own .task i ∈ t.ledger.held :=
        (hstopped.kept.held _).mpr ⟨i, Nat.zero_le i, hi, by simp [CurlMultiTask.blocks]⟩
      refine ⟨?_, (hstopped.kept.handles _).mpr (.inr ⟨i, Nat.zero_le i, hi, rfl⟩)⟩
      simp only [CurlMulti.taskOf, hpoints i r hi hr]
      exact if_pos htask
    | some e =>
      have hk := hstopped.failed (Option.some_ne_none e)
      obtain ⟨u, hback, hu⟩ := hstopped.kept.rollBack (easy_not_mem_start futures handles)
        List.drop_zero hk.le (Nat.zero_le k) hpoints
      have hheld : u.ledger.held = ∅ := by
        refine Set.eq_empty_of_forall_notMem fun b hb => ?_
        obtain ⟨j, hkj, hjk, -⟩ := (hu.held b).mp hb
        omega
      refine ⟨u, some e, by simp [hback], fun _ => ⟨fun b => Ledger.count_released hheld,
        fun p => ?_⟩, fun hnone => by cases hnone⟩
      rw [hu.handles]
      refine or_iff_left ?_
      rintro ⟨j, hkj, hjk, -⟩
      omega
  · obtain ⟨e, hrun⟩ := curlSendMulti_of_not_starts hstarts requests (.start futures handles)
    exact ⟨_, _, hrun, fun _ => ⟨fun b hb => absurd hb List.not_mem_nil, fun p => Iff.rfl⟩,
      fun hnone => by cases hnone⟩

/-- Every task that the call made has been freed exactly once, no easy handle that it made is in
the multi handle, and no future points to a task that has been freed. -/
structure RolledBack (requests : List FutureRequest) (s : CurlMulti) : Prop where
  freed : ∀ i, .own .task i ∈ s.ledger.created → s.ledger.released.count (.own .task i) = 1
  removed : ∀ i, .own .easy i ∈ s.ledger.created → .own .easy i ∉ s.handles
  futures : ∀ r ∈ requests, ∀ i, s.futures r.future = some (.own .task i) →
    .own .task i ∉ s.ledger.released

/-- The call returns, and has rolled back where it returns an error. -/
def RollsBack (calls : CurlMultiCalls) (requests : List FutureRequest) (futures : ℕ → Option ℕ)
    (handles : List ℕ) : Prop :=
  ∃ t error, curlSendMulti calls requests (.start futures handles) = some (t, error) ∧
    (error ≠ none → RolledBack requests t)

theorem rolledBack_start : RolledBack requests (.start futures handles) where
  freed _ hcreated := absurd hcreated List.not_mem_nil
  removed _ hcreated := absurd hcreated List.not_mem_nil
  futures r _ i hfuture := absurd hfuture (futures_start futures handles r.future .task i)

theorem rolledBack_of_undone {address : ℕ} {t : CurlMulti}
    (h : Undone (.start futures handles) address 0 t) : RolledBack requests t where
  freed _ := Ledger.count_released (h.held.trans (held_start futures handles))
  removed i _ := by
    rw [h.handles]
    exact easy_not_mem_start futures handles i
  futures r _ i hfuture := by
    by_cases hsame : r.future = address
    · rw [hsame] at hfuture
      rcases h.future with hnull | hkept
      · rw [hnull] at hfuture
        cases hfuture
      · exact absurd (hkept ▸ hfuture) (futures_start futures handles address .task i)
    · exact absurd (h.futures _ hsame ▸ hfuture) (futures_start futures handles r.future .task i)

/-- Where the first request fails there is nothing else to take back. -/
theorem rollsBack_of_first_fails (hstarts : calls.Starts) {q : FutureRequest}
    (hfails : ¬ (calls.request 0).Passes q.request) (rest : List FutureRequest) :
    RollsBack calls (q :: rest) futures handles := by
  rcases addRequest_spec (calls.request 0) q (fresh_start futures handles 0)
      (easy_not_mem_start futures handles 0) with ⟨hpasses, -⟩ | ⟨-, t, e, hrun, ht⟩
  · exact absurd hpasses hfails
  · refine ⟨t, some e, ?_, fun _ => rolledBack_of_undone futures handles ht⟩
    rw [curlSendMulti_of_starts hstarts]
    simp [addRequests, hrun, rollBack]

/-- Where the first request passes the cleanup takes back its task, but not from its future. -/
theorem not_rolledBack_of_first_passes {q : FutureRequest} {rest : List FutureRequest}
    {s t : CurlMulti} {k : ℕ} (hpos : k ≠ 0) (h : rollBack ((q :: rest).take k) s = some t) :
    ¬ RolledBack (q :: rest) t := by
  intro hback
  obtain ⟨k, rfl⟩ := Nat.exists_eq_succ_of_ne_zero hpos
  rw [List.take_succ_cons] at h
  obtain ⟨i, hfuture, hfreed⟩ := rollBack_dangles h
  exact hback.futures q List.mem_cons_self i hfuture hfreed

/-- Exactly when no request behind the first is the first to fail. -/
theorem curlSendMulti_rollsBack_iff :
    RollsBack calls requests futures handles ↔
      (calls.Starts →
        (∀ r, requests[0]? = some r → (calls.request 0).Passes r.request) →
          ∀ i r, requests[i]? = some r → (calls.request i).Passes r.request) := by
  by_cases hstarts : calls.Starts
  swap
  · obtain ⟨e, hrun⟩ := curlSendMulti_of_not_starts hstarts requests (.start futures handles)
    exact iff_of_true ⟨_, _, hrun, fun _ => rolledBack_start futures handles⟩
      fun h => absurd h hstarts
  cases requests with
  | nil =>
    refine iff_of_true ⟨.start futures handles, none, ?_, fun hne => absurd rfl hne⟩
      fun _ _ i r hr => ?_
    · rw [curlSendMulti_of_starts hstarts]
      rfl
    · rw [List.getElem?_nil] at hr
      cases hr
  | cons q rest =>
    by_cases hfirst : (calls.request 0).Passes q.request
    swap
    · exact iff_of_true (rollsBack_of_first_fails futures handles hstarts hfirst rest)
        fun _ h => absurd (h q rfl) hfirst
    obtain ⟨t, k, error, hloop, hstopped⟩ :=
      addRequests_start futures handles calls.request (q :: rest)
    rw [RollsBack, curlSendMulti_of_starts hstarts, hloop]
    cases error with
    | none =>
      refine iff_of_true ⟨t, none, rfl, fun hne => absurd rfl hne⟩ fun _ _ i r hr => ?_
      exact hstopped.passed i r
        ((List.getElem?_eq_some_iff.mp hr).1.trans_le hstopped.length_le) hr
    | some e =>
      have hget := List.getElem?_eq_getElem (hstopped.failed (Option.some_ne_none e))
      have hfails := (hstopped.stopped _ hget).2
      refine iff_of_false ?_ fun h => hfails (h hstarts (fun r hr => ?_) k _ hget)
      · rintro ⟨u, error, hrun, hback⟩
        have hpos : k ≠ 0 := by
          rintro rfl
          exact hfails hfirst
        simp only [Option.bind_some, Option.isSome_some, if_true, Option.map_eq_some_iff,
          Prod.mk.injEq] at hrun
        obtain ⟨_, hrolled, rfl, rfl⟩ := hrun
        exact not_rolledBack_of_first_passes hpos hrolled (hback (Option.some_ne_none e))
      · exact Option.some.inj hr ▸ hfirst

end Call

/-- Every call for a request succeeds. -/
def CurlRequestCalls.succeed : CurlRequestCalls :=
  ⟨true, true, true, fun _ => true, fun _ => true, true, true, true, true⟩

/-- The handle of the second request cannot be added. -/
def secondNotAdded : CurlMultiCalls where
  argumentsGiven := true
  socketFunctionSet := true
  socketDataSet := true
  timerFunctionSet := true
  timerDataSet := true
  request i := if i = 1 then { CurlRequestCalls.succeed with handleAdded := false } else .succeed

/-- A request as `http_request_init` leaves it, for the future at an address. -/
def FutureRequest.init (address : ℕ) : FutureRequest := ⟨.init, address, HttpHeaders.filled_init⟩

/-- The first future keeps the address of its task, which the cleanup has freed. -/
theorem secondNotAdded_dangles :
    ¬ RollsBack secondNotAdded [.init 0, .init 1] (fun _ => none) [] := by
  rintro ⟨t, error, hrun, hback⟩
  have hend :
      (curlSendMulti secondNotAdded [.init 0, .init 1] (.start (fun _ => none) [])).map
        (fun p => (p.1.futures 0, decide (.own .task 0 ∈ p.1.ledger.released), p.2)) =
      some (some (.own .task 0), true, some .io) := by
    decide
  rw [hrun, Option.map_some, Option.some.injEq, Prod.mk.injEq, Prod.mk.injEq] at hend
  obtain ⟨hfuture, hfreed, rfl⟩ := hend
  exact (hback (Option.some_ne_none _)).futures (.init 0) List.mem_cons_self 0 hfuture
    (of_decide_eq_true hfreed)

end AbstractHttp.Transport
