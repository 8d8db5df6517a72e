import AbstractHttp.EventStream.Numbers
import AbstractHttp.EventStream.Format
import AbstractHttp.Http.Types
import AbstractHttp.Library.Schedule

/-!
# Responses over MsH3

`msh3_request_cb` builds the response up from the events of a request, and can
report a failure only through `error_code`; `http_msh3_send` waits for the last
event and looks at it.  What the library and the allocator answer is a parameter.
-/
namespace AbstractHttp.Transport
open Library EventStream Http

/-- A `MSH3_REQUEST_EVENT`. With a header come the answers to the two `malloc`s of the callback and
to the requests of `http_headers_add`, with data the answer to `realloc`, and with the end whether
the mutex is locked. -/
inductive Msh3Event where
  | headerReceived (header : Option (List UInt8 × List UInt8)) (nstr vstr : Bool)
      (alloc : HeadersAlloc)
  | dataReceived (data : List UInt8) (newBody : Bool)
  | shutdownComplete (locked connectionClosedRemotely : Bool) (connectionErrorCode : ℕ)

/-- `struct msh3_req_ctx`. -/
structure Msh3ReqCtx where
  res : HttpResponse
  isComplete : Bool
  errorCode : Option ErrorCode

/-- `:status` -/
def statusName : List UInt8 := asciiBytes [':', 's', 't', 'a', 't', 'u', 's']

/-- `msh3_request_cb`. -/
def msh3RequestCb (rctx : Msh3ReqCtx) : Msh3Event → Msh3ReqCtx
  | .headerReceived none _ _ _ => rctx
  | .headerReceived (some (name, val)) nstr vstr alloc =>
    if name = statusName then
      if nstr then
        { rctx with res := { rctx.res with
          statusCode := Int32.ofInt (atoi (CString.ofBytes val).bytes) } }
      else { rctx with errorCode := some .nomem }
    else if nstr ∧ vstr then
      -- The code that `http_headers_add` returns is only logged.
      { rctx with res := { rctx.res with
        headers := (headersAdd alloc rctx.res.headers (some (.ofBytes name))
          (some (.ofBytes val))).1 } }
    else rctx
  | .dataReceived data newBody =>
    if data.length = 0 then rctx
    else if newBody then
      { rctx with res := { rctx.res with
        body := some ((rctx.res.body.getD []).take rctx.res.bodyLen ++ data ++ [0])
        bodyLen := rctx.res.bodyLen + data.length } }
    else { rctx with errorCode := some .nomem }
  | .shutdownComplete locked closed code =>
    if locked then
      { rctx with
        isComplete := true
        errorCode := if closed ∨ code ≠ 0 then some .io else rctx.errorCode }
    else rctx

/-- What the calls of `http_msh3_send` give: all those before `MsH3RequestOpen`, then each one. -/
structure Msh3Calls where
  prepared : Option ErrorCode
  opened : Bool
  sent : Bool
  locked : Option ErrorCode
  unlocked : Option ErrorCode
  condFreed : Option ErrorCode
  mutexFreed : Option ErrorCode
  responseFreed : Option ErrorCode

/-- The context when the request is sent. -/
def Msh3ReqCtx.start : Msh3ReqCtx := ⟨{ HttpResponse.init with statusCode := 500 }, false, none⟩

/-- The wait for the last event. Each `abstract_http_cond_wait` lets some events through and gives
a code; there is no result while none of them ends the wait. -/
def waitLoop : Msh3ReqCtx → List (List Msh3Event × Option ErrorCode) → Option Msh3ReqCtx
  | rctx, [] => if rctx.isComplete then some rctx else none
  | rctx, (events, rc) :: waits =>
    if rctx.isComplete then some rctx
    else
      let rctx := events.foldl msh3RequestCb rctx
      match rc with
      | some e => some { rctx with errorCode := some e }
      | none => waitLoop rctx waits

/-- The context when the request is closed. The `early` events come before the wait. -/
def msh3Requested (calls : Msh3Calls) (early : List Msh3Event)
    (waits : List (List Msh3Event × Option ErrorCode)) : Option Msh3ReqCtx :=
  if calls.opened = false then some { Msh3ReqCtx.start with errorCode := some .nomem }
  else if calls.sent = false then some { Msh3ReqCtx.start with errorCode := some .io }
  else
    let rctx := early.foldl msh3RequestCb .start
    match calls.locked with
    | some e => some { rctx with errorCode := some e }
    | none =>
      (waitLoop rctx waits).map fun rctx => { rctx with
        errorCode := rctx.errorCode.or calls.unlocked }

/-- `http_msh3_send`. -/
def msh3Send (calls : Msh3Calls) (early : List Msh3Event)
    (waits : List (List Msh3Event × Option ErrorCode)) : Option (Except ErrorCode HttpResponse) :=
  match calls.prepared with
  | some e => some (.error e)
  | none =>
    (msh3Requested calls early waits).map fun rctx =>
      match rctx.errorCode.or (calls.condFreed.or calls.mutexFreed) with
      | some e => .error (calls.responseFreed.getD e)
      | none => .ok rctx.res

/-- The events of a request in the order in which they come. -/
def msh3Events (early : List Msh3Event) (waits : List (List Msh3Event × Option ErrorCode)) :
    List Msh3Event :=
  early ++ waits.flatMap Prod.fst

namespace Msh3Event

/-- The value of a `:status` header. -/
def status : Msh3Event → Option (List UInt8)
  | .headerReceived (some (name, val)) _ _ _ => if name = statusName then some val else none
  | _ => none

/-- Any other header. -/
def field : Msh3Event → Option (List UInt8 × List UInt8)
  | .headerReceived (some (name, val)) _ _ _ => if name = statusName then none else some (name, val)
  | _ => none

def block : Msh3Event → List UInt8
  | .dataReceived data _ => data
  | _ => []

/-- The event ends the wait. -/
def completes : Msh3Event → Bool
  | .shutdownComplete locked _ _ => locked
  | _ => false

/-- The event sets `error_code`. -/
def Recorded : Msh3Event → Prop
  | .headerReceived (some (name, _)) nstr _ _ => name = statusName ∧ nstr = false
  | .headerReceived none _ _ _ => False
  | .dataReceived data newBody => data.length ≠ 0 ∧ newBody = false
  | .shutdownComplete locked closed code => locked = true ∧ (closed = true ∨ code ≠ 0)

end Msh3Event

/-- `new_cap` for an array with this many entries and no room left. -/
def grownFrom (n : ℕ) : ℕ := if n = 0 then 8 else n * 2

/-- An array that was only ever grown when full is full again with this many entries. -/
def FullAt (n : ℕ) : Prop := n = 0 ∨ ∃ k, n = 8 * 2 ^ k

/-- Every request for memory is granted that a header other than `:status` needs when `n` of them
came before it. -/
def Msh3Event.Kept (n : ℕ) : Msh3Event → Prop
  | .headerReceived (some (name, val)) nstr vstr alloc =>
    name = statusName ∨ nstr = true ∧ vstr = true ∧
      (FullAt n → alloc .array (grownFrom n * headerSize) = true) ∧
      alloc .key ((CString.ofBytes name).length + 1) = true ∧
      alloc .value ((CString.ofBytes val).length + 1) = true
  | _ => True

/-- All headers are kept. -/
def HeadersKept (events : List Msh3Event) : Prop :=
  ∀ p e q, events = p ++ e :: q → e.Kept (p.filterMap Msh3Event.field).length

/-- An event before the last one: a `:status` has three digits. -/
def Msh3Event.Delivered : Msh3Event → Prop
  | .headerReceived (some (name, val)) _ _ _ =>
    (0 ∉ name ∧ 0 ∉ val) ∧ (name = statusName → val.length = 3 ∧ ∀ b ∈ val, isDigitByte b = true)
  | .shutdownComplete _ _ _ => False
  | _ => True

/-- The events of a request, of which the last is the end. -/
def Msh3Stream (events : List Msh3Event) : Prop :=
  ∃ front locked closed code, events = front ++ [.shutdownComplete locked closed code] ∧
    ∀ e ∈ front, e.Delivered

/-- A wait fails before the last event is there. -/
def WaitFails (early : List Msh3Event) (waits : List (List Msh3Event × Option ErrorCode)) : Prop :=
  ∃ ws events e ws', waits = ws ++ (events, some e) :: ws' ∧
    ∀ ev ∈ msh3Events early ws, ev.completes = false

/-- Nothing fails but, maybe, what has to do with headers. -/
structure Msh3Unfailing (calls : Msh3Calls) (early : List Msh3Event)
    (waits : List (List Msh3Event × Option ErrorCode)) : Prop where
  prepared : calls.prepared = none
  opened : calls.opened = true
  sent : calls.sent = true
  locked : calls.locked = none
  unlocked : calls.unlocked = none
  condFreed : calls.condFreed = none
  mutexFreed : calls.mutexFreed = none
  waited : ¬ WaitFails early waits
  completes : ∃ e ∈ msh3Events early waits, e.completes = true
  unrecorded : ∀ e ∈ msh3Events early waits, ¬ e.Recorded

/-- A response that says what the events said. -/
structure Msh3Reports (events : List Msh3Event) (res : HttpResponse) : Prop where
  status : ∀ val, (events.filterMap Msh3Event.status).getLast? = some val →
    res.statusCode.toInt = decimalValue val
  headers :
    res.headers.headers.map (fun h => (h.key.map CString.bytes, h.value.map CString.bytes)) =
    (events.filterMap Msh3Event.field).map fun f => (some f.1, some f.2)
  body : (res.body.getD []).take res.bodyLen = events.flatMap Msh3Event.block
  bodyLen : res.bodyLen = (events.flatMap Msh3Event.block).length

section Array

variable {alloc : HeadersAlloc} {headers : HttpHeaders} {n capacity : ℕ}

/-- The capacity of an array with `n` entries that was only ever grown when full. -/
def Doubled (n capacity : ℕ) : Prop :=
  (n = 0 ∧ capacity = 0) ∨
    ∃ k, capacity = 8 * 2 ^ k ∧ 0 < n ∧ n ≤ capacity ∧ (k = 0 ∨ 4 * 2 ^ k < n)

theorem Doubled.full_iff (h : Doubled n capacity) : n ≥ capacity ↔ FullAt n := by
  rcases h with ⟨rfl, rfl⟩ | ⟨k, hcapacity, hpos, hle, hmore⟩
  · exact iff_of_true le_rfl (Or.inl rfl)
  · constructor
    · intro hfull
      exact Or.inr ⟨k, by omega⟩
    · rintro (hzero | ⟨j, hj⟩)
      · omega
      · rw [hcapacity, hj] at hle ⊢
        suffices hkj : k ≤ j from Nat.mul_le_mul_left 8 (Nat.pow_le_pow_right (by omega) hkj)
        rcases hmore with rfl | hmore
        · exact Nat.zero_le j
        · by_contra hlt
          have hpow : 2 ^ (j + 1) ≤ 2 ^ k := Nat.pow_le_pow_right (by omega) (by omega)
          rw [pow_succ] at hpow
          omega

theorem Doubled.grown (h : Doubled n capacity) (hfull : n ≥ capacity) :
    (if capacity = 0 then 8 else capacity * 2) = grownFrom n := by
  rw [grownFrom]
  rcases h with ⟨rfl, rfl⟩ | ⟨k, hcapacity, hpos, hle, -⟩
  · rfl
  · rw [if_neg (by omega), if_neg (by omega)]
    omega

theorem Doubled.next (h : Doubled n capacity) :
    Doubled (n + 1) (if n ≥ capacity then grownFrom n else capacity) := by
  right
  rcases h with ⟨rfl, rfl⟩ | ⟨k, hcapacity, hpos, hle, hmore⟩
  · exact ⟨0, by simp [grownFrom]⟩
  · split_ifs with hfull
    · have hpow : 8 * 2 ^ (k + 1) = 2 * (8 * 2 ^ k) := by ring
      rw [grownFrom, if_neg (by omega)]
      exact ⟨k + 1, by omega, by omega, by omega, by omega⟩
    · exact ⟨k, hcapacity, by omega, by omega, by omega⟩

theorem headersGrow_capacity {grown : HttpHeaders}
    (h : Doubled headers.count headers.capacity)
    (hgrown : headersGrow alloc headers = some grown) :
    grown.capacity =
      if headers.count ≥ headers.capacity then grownFrom headers.count else headers.capacity := by
  rw [headersGrow] at hgrown
  by_cases hfull : headers.count ≥ headers.capacity
  · rw [if_pos hfull, h.grown hfull] at hgrown
    simp only [Option.ite_none_right_eq_some, Option.some.injEq] at hgrown
    rw [if_pos hfull, ← hgrown.2]
  · rw [if_neg hfull] at hgrown ⊢
    rw [← Option.some.inj hgrown]

theorem headersGrow_isSome (h : Doubled headers.count headers.capacity) :
    (∃ grown, headersGrow alloc headers = some grown) ↔
      (FullAt headers.count → alloc .array (grownFrom headers.count * headerSize) = true) := by
  rw [headersGrow, ← h.full_iff]
  by_cases hfull : headers.count ≥ headers.capacity
  · rw [if_pos hfull, h.grown hfull]
    simp [hfull]
  · simp [hfull]

/-- Whether an addition succeeds depends on the count and on what is granted. -/
theorem headersAdd_eq_none_iff (h : Doubled headers.count headers.capacity)
    (key value : CString) :
    (headersAdd alloc headers (some key) (some value)).2 = none ↔
      (FullAt headers.count → alloc .array (grownFrom headers.count * headerSize) = true) ∧
        alloc .key (key.length + 1) = true ∧ alloc .value (value.length + 1) = true := by
  rw [← headersGrow_isSome h, headersAdd]
  cases headersGrow alloc headers with
  | none => simp
  | some grown =>
    cases alloc .key (key.length + 1) <;> cases alloc .value (value.length + 1) <;> simp

theorem doubled_headersAdd (h : Doubled headers.count headers.capacity) {key value : CString}
    (hadded : (headersAdd alloc headers (some key) (some value)).2 = none) :
    Doubled (headersAdd alloc headers (some key) (some value)).1.count
      (headersAdd alloc headers (some key) (some value)).1.capacity := by
  rw [headersAdd] at hadded ⊢
  cases hgrown : headersGrow alloc headers with
  | none => simp [hgrown] at hadded
  | some grown =>
    simp only [hgrown] at hadded ⊢
    split_ifs at hadded ⊢
    have hcount (entry : HttpHeader) :
        (grown.headers ++ [entry]).length = headers.count + 1 := by
      rw [headersGrow_headers hgrown, List.length_append]
      rfl
    simp only [HttpHeaders.count] at hcount ⊢
    rw [hcount, headersGrow_capacity h hgrown]
    exact h.next

end Array

section Events

variable {rctx : Msh3ReqCtx} {events : List Msh3Event} {e : Msh3Event}

/-- The context after these events. -/
def msh3Run (events : List Msh3Event) : Msh3ReqCtx := events.foldl msh3RequestCb .start

@[simp] theorem msh3Run_append_singleton (events : List Msh3Event) (e : Msh3Event) :
    msh3Run (events ++ [e]) = msh3RequestCb (msh3Run events) e := by
  simp [msh3Run, List.foldl_append]

theorem msh3RequestCb_isComplete (rctx : Msh3ReqCtx) (e : Msh3Event) :
    (msh3RequestCb rctx e).isComplete = (rctx.isComplete || e.completes) := by
  cases e with
  | headerReceived header nstr vstr alloc =>
    cases header with
    | none => simp [msh3RequestCb, Msh3Event.completes]
    | some header =>
      rw [msh3RequestCb]
      split_ifs <;> simp [Msh3Event.completes]
  | dataReceived data newBody =>
    rw [msh3RequestCb]
    split_ifs <;> simp [Msh3Event.completes]
  | shutdownComplete locked closed code =>
    cases locked <;> simp [msh3RequestCb, Msh3Event.completes]

theorem msh3Run_isComplete (events : List Msh3Event) :
    (msh3Run events).isComplete = true ↔ ∃ e ∈ events, e.completes = true := by
  induction events using List.reverseRecOn with
  | nil => simp [msh3Run, Msh3ReqCtx.start]
  | append_singleton events e ih =>
    rw [msh3Run_append_singleton, msh3RequestCb_isComplete, Bool.or_eq_true, ih]
    simp [or_and_right, exists_or]

/-- A failure that is recorded stays recorded. -/
theorem msh3RequestCb_errorCode (rctx : Msh3ReqCtx) (e : Msh3Event) :
    (msh3RequestCb rctx e).errorCode = none ↔ rctx.errorCode = none ∧ ¬ e.Recorded := by
  cases e with
  | headerReceived header nstr vstr alloc =>
    cases header with
    | none => simp [msh3RequestCb, Msh3Event.Recorded]
    | some header =>
      rw [msh3RequestCb]
      split_ifs with hname hnstr <;> simp_all [Msh3Event.Recorded]
  | dataReceived data newBody =>
    rw [msh3RequestCb]
    split_ifs with hlen hbody <;> simp_all [Msh3Event.Recorded]
  | shutdownComplete locked closed code =>
    rw [msh3RequestCb]
    split_ifs with hlocked hfailed <;> simp_all [Msh3Event.Recorded]

theorem msh3Run_errorCode (events : List Msh3Event) :
    (msh3Run events).errorCode = none ↔ ∀ e ∈ events, ¬ e.Recorded := by
  induction events using List.reverseRecOn with
  | nil => simp [msh3Run, Msh3ReqCtx.start]
  | append_singleton events e ih =>
    rw [msh3Run_append_singleton, msh3RequestCb_errorCode, ih]
    simp [or_imp, forall_and]

/-- What has been received of the body is stored. -/
def StoresBody (res : HttpResponse) (bytes : List UInt8) : Prop :=
  (res.body.getD []).take res.bodyLen = bytes ∧ res.bodyLen = bytes.length

theorem msh3RequestCb_body {bytes : List UInt8} (h : StoresBody rctx.res bytes)
    (hunrecorded : ¬ e.Recorded) :
    StoresBody (msh3RequestCb rctx e).res (bytes ++ e.block) := by
  cases e with
  | headerReceived header nstr vstr alloc =>
    cases header with
    | none => simpa [msh3RequestCb, Msh3Event.block] using h
    | some header =>
      rw [msh3RequestCb]
      split_ifs <;> simpa [Msh3Event.block, StoresBody] using h
  | dataReceived data newBody =>
    rw [msh3RequestCb]
    split_ifs with hlen hbody
    · simpa [Msh3Event.block, List.length_eq_zero_iff.mp hlen] using h
    · obtain ⟨hbytes, hcount⟩ := h
      refine ⟨?_, by simp [Msh3Event.block, hcount]⟩
      rw [Msh3Event.block, Option.getD_some, hbytes, hcount]
      exact List.take_left' (List.length_append ..)
    · exact absurd ⟨hlen, by simpa using hbody⟩ hunrecorded
  | shutdownComplete locked closed code =>
    rw [msh3RequestCb]
    split_ifs <;> simpa [Msh3Event.block, StoresBody] using h

theorem msh3Run_body (hunrecorded : ∀ e ∈ events, ¬ e.Recorded) :
    StoresBody (msh3Run events).res (events.flatMap Msh3Event.block) := by
  induction events using List.reverseRecOn with
  | nil => simp [msh3Run, Msh3ReqCtx.start, HttpResponse.init, StoresBody]
  | append_singleton events e ih =>
    rw [msh3Run_append_singleton, List.flatMap_append, List.flatMap_singleton]
    exact msh3RequestCb_body (ih fun e he => hunrecorded e (List.mem_append_left _ he))
      (hunrecorded e (by simp))

theorem msh3RequestCb_status (rctx : Msh3ReqCtx) (hunrecorded : ¬ e.Recorded) :
    (msh3RequestCb rctx e).res.statusCode = e.status.elim rctx.res.statusCode
      fun val => Int32.ofInt (atoi (CString.ofBytes val).bytes) := by
  cases e with
  | headerReceived header nstr vstr alloc =>
    cases header with
    | none => rfl
    | some header =>
      rw [msh3RequestCb, Msh3Event.status]
      split_ifs with hname hnstr
      · rfl
      · exact absurd ⟨hname, by simpa using hnstr⟩ hunrecorded
      · rfl
      · rfl
  | dataReceived data newBody =>
    rw [msh3RequestCb]
    split_ifs <;> rfl
  | shutdownComplete locked closed code =>
    rw [msh3RequestCb]
    split_ifs <;> rfl

/-- The last `:status` decides. -/
theorem msh3Run_status (hunrecorded : ∀ e ∈ events, ¬ e.Recorded) {val : List UInt8}
    (hlast : (events.filterMap Msh3Event.status).getLast? = some val) :
    (msh3Run events).res.statusCode = Int32.ofInt (atoi (CString.ofBytes val).bytes) := by
  induction events using List.reverseRecOn with
  | nil => simp at hlast
  | append_singleton events e ih =>
    rw [msh3Run_append_singleton, msh3RequestCb_status _ (hunrecorded e (by simp))]
    rw [List.filterMap_append] at hlast
    cases hstatus : e.status with
    | none =>
      simp only [hstatus, List.filterMap_cons, List.filterMap_nil, List.append_nil] at hlast
      exact ih (fun e he => hunrecorded e (List.mem_append_left _ he)) hlast
    | some last =>
      simp only [hstatus, List.filterMap_cons, List.filterMap_nil, List.getLast?_append,
        List.getLast?_singleton, Option.some_or, Option.some.injEq] at hlast
      rw [← hlast]
      rfl

/-- What the callback stores for a header. -/
def entryOf (field : List UInt8 × List UInt8) : HttpHeader :=
  ⟨some (.ofBytes field.1), some (.ofBytes field.2)⟩

theorem eq_of_field {field : List UInt8 × List UInt8} (h : e.field = some field) :
    ∃ nstr vstr alloc, e = .headerReceived (some field) nstr vstr alloc ∧
      field.1 ≠ statusName := by
  cases e with
  | headerReceived header nstr vstr alloc =>
    cases header with
    | none => cases h
    | some header =>
      rw [Msh3Event.field] at h
      split_ifs at h with hname
      obtain rfl := Option.some.inj h
      exact ⟨nstr, vstr, alloc, rfl, hname⟩
  | dataReceived => cases h
  | shutdownComplete => cases h

theorem msh3RequestCb_of_field (rctx : Msh3ReqCtx) {name val : List UInt8} (nstr vstr : Bool)
    (alloc : HeadersAlloc) (hname : name ≠ statusName) :
    (msh3RequestCb rctx (.headerReceived (some (name, val)) nstr vstr alloc)).res.headers =
      if nstr ∧ vstr then (headersAdd alloc rctx.res.headers (some (.ofBytes name))
        (some (.ofBytes val))).1
      else rctx.res.headers := by
  rw [msh3RequestCb, if_neg hname]
  split_ifs <;> rfl

theorem msh3RequestCb_of_no_field (rctx : Msh3ReqCtx) (h : e.field = none) :
    (msh3RequestCb rctx e).res.headers = rctx.res.headers := by
  cases e with
  | headerReceived header nstr vstr alloc =>
    cases header with
    | none => rfl
    | some header =>
      rw [Msh3Event.field] at h
      split_ifs at h with hname
      rw [msh3RequestCb, if_pos hname]
      split_ifs <;> rfl
  | dataReceived data newBody =>
    rw [msh3RequestCb]
    split_ifs <;> rfl
  | shutdownComplete locked closed code =>
    rw [msh3RequestCb]
    split_ifs <;> rfl

/-- A header is added, or the entries stay. -/
theorem msh3RequestCb_length (rctx : Msh3ReqCtx) (e : Msh3Event) :
    (msh3RequestCb rctx e).res.headers.count ≤ rctx.res.headers.count + e.field.toList.length := by
  rw [HttpHeaders.count, HttpHeaders.count]
  cases hfield : e.field with
  | none =>
    rw [msh3RequestCb_of_no_field rctx hfield]
    simp
  | some field =>
    obtain ⟨nstr, vstr, alloc, rfl, hname⟩ := eq_of_field hfield
    rw [msh3RequestCb_of_field rctx nstr vstr alloc hname]
    split_ifs
    · rcases headersAdd_headers alloc rctx.res.headers (.ofBytes field.1) (.ofBytes field.2) with
        ⟨-, hadded⟩ | ⟨-, hkept⟩
      · simp [hadded]
      · simp [hkept]
    · simp

/-- With an array that was only ever grown when full, a header that is kept is added. -/
theorem msh3RequestCb_of_kept
    (h : Doubled rctx.res.headers.count rctx.res.headers.capacity)
    {field : List UInt8 × List UInt8} (hfield : e.field = some field)
    (hkept : e.Kept rctx.res.headers.count) :
    (msh3RequestCb rctx e).res.headers.headers = rctx.res.headers.headers ++ [entryOf field] ∧
      Doubled (msh3RequestCb rctx e).res.headers.count
        (msh3RequestCb rctx e).res.headers.capacity := by
  obtain ⟨nstr, vstr, alloc, rfl, hname⟩ := eq_of_field hfield
  obtain ⟨hnstr, hvstr, hgranted⟩ := Or.resolve_left hkept hname
  have hadded := (headersAdd_eq_none_iff h (.ofBytes field.1) (.ofBytes field.2)).mpr hgranted
  rw [msh3RequestCb_of_field rctx nstr vstr alloc hname, if_pos ⟨hnstr, hvstr⟩]
  rcases headersAdd_headers alloc rctx.res.headers (.ofBytes field.1) (.ofBytes field.2) with
    ⟨-, hentries⟩ | ⟨⟨_, hfailed⟩, -⟩
  · exact ⟨hentries, doubled_headersAdd h hadded⟩
  · rw [hadded] at hfailed
    cases hfailed

theorem msh3RequestCb_of_not_kept
    (h : Doubled rctx.res.headers.count rctx.res.headers.capacity)
    (hkept : ¬ e.Kept rctx.res.headers.count) :
    (∃ field, e.field = some field) ∧
      (msh3RequestCb rctx e).res.headers.headers = rctx.res.headers.headers := by
  cases hfield : e.field with
  | none =>
    exfalso
    apply hkept
    cases e with
    | headerReceived header nstr vstr alloc =>
      cases header with
      | none => trivial
      | some header =>
        rw [Msh3Event.field] at hfield
        split_ifs at hfield with hname
        exact Or.inl hname
    | dataReceived => trivial
    | shutdownComplete => trivial
  | some field =>
    refine ⟨⟨field, rfl⟩, ?_⟩
    obtain ⟨nstr, vstr, alloc, rfl, hname⟩ := eq_of_field hfield
    rw [msh3RequestCb_of_field rctx nstr vstr alloc hname]
    split_ifs with hcopied
    · rcases headersAdd_headers alloc rctx.res.headers (.ofBytes field.1) (.ofBytes field.2) with
        ⟨hadded, -⟩ | ⟨-, hentries⟩
      · exact absurd (Or.inr ⟨hcopied.1, hcopied.2, (headersAdd_eq_none_iff h _ _).mp hadded⟩) hkept
      · exact hentries
    · rfl

theorem headersKept_append_singleton :
    HeadersKept (events ++ [e]) ↔
      HeadersKept events ∧ e.Kept (events.filterMap Msh3Event.field).length := by
  constructor
  · intro h
    exact ⟨fun p e' q hcut => h p e' (q ++ [e]) (by simp [hcut]), h events e [] rfl⟩
  · rintro ⟨hfront, hlast⟩ p e' q hcut
    rcases append_singleton_cut hcut with ⟨-, rfl, rfl⟩ | ⟨q', -, hcut'⟩
    · exact hlast
    · exact hfront p e' q' hcut'

/-- All headers are stored in order, in a block that has only been doubled. -/
structure StoredAll (events : List Msh3Event) : Prop where
  entries : (msh3Run events).res.headers.headers =
    (events.filterMap Msh3Event.field).map entryOf
  doubled : Doubled (msh3Run events).res.headers.count (msh3Run events).res.headers.capacity

theorem StoredAll.count (h : StoredAll events) :
    (msh3Run events).res.headers.count = (events.filterMap Msh3Event.field).length := by
  rw [HttpHeaders.count, h.entries, List.length_map]

/-- Where all headers are kept, all are stored. -/
theorem msh3Run_kept (h : HeadersKept events) : StoredAll events := by
  induction events using List.reverseRecOn with
  | nil => exact ⟨rfl, Or.inl ⟨rfl, rfl⟩⟩
  | append_singleton events e ih =>
    obtain ⟨hfront, hlast⟩ := headersKept_append_singleton.mp h
    have hstored := ih hfront
    cases hfield : e.field with
    | none =>
      have hsame := msh3RequestCb_of_no_field (msh3Run events) hfield
      constructor
      · rw [msh3Run_append_singleton, hsame, hstored.entries]
        simp [hfield]
      · rw [msh3Run_append_singleton, hsame]
        exact hstored.doubled
    | some field =>
      obtain ⟨hadded, hnext⟩ :=
        msh3RequestCb_of_kept hstored.doubled hfield (hstored.count ▸ hlast)
      constructor
      · rw [msh3Run_append_singleton, hadded, hstored.entries]
        simp [hfield]
      · rw [msh3Run_append_singleton]
        exact hnext

/-- Where one is not, fewer are stored than came. -/
theorem msh3Run_lost (h : ¬ HeadersKept events) :
    (msh3Run events).res.headers.count < (events.filterMap Msh3Event.field).length := by
  induction events using List.reverseRecOn with
  | nil => exact absurd (fun p e q hcut => by simp at hcut) h
  | append_singleton events e ih =>
    rw [headersKept_append_singleton, not_and_or] at h
    have hlength : ((events ++ [e]).filterMap Msh3Event.field).length =
        (events.filterMap Msh3Event.field).length + e.field.toList.length := by
      rw [List.filterMap_append, List.length_append]
      cases hfield : e.field <;> simp [hfield]
    rw [msh3Run_append_singleton, hlength]
    by_cases hfront : HeadersKept events
    · have hstored := msh3Run_kept hfront
      have hlast := h.resolve_left (not_not_intro hfront)
      obtain ⟨⟨field, hfield⟩, hkept⟩ :=
        msh3RequestCb_of_not_kept hstored.doubled (hstored.count ▸ hlast)
      rw [HttpHeaders.count, hkept, ← HttpHeaders.count, hstored.count, hfield]
      simp
    · have hstep := msh3RequestCb_length (msh3Run events) e
      have hbefore := ih hfront
      omega

end Events

section Sending

variable {calls : Msh3Calls} {early : List Msh3Event}
  {waits : List (List Msh3Event × Option ErrorCode)} {rctx : Msh3ReqCtx} {res : HttpResponse}

theorem msh3Run_append (early events : List Msh3Event) :
    msh3Run (early ++ events) = events.foldl msh3RequestCb (msh3Run early) :=
  List.foldl_append

theorem msh3Events_cons (early events : List Msh3Event) (rc : Option ErrorCode)
    (waits : List (List Msh3Event × Option ErrorCode)) :
    msh3Events early ((events, rc) :: waits) = msh3Events (early ++ events) waits := by
  simp [msh3Events]

/-- Behind the event that ends the wait comes none. -/
theorem eq_nil_of_completes {front rest : List Msh3Event} (hstream : Msh3Stream (front ++ rest))
    (h : ∃ e ∈ front, e.completes = true) : rest = [] := by
  obtain ⟨before, locked, closed, code, hevents, hdelivered⟩ := hstream
  obtain ⟨e, he, hcompletes⟩ := h
  rcases rest.eq_nil_or_concat with rfl | ⟨rest, last, rfl⟩
  · rfl
  · rw [List.concat_eq_append, ← List.append_assoc] at hevents
    obtain ⟨hfront, -⟩ := List.append_inj' hevents rfl
    have hdeliver := hdelivered e (hfront ▸ List.mem_append_left rest he)
    cases e with
    | headerReceived => cases hcompletes
    | dataReceived => cases hcompletes
    | shutdownComplete => exact hdeliver.elim

/-- Once the last event is there, the wait is over. -/
theorem waitLoop_of_complete (waits : List (List Msh3Event × Option ErrorCode))
    (h : rctx.isComplete = true) : waitLoop rctx waits = some rctx := by
  cases waits <;> rw [waitLoop, if_pos h]

theorem not_waitFails_of_complete (h : ∃ e ∈ early, e.completes = true) :
    ¬ WaitFails early waits := by
  rintro ⟨ws, events, e, ws', -, hbefore⟩
  obtain ⟨ev, hev, hcompletes⟩ := h
  rw [hbefore ev (List.mem_append_left _ hev)] at hcompletes
  cases hcompletes

theorem waitFails_cons {events : List Msh3Event} (h : WaitFails (early ++ events) waits)
    (rc : Option ErrorCode) :
    WaitFails early ((events, rc) :: waits) := by
  obtain ⟨ws, events', e, ws', rfl, hbefore⟩ := h
  refine ⟨(events, rc) :: ws, events', e, ws', rfl, fun ev hev => hbefore ev ?_⟩
  rwa [msh3Events_cons] at hev

/-- A wait that ends well has seen all events. -/
theorem waitLoop_success (hstream : Msh3Stream (msh3Events early waits))
    (h : waitLoop (msh3Run early) waits = some rctx) (hcode : rctx.errorCode = none) :
    rctx = msh3Run (msh3Events early waits) ∧ ¬ WaitFails early waits ∧
      ∃ e ∈ msh3Events early waits, e.completes = true := by
  induction waits generalizing early with
  | nil =>
    rw [waitLoop, Option.ite_none_right_eq_some, msh3Run_isComplete] at h
    obtain ⟨hcompletes, hrctx⟩ := h
    obtain rfl := Option.some.inj hrctx
    exact ⟨by simp [msh3Events], not_waitFails_of_complete hcompletes,
      by simpa [msh3Events] using hcompletes⟩
  | cons wait waits ih =>
    obtain ⟨events, rc⟩ := wait
    by_cases hcomplete : (msh3Run early).isComplete = true
    · rw [waitLoop_of_complete _ hcomplete] at h
      obtain rfl := Option.some.inj h
      rw [msh3Run_isComplete] at hcomplete
      have hnil := eq_nil_of_completes hstream hcomplete
      rw [msh3Events, hnil, List.append_nil]
      exact ⟨rfl, not_waitFails_of_complete hcomplete, hcomplete⟩
    · rw [waitLoop, if_neg hcomplete, ← msh3Run_append] at h
      cases rc with
      | some e =>
        obtain rfl := Option.some.inj h
        cases hcode
      | none =>
        rw [msh3Events_cons] at hstream ⊢
        obtain ⟨hrctx, hwaited, hcompletes⟩ := ih hstream h
        refine ⟨hrctx, ?_, hcompletes⟩
        rintro ⟨ws, events', e, ws', hcut, hbefore⟩
        cases ws with
        | nil => simp at hcut
        | cons w ws =>
          obtain ⟨rfl, rfl⟩ := List.cons.inj hcut
          refine hwaited ⟨ws, events', e, ws', rfl, fun ev hev => hbefore ev ?_⟩
          rwa [msh3Events_cons]

/-- Where no wait fails and the last event comes, the wait ends. -/
theorem waitLoop_of_completes (hstream : Msh3Stream (msh3Events early waits))
    (hwaited : ¬ WaitFails early waits)
    (hcompletes : ∃ e ∈ msh3Events early waits, e.completes = true) :
    waitLoop (msh3Run early) waits = some (msh3Run (msh3Events early waits)) := by
  induction waits generalizing early with
  | nil =>
    simp only [msh3Events, List.flatMap_nil, List.append_nil] at hcompletes ⊢
    exact waitLoop_of_complete [] ((msh3Run_isComplete early).mpr hcompletes)
  | cons wait waits ih =>
    obtain ⟨events, rc⟩ := wait
    by_cases hcomplete : (msh3Run early).isComplete = true
    · rw [waitLoop_of_complete _ hcomplete]
      have hnil := eq_nil_of_completes hstream ((msh3Run_isComplete early).mp hcomplete)
      rw [msh3Events, hnil, List.append_nil]
    · have hearly : ∀ e ∈ early, e.completes = false := by
        intro e he
        by_contra hnot
        exact hcomplete ((msh3Run_isComplete early).mpr ⟨e, he, by simpa using hnot⟩)
      rw [waitLoop, if_neg hcomplete, ← msh3Run_append]
      cases rc with
      | some e =>
        refine absurd ⟨[], events, e, waits, rfl, ?_⟩ hwaited
        simpa [msh3Events] using hearly
      | none =>
        rw [msh3Events_cons] at hstream hcompletes ⊢
        exact ih hstream (fun hfails => hwaited (waitFails_cons hfails none)) hcompletes

/-- `http_msh3_send` returns success exactly where nothing is recorded as failed, and it returns
what the callback has made of the events. -/
theorem msh3Send_ok_iff (hstream : Msh3Stream (msh3Events early waits)) :
    msh3Send calls early waits = some (.ok res) ↔
      Msh3Unfailing calls early waits ∧ res = (msh3Run (msh3Events early waits)).res := by
  constructor
  · intro h
    rw [msh3Send] at h
    split at h
    next => cases h
    next hprepared =>
      obtain ⟨rctx, hrequested, hresult⟩ := Option.map_eq_some_iff.mp h
      split at hresult
      next => cases hresult
      next hcodes =>
        obtain rfl := Except.ok.inj hresult
        obtain ⟨hcode, hcond, hmutex⟩ : rctx.errorCode = none ∧ calls.condFreed = none ∧
            calls.mutexFreed = none := by simpa using hcodes
        rw [msh3Requested] at hrequested
        split_ifs at hrequested with hopened hsent
        · obtain rfl := Option.some.inj hrequested
          cases hcode
        · obtain rfl := Option.some.inj hrequested
          cases hcode
        · cases hlocked : calls.locked with
          | some e =>
            simp only [hlocked] at hrequested
            obtain rfl := Option.some.inj hrequested
            cases hcode
          | none =>
            simp only [hlocked] at hrequested
            obtain ⟨waited, hwait, rfl⟩ := Option.map_eq_some_iff.mp hrequested
            obtain ⟨hwaited, hunlocked⟩ : waited.errorCode = none ∧ calls.unlocked = none := by
              simpa using hcode
            obtain ⟨rfl, hwaits, hcompletes⟩ := waitLoop_success hstream hwait hwaited
            exact ⟨⟨hprepared, by simpa using hopened, by simpa using hsent, hlocked, hunlocked,
              hcond, hmutex, hwaits, hcompletes, (msh3Run_errorCode _).mp hwaited⟩, rfl⟩
  · rintro ⟨h, rfl⟩
    have hwait := waitLoop_of_completes hstream h.waited h.completes
    have hcode := (msh3Run_errorCode _).mpr h.unrecorded
    rw [msh3Run] at hwait
    simp [msh3Send, msh3Requested, h.prepared, h.opened, h.sent, h.locked, h.unlocked,
      h.condFreed, h.mutexFreed, hwait, hcode]

/-- What an event of a stream says is a header without NULs. -/
theorem noNul_of_field {events : List Msh3Event} (hstream : Msh3Stream events)
    {field : List UInt8 × List UInt8} (h : field ∈ events.filterMap Msh3Event.field) :
    0 ∉ field.1 ∧ 0 ∉ field.2 := by
  obtain ⟨front, locked, closed, code, rfl, hdelivered⟩ := hstream
  obtain ⟨e, he, hfield⟩ := List.mem_filterMap.mp h
  obtain ⟨nstr, vstr, alloc, rfl, -⟩ := eq_of_field hfield
  rcases List.mem_append.mp he with hfront | hlast
  · exact (hdelivered _ hfront).1
  · simp at hlast

theorem digits_of_status {events : List Msh3Event} (hstream : Msh3Stream events)
    {val : List UInt8} (h : val ∈ events.filterMap Msh3Event.status) :
    val.length = 3 ∧ ∀ b ∈ val, isDigitByte b = true := by
  obtain ⟨front, locked, closed, code, rfl, hdelivered⟩ := hstream
  obtain ⟨e, he, hstatus⟩ := List.mem_filterMap.mp h
  cases e with
  | headerReceived header nstr vstr alloc =>
    cases header with
    | none => cases hstatus
    | some header =>
      rw [Msh3Event.status] at hstatus
      split_ifs at hstatus with hname
      obtain rfl := Option.some.inj hstatus
      rcases List.mem_append.mp he with hfront | hlast
      · exact (hdelivered _ hfront).2 hname
      · simp at hlast
  | dataReceived => cases hstatus
  | shutdownComplete => cases hstatus

/-- Three digits are read as their value. -/
theorem toInt_status {val : List UInt8} (hlen : val.length = 3)
    (hdigits : ∀ b ∈ val, isDigitByte b = true) :
    (Int32.ofInt (atoi (CString.ofBytes val).bytes)).toInt = decimalValue val := by
  have hnul : 0 ∉ val := fun h => by simpa [isDigitByte] using hdigits 0 h
  have hlt := decimalValue_lt hdigits
  have hne : val ≠ [] := List.ne_nil_of_length_eq_add_one hlen
  have hsize : (Int32.size : ℤ) = 4294967296 := rfl
  rw [hlen] at hlt
  have hatoi : atoi (val ++ []) = decimalValue val :=
    atoi_numeral hdigits hne (by simp) (by omega)
  rw [List.append_nil] at hatoi
  rw [CString.ofBytes_of_noNul hnul, hatoi, Int32.toInt_ofInt]
  exact Int.bmod_eq_of_le (by omega) (by omega)

/-- Where no other failure tells, the response says what the events said exactly when all headers
are kept. -/
theorem msh3Reports_iff {events : List Msh3Event} (hstream : Msh3Stream events)
    (hunrecorded : ∀ e ∈ events, ¬ e.Recorded) :
    Msh3Reports events (msh3Run events).res ↔ HeadersKept events := by
  constructor
  · intro h
    by_contra hlost
    have hlt := msh3Run_lost hlost
    have hlength := congrArg List.length h.headers
    rw [List.length_map, List.length_map, ← HttpHeaders.count] at hlength
    omega
  · intro hkept
    obtain ⟨hbody, hbodyLen⟩ := msh3Run_body hunrecorded
    refine ⟨fun val hlast => ?_, ?_, hbody, hbodyLen⟩
    · obtain ⟨hlen, hdigits⟩ := digits_of_status hstream (List.mem_of_getLast? hlast)
      rw [msh3Run_status hunrecorded hlast, toInt_status hlen hdigits]
    · rw [(msh3Run_kept hkept).entries, List.map_map]
      apply List.map_congr_left
      intro field hfield
      obtain ⟨hname, hval⟩ := noNul_of_field hstream hfield
      simp [entryOf, CString.ofBytes_of_noNul hname, CString.ofBytes_of_noNul hval]

end Sending

/-- Every call of `http_msh3_send` succeeds. -/
def msh3AllWell : Msh3Calls := ⟨none, true, true, none, none, none, none, none⟩

/-- The events of a response with a header `a: b` and the status 200. -/
def msh3HeaderEvents (vstr : Bool) : List Msh3Event :=
  [.headerReceived (some (statusName, [0x32, 0x30, 0x30])) true true fun _ _ => true,
    .headerReceived (some ([0x61], [0x62])) true vstr fun _ _ => true,
    .shutdownComplete true false 0]

theorem msh3Stream_headerEvents (vstr : Bool) :
    Msh3Stream (msh3Events (msh3HeaderEvents vstr) []) := by
  refine ⟨[_, _], true, false, 0, rfl, ?_⟩
  simp only [List.forall_mem_cons, List.not_mem_nil, IsEmpty.forall_iff, implies_true, and_true,
    Msh3Event.Delivered]
  decide

/-- A response of `http_msh3_send` says what the events said exactly when all headers are kept or
another failure is recorded. -/
theorem msh3Send_reports_iff (calls : Msh3Calls) (early : List Msh3Event)
    (waits : List (List Msh3Event × Option ErrorCode))
    (hstream : Msh3Stream (msh3Events early waits)) :
    (∀ res, msh3Send calls early waits = some (.ok res) →
        Msh3Reports (msh3Events early waits) res) ↔
      HeadersKept (msh3Events early waits) ∨ ¬ Msh3Unfailing calls early waits := by
  simp only [msh3Send_ok_iff hstream]
  constructor
  · intro h
    by_cases hunfailing : Msh3Unfailing calls early waits
    · exact Or.inl ((msh3Reports_iff hstream hunfailing.unrecorded).mp (h _ ⟨hunfailing, rfl⟩))
    · exact Or.inr hunfailing
  · rintro (hkept | hfailing) res ⟨hunfailing, rfl⟩
    · exact (msh3Reports_iff hstream hunfailing.unrecorded).mpr hkept
    · exact absurd hunfailing hfailing

theorem msh3Send_reports_iff_headerEvents :
    Msh3Stream (msh3Events (msh3HeaderEvents true) []) ∧
      ((∀ res, msh3Send msh3AllWell (msh3HeaderEvents true) [] = some (.ok res) →
          Msh3Reports (msh3Events (msh3HeaderEvents true) []) res) ↔
        HeadersKept (msh3Events (msh3HeaderEvents true) []) ∨
          ¬ Msh3Unfailing msh3AllWell (msh3HeaderEvents true) []) :=
  ⟨msh3Stream_headerEvents true,
    msh3Send_reports_iff msh3AllWell _ [] (msh3Stream_headerEvents true)⟩

/-- The value of a header cannot be copied: success is returned, without the header. -/
theorem msh3Send_drops_header :
    ∃ res, msh3Send msh3AllWell (msh3HeaderEvents false) [] = some (.ok res) ∧
      res.headers.headers = [] ∧ ¬ Msh3Reports (msh3HeaderEvents false) res := by
  refine ⟨{ HttpResponse.init with statusCode := 200 }, by decide, rfl, fun h => ?_⟩
  have hlength := congrArg List.length h.headers
  revert hlength
  decide

end AbstractHttp.Transport
