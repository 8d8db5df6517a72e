import AbstractHttp.EventStream.Conformance
import AbstractHttp.Transport.Authorization
import AbstractHttp.Transport.RawExchange

/-!
# A session with an event stream

`c_abstract_http_sse_sync_read_loop` adds its headers to the request, has the transport send it,
feeds the body of the response to a parser and reports the end. The asynchronous task, and a
registration without a thread pool, call it and report a failure once more.
-/
namespace AbstractHttp.Transport
open Library Outcome Http EventStream

/-- The callbacks of a session, all of them given. -/
inductive SseCallback where
  | onEvent (ev : SseEvent)
  | onError (code : ℤ)
  | onClose
  deriving DecidableEq, Repr

/-- The calls among the effects of the parser. -/
def sseCallbacks (out : List SseEffect) : List SseCallback :=
  out.filterMap fun
    | .onEvent ev => some (.onEvent ev)
    | .onError code => some (.onError code)
    | .stored _ _ => none

/-- The headers of a subscription. -/
def sseFields (config : Option SseConfig) : List (CString × CString) :=
  (literal "Accept", literal "text/event-stream") ::
    (literal "Connection", literal "keep-alive") ::
      (literal "Cache-Control", literal "no-cache") ::
        ((config.bind SseConfig.lastEventId).map fun id =>
          (literal "Last-Event-ID", CString.ofBytes id)).toList

/-- Calls of `http_headers_add` until one fails; `alloc i` is the memory of the call `i`. -/
def addFields (alloc : ℕ → HeadersAlloc) (i : ℕ) :
    List (CString × CString) → HttpHeaders → HttpHeaders × Option ErrorCode
  | [], headers => (headers, none)
  | (key, value) :: fields, headers =>
    match headersAdd (alloc i) headers (some key) (some value) with
    | (headers, some e) => (headers, some e)
    | (headers, none) => addFields alloc (i + 1) fields headers

/-- `c_abstract_http_sse_init`, given a request. -/
def sseInit (alloc : ℕ → HeadersAlloc) (req : HttpRequest) (config : Option SseConfig) :
    HttpRequest × Option ErrorCode :=
  let added := addFields alloc 0 (sseFields config) req.headers
  ({ req with headers := added.1 }, added.2)

/-- A call of the read loop: whether there is a client, the request, the exit flag, the `send` of
the client with its code and its response, and the memory of the calls that the loop makes. -/
structure SseLoopCall where
  client : Bool
  req : Option HttpRequest
  exitFlag : Bool
  send : Option (HttpRequest → ℤ × Option HttpResponse)
  headersAlloc : ℕ → HeadersAlloc
  initAlloc : SseAlloc
  feedAlloc : SseAlloc
  garbage : SseBlock → Memory UInt8

/-- The bytes that are fed to the parser: the body, unless it is NULL or has no byte. -/
def sseBodyBytes (res : HttpResponse) : List UInt8 := (res.body.getD []).take res.bodyLen

/-- What is reported once the transport has returned. -/
def sseReport (build : SseBuild) (call : SseLoopCall) (parser : SseParserCtx) (rc : ℤ)
    (res : Option HttpResponse) : List SseCallback × ℤ :=
  if rc ≠ 0 then ([.onError rc], rc)
  else
    match res with
    -- No error of the transport, but no response: the code 0 is reported and returned.
    | none => ([.onError rc], rc)
    | some res =>
      let fed := sseParserFeed build call.feedAlloc parser (sseBodyBytes res)
      match fed.failure with
      | some e => (sseCallbacks fed.output ++ [.onError e.value], e.value)
      | none => (sseCallbacks fed.output ++ [.onClose], 0)

/-- `c_abstract_http_sse_sync_read_loop`: the callbacks in order, and the code that it returns. -/
def sseSyncReadLoop (build : SseBuild) (call : SseLoopCall) : List SseCallback × ℤ :=
  match call.client, call.req with
  | true, some req =>
    if call.exitFlag then ([], 0)
    else
      match call.send with
      | none => ([], ErrorCode.inval.value)
      | some send =>
        match sseInit call.headersAlloc req none with
        | (_, some e) => ([.onError e.value], e.value)
        | (req, none) =>
          match sseParserInit call.initAlloc none call.garbage with
          | .error e => ([.onError e.value], e.value)
          | .ok parser => sseReport build call parser (send req).1 (send req).2
  | _, _ => ([], ErrorCode.inval.value)

/-- What the task, and a registration without a thread pool, make of what the loop returns. -/
def sseRepeatError : List SseCallback × ℤ → List SseCallback × ℤ
  | (callbacks, err) => if err ≠ 0 then (callbacks ++ [.onError err], err) else (callbacks, 0)

/-- `c_abstract_http_sse_async_task`, whose exit flag is not set. -/
def sseAsyncTask (build : SseBuild) (call : SseLoopCall) : List SseCallback × ℤ :=
  sseRepeatError (sseSyncReadLoop build { call with exitFlag := false })

/-- What a registration gives: an error, a task that was put into the pool, or, without a pool, the
callbacks and the code of a loop that has run. -/
inductive SseRegistration where
  | refused (e : ErrorCode)
  | queued (task : List SseCallback × ℤ)
  | ran (callbacks : List SseCallback) (rc : ℤ)

/-- `c_abstract_http_sse_async_register`; a pool is given by whether it grants the block of the
task and by what `abstract_http_thread_pool_push` returns. -/
def sseAsyncRegister (build : SseBuild) (pool : Option (Bool × Option ErrorCode))
    (call : SseLoopCall) : SseRegistration :=
  if call.client = false ∨ call.req = none then .refused .inval
  else
    match pool with
    | some (false, _) => .refused .nomem
    | some (true, some e) => .refused e
    | some (true, none) => .queued (sseAsyncTask build call)
    | none =>
      let (callbacks, rc) :=
        sseRepeatError (sseSyncReadLoop build { call with exitFlag := false })
      .ran callbacks rc

/-- An effect that is a report of an error. -/
def IsErrorReport (w : SseEffect) : Prop := ∃ code, w = .onError code

section Reports

variable {build : SseBuild} {alloc : SseAlloc} {ctx : SseParserCtx}

theorem final_quiet {o : SseOutcome} (h : ∀ w ∈ o.output, ¬ IsErrorReport w) :
    Final IsErrorReport o := .inl h

theorem final_done (ctx : SseParserCtx) : Final IsErrorReport (done ctx : SseOutcome) :=
  final_quiet (by simp [done])

theorem final_fail (ctx : SseParserCtx) (e : ErrorCode) :
    Final IsErrorReport (Outcome.fail ctx [] e : SseOutcome) :=
  final_quiet (by simp [Outcome.fail])

theorem final_report (ctx : SseParserCtx) (code : ℤ) (e : ErrorCode) :
    Final IsErrorReport (Outcome.fail ctx [.onError code] e : SseOutcome) :=
  .inr ⟨by simp, [], .onError code, rfl, by simp⟩

theorem final_storeLine (ctx : SseParserCtx) (off : ℕ) (bytes : List UInt8) :
    Final IsErrorReport (sseStoreLine ctx off bytes) :=
  final_quiet (by simp [sseStoreLine, IsErrorReport])

theorem final_storeData (ctx : SseParserCtx) (off : ℕ) (bytes : List UInt8) :
    Final IsErrorReport (sseStoreData ctx off bytes) :=
  final_quiet (by simp [sseStoreData, IsErrorReport])

theorem final_dispatch (alloc : SseAlloc) (ctx : SseParserCtx) :
    Final IsErrorReport (sseDispatch alloc ctx) := by
  rw [sseDispatch]
  refine Final.andThen ?_ fun _ => ?_
  · split
    · rw [sseFireEvent_eq]
      exact final_quiet (by simp [IsErrorReport])
    · exact final_done ctx
  · rw [sseResetEvent]
    split
    · exact final_storeData _ _ _
    · exact final_fail _ _

theorem final_appendData (ctx : SseParserCtx) (bytes : List UInt8) :
    Final IsErrorReport (sseAppendData ctx bytes) :=
  (final_storeData _ _ _).andThen fun _ => final_done _

theorem final_addData (build : SseBuild) (alloc : SseAlloc) (ctx : SseParserCtx)
    (value : List UInt8) : Final IsErrorReport (sseAddData build alloc ctx value) := by
  rw [sseAddData]
  refine Final.andThen ?_ fun _ => (final_appendData _ _).andThen fun _ =>
    (final_appendData _ _).andThen fun _ => final_storeData _ _ _
  rw [sseGrowData]
  dsimp only
  split_ifs
  · exact final_report _ _ _
  · exact final_done _
  · exact final_fail _ _
  · exact final_done _

theorem final_processLine (build : SseBuild) (alloc : SseAlloc) (ctx : SseParserCtx)
    (line : List UInt8) : Final IsErrorReport (sseProcessLine build alloc ctx line) := by
  by_cases hline : line = []
  · rw [hline, sseProcessLine_nil]
    exact final_dispatch alloc ctx
  · by_cases hdata : (sseSplitField line).1 = dataField
    · rw [sseProcessLine_data hdata]
      exact final_addData build alloc ctx _
    · obtain ⟨ev, id, retry, e, hquiet, -⟩ := sseProcessLine_quiet build alloc ctx hline hdata
      rw [hquiet]
      exact final_quiet (by simp)

theorem final_feedByte (build : SseBuild) (alloc : SseAlloc) (ctx : SseParserCtx) (c : UInt8) :
    Final IsErrorReport (sseFeedByte build alloc ctx c) := by
  by_cases hcr : c = cr
  · rw [hcr, sseFeedByte_cr]
    exact final_quiet (by simp [IsErrorReport])
  · by_cases hlf : c = lf
    · rw [hlf, sseFeedByte_lf]
      refine Final.andThen (final_quiet (by simp [IsErrorReport])) fun _ => ?_
      exact (final_processLine _ _ _ _).andThen fun _ => final_done _
    · rw [sseFeedByte_of_ne hcr hlf, sseGrowLine]
      refine Final.andThen ?_ fun _ => (final_storeLine _ _ _).andThen fun _ => final_done _
      dsimp only
      split_ifs
      · exact final_report _ _ _
      · exact final_done _
      · exact final_fail _ _
      · exact final_done _

/-- The parser reports at most one error, and nothing after it. -/
theorem final_parserFeed (build : SseBuild) (alloc : SseAlloc) (ctx : SseParserCtx)
    (chunk : List UInt8) : Final IsErrorReport (sseParserFeed build alloc ctx chunk) := by
  induction chunk generalizing ctx with
  | nil => exact final_done ctx
  | cons c cs ih => exact (final_feedByte build alloc ctx c).andThen fun _ => ih _

/-- Events, then at most one error that the parser reports itself. -/
theorem sseCallbacks_final {o : SseOutcome} (h : Final IsErrorReport o) :
    ∃ events : List SseEvent, ∃ own : List ℤ, own.length ≤ 1 ∧
      (o.failure = none → own = [] ∧ events = firedEvents o.output) ∧
        sseCallbacks o.output = events.map .onEvent ++ own.map .onError := by
  have hquiet : ∀ out : List SseEffect, (∀ w ∈ out, ¬ IsErrorReport w) →
      sseCallbacks out = (firedEvents out).map .onEvent := by
    intro out hout
    rw [sseCallbacks, firedEvents, List.map_filterMap]
    refine List.filterMap_congr fun w hw => ?_
    cases w with
    | onEvent ev => rfl
    | onError code => exact absurd ⟨code, rfl⟩ (hout _ hw)
    | stored block extent => rfl
  rcases h with hnone | ⟨hfail, out, w, hout, hrest⟩
  · exact ⟨firedEvents o.output, [], Nat.zero_le 1, fun _ => ⟨rfl, rfl⟩, by
      rw [hquiet _ hnone, List.map_nil, List.append_nil]⟩
  · have hsplit : sseCallbacks o.output =
        (firedEvents out).map .onEvent ++ sseCallbacks [w] := by
      rw [hout, sseCallbacks, List.filterMap_append, ← sseCallbacks, hquiet _ hrest]
      rfl
    cases w with
    | onEvent ev =>
      refine ⟨firedEvents out ++ [ev], [], Nat.zero_le 1, fun h => absurd h hfail, ?_⟩
      rw [hsplit, List.map_append, List.map_nil, List.append_nil]
      rfl
    | onError code =>
      exact ⟨firedEvents out, [code], le_rfl, fun h => absurd h hfail, hsplit⟩
    | stored block extent =>
      exact ⟨firedEvents out, [], Nat.zero_le 1, fun h => absurd h hfail, hsplit⟩

/-- A call with all that it needs, which is not told to stop before it begins. -/
structure SseLoopCall.Started (call : SseLoopCall) : Prop where
  client : call.client = true
  req : call.req ≠ none
  running : call.exitFlag = false
  send : call.send ≠ none

/-- The stream was read to its end: events, then one `on_close`. -/
def SseClosed (events : List SseEvent) : List SseCallback × ℤ → Prop
  | (callbacks, rc) => rc = 0 ∧ callbacks = events.map .onEvent ++ [.onClose]

/-- It was not: events, at most one error of the parser's own, and at last the code that is
returned, which is 0 only when nothing else was called. -/
def SseFailed (events : List SseEvent) (own : List ℤ) : List SseCallback × ℤ → Prop
  | (callbacks, rc) =>
    own.length ≤ 1 ∧ (rc = 0 → events = [] ∧ own = []) ∧
      callbacks = events.map .onEvent ++ own.map .onError ++ [.onError rc]

variable {call : SseLoopCall}

theorem sseFailed_alone (rc : ℤ) : SseFailed [] [] ([.onError rc], rc) :=
  ⟨Nat.zero_le 1, fun _ => ⟨rfl, rfl⟩, rfl⟩

theorem sseReport_cases (build : SseBuild) (call : SseLoopCall) (parser : SseParserCtx) (rc : ℤ)
    (res : Option HttpResponse) :
    (∃ events, SseClosed events (sseReport build call parser rc res)) ∨
      ∃ events own, SseFailed events own (sseReport build call parser rc res) := by
  simp only [sseReport]
  split_ifs with hrc
  · exact .inr ⟨[], [], sseFailed_alone rc⟩
  · cases res with
    | none => exact .inr ⟨[], [], sseFailed_alone rc⟩
    | some res =>
      obtain ⟨events, own, hlength, hok, hcallbacks⟩ := sseCallbacks_final
        (final_parserFeed build call.feedAlloc parser (sseBodyBytes res))
      dsimp only
      rw [hcallbacks]
      cases hfed : (sseParserFeed build call.feedAlloc parser (sseBodyBytes res)).failure with
      | none =>
        refine .inl ⟨events, rfl, ?_⟩
        rw [(hok hfed).1, List.map_nil, List.append_nil]
      | some e => exact .inr ⟨events, own, hlength, fun h => absurd h e.value_ne_zero, rfl⟩

/-- Every call that starts is closed or fails, and says so once, at its end. -/
theorem SseLoopCall.Started.told (h : call.Started) (build : SseBuild) :
    (∃ events, SseClosed events (sseSyncReadLoop build call)) ∨
      ∃ events own, SseFailed events own (sseSyncReadLoop build call) := by
  obtain ⟨req, hreq⟩ := Option.ne_none_iff_exists'.mp h.req
  obtain ⟨send, hsend⟩ := Option.ne_none_iff_exists'.mp h.send
  rw [sseSyncReadLoop, h.client, hreq, h.running, hsend]
  dsimp only
  rw [if_neg Bool.false_ne_true]
  rcases sseInit call.headersAlloc req none with ⟨sent, _ | e⟩
  · dsimp only
    cases sseParserInit call.initAlloc none call.garbage with
    | error e => exact .inr ⟨[], [], sseFailed_alone e.value⟩
    | ok parser => exact sseReport_cases _ _ _ _ _
  · exact .inr ⟨[], [], sseFailed_alone e.value⟩

theorem sseRepeatError_failed {o : List SseCallback × ℤ} {events : List SseEvent} {own : List ℤ}
    (h : SseFailed events own o) :
    sseRepeatError o = ([.onError 0], 0) ∨ ∃ before rc, rc ≠ 0 ∧
      sseRepeatError o = (before ++ [.onError rc, .onError rc], rc) := by
  obtain ⟨callbacks, rc⟩ := o
  obtain ⟨-, hzero, hfailed⟩ := h
  by_cases hrc : rc = 0
  · obtain ⟨rfl, rfl⟩ := hzero hrc
    rw [sseRepeatError, if_neg (not_not.mpr hrc), hfailed, hrc]
    exact .inl rfl
  · refine .inr ⟨events.map .onEvent ++ own.map .onError, rc, hrc, ?_⟩
    rw [sseRepeatError, if_pos hrc, hfailed, List.append_assoc]
    rfl

theorem sseRepeatError_closed {o : List SseCallback × ℤ} {events : List SseEvent}
    (h : SseClosed events o) : sseRepeatError o = o := by
  obtain ⟨callbacks, rc⟩ := o
  obtain ⟨rfl, -⟩ := h
  rw [sseRepeatError, if_neg (not_not.mpr rfl)]

/-- The task says a failure twice, and a missing response once. -/
theorem SseLoopCall.Started.task_told (h : call.Started) (build : SseBuild) :
    (∃ events, SseClosed events (sseAsyncTask build call)) ∨
      sseAsyncTask build call = ([.onError 0], 0) ∨
        ∃ before rc, rc ≠ 0 ∧
          sseAsyncTask build call = (before ++ [.onError rc, .onError rc], rc) := by
  have hcall : { call with exitFlag := false } = call := by rw [← h.running]
  rw [sseAsyncTask, hcall]
  rcases h.told build with ⟨events, hclosed⟩ | ⟨events, own, hfailed⟩
  · exact .inl ⟨events, (sseRepeatError_closed hclosed).symm ▸ hclosed⟩
  · exact .inr (sseRepeatError_failed hfailed)

/-- Without a pool, a registration is the task. -/
theorem sseAsyncRegister_alone (build : SseBuild) (hclient : call.client = true)
    (hreq : call.req ≠ none) :
    sseAsyncRegister build none call =
      .ran (sseAsyncTask build call).1 (sseAsyncTask build call).2 := by
  rw [sseAsyncRegister, if_neg (by simp [hclient, hreq])]
  rfl

end Reports

section Subscription

variable {alloc : ℕ → HeadersAlloc} {req sent : HttpRequest} {url : UrlParts}

theorem addFields_headers {fields : List (CString × CString)} {i : ℕ}
    {headers grown : HttpHeaders} (h : addFields alloc i fields headers = (grown, none)) :
    grown.headers = headers.headers ++ fields.map fun f => ⟨some f.1, some f.2⟩ := by
  induction fields generalizing i headers with
  | nil =>
    obtain rfl : headers = grown := (Prod.mk.inj h).1
    exact (List.append_nil _).symm
  | cons field fields ih =>
    obtain ⟨key, value⟩ := field
    rw [addFields] at h
    rcases headersAdd_headers (alloc i) headers key value with ⟨hok, hadded⟩ | ⟨⟨e, he⟩, -⟩
    · obtain ⟨added, hsplit⟩ : ∃ added, headersAdd (alloc i) headers (some key) (some value) =
          (added, none) := ⟨_, Prod.ext rfl hok⟩
      rw [hsplit] at h hadded
      rw [ih h, hadded, List.append_assoc]
      rfl
    · obtain ⟨added, hsplit⟩ : ∃ added, headersAdd (alloc i) headers (some key) (some value) =
          (added, some e) := ⟨_, Prod.ext rfl he⟩
      rw [hsplit] at h
      cases h

/-- The fields that a subscription adds, as a server reads them. -/
def sseFieldBytes : List (List UInt8 × List UInt8) :=
  (sseFields none).map fun f => (f.1.bytes, f.2.bytes)

/-- The request that a server is meant to read. -/
def subscribed (req : HttpRequest) (url : UrlParts) : RequestText :=
  { rawSent req url with
    headers := fieldsBefore req url ++ (sseFieldBytes ++ fieldsBehind req) }

theorem sseInit_kept (h : sseInit alloc req none = (sent, none)) :
    sent = { req with headers := sent.headers } ∧
      sent.headers.headers =
        req.headers.headers ++ (sseFields none).map fun f => ⟨some f.1, some f.2⟩ := by
  obtain ⟨hreq, hnone⟩ := Prod.mk.inj h
  have hadded : addFields alloc 0 (sseFields none) req.headers = (sent.headers, none) :=
    Prod.ext (congrArg HttpRequest.headers hreq) hnone
  exact ⟨by rw [← hreq], addFields_headers hadded⟩

theorem rawSent_subscribed (h : sseInit alloc req none = (sent, none)) (url : UrlParts) :
    rawSent sent url = subscribed req url := by
  obtain ⟨hkept, hadded⟩ := sseInit_kept h
  have hfields : (fieldsBefore sent url) = fieldsBefore req url ++ sseFieldBytes := by
    rw [fieldsBefore, hadded, List.map_append, List.map_map, ← List.cons_append,
      ← List.cons_append]
    rfl
  have hheaders : (rawSent sent url).headers = (subscribed req url).headers := by
    rw [rawSent_headers, hfields, List.append_assoc]
    rw [hkept]
    rfl
  have hrest : { rawSent sent url with headers := (rawSent req url).headers } =
      rawSent req url := by
    rw [hkept]
    rfl
  calc
    rawSent sent url =
        { { rawSent sent url with headers := (rawSent req url).headers } with
          headers := (rawSent sent url).headers } := rfl
    _ = subscribed req url := by
      rw [hrest, hheaders]
      rfl

theorem FreeOfDelimiters.subscribed (hfree : FreeOfDelimiters req url)
    (h : sseInit alloc req none = (sent, none)) : FreeOfDelimiters sent url := by
  obtain ⟨hkept, hadded⟩ := sseInit_kept h
  have hname : ((sseFields none).all fun f => f.1.bytes.all fun b => InLine b ∧ b ≠ colon) := by
    decide
  have hvalue : ((sseFields none).all fun f => f.2.bytes.all fun b => InLine b) := by decide
  simp only [List.all_eq_true, decide_eq_true_eq] at hname hvalue
  refine ⟨hfree.path, hfree.host, ?_, ?_⟩
  · rw [hadded]
    exact List.forall_mem_append.mpr ⟨hfree.names, List.forall_mem_map.mpr hname⟩
  · rw [hadded]
    exact List.forall_mem_append.mpr ⟨hfree.values, List.forall_mem_map.mpr hvalue⟩

end Subscription

/-- What `client->send` hands back. -/
def RawExchange.returned (x : RawExchange) : ℤ × Option HttpResponse :=
  match x.result with
  | .ok res => (0, some res)
  | .error rc => (rc, none)

/-- A call of the read loop over the raw transport, with a network that fails nowhere: its headers
are added, so that `sent` is sent, and its parser gets its memory. -/
structure OverRaw (requestAlloc : RequestAlloc) (net : RawNetwork)
    (answer : List (List UInt8) → ℤ) (call : SseLoopCall) (req sent : HttpRequest)
    (url : UrlParts) : Prop where
  client : call.client = true
  request : call.req = some req
  running : call.exitFlag = false
  send : call.send =
    some fun req => (rawSend requestAlloc grantResponse net answer req).returned
  added : sseInit call.headersAlloc req none = (sent, none)
  parser : sseParserInit call.initAlloc none call.garbage = .ok (sseParserFresh none call.garbage)
  granted : call.feedAlloc = grantAll
  buffered : req.onChunk = false
  parsed : rawParseUrl requestAlloc req.url = .ok url
  free : FreeOfDelimiters req url
  reached : Reached requestAlloc net sent
  inBounds : StoresInBounds (rawRequest requestAlloc sent)

section Session

variable {requestAlloc : RequestAlloc} {net : RawNetwork} {answer : List (List UInt8) → ℤ}
  {call : SseLoopCall} {req sent : HttpRequest} {url : UrlParts}

/-- The whole of an ordinary stream goes to `on_event`. -/
theorem sseReport_ordinary {res : HttpResponse} (hgranted : call.feedAlloc = grantAll)
    (hordinary : Ordinary (sseBodyBytes res)) :
    ∃ events, SseClosed events
        (sseReport .default call (sseParserFresh none call.garbage) 0 (some res)) ∧
      (events.map fun ev => (ev.data, ev.id)) = interpret (sseBodyBytes res) := by
  have hlines : lines (sseBodyBytes res) = linesFrom false [] (sseBodyBytes res) := by
    rw [lines, stripBom, if_neg hordinary.noBom]
  have hmoderate : Moderate (linesFrom false [] (sseBodyBytes res)) [] := by
    rw [← hlines]
    exact hordinary.moderate
  obtain ⟨hok, hpairs⟩ := (sseHolds_fresh call.garbage).feed
    (crBeforeLf_of_forall hordinary.crlf) hmoderate
  obtain ⟨events, own, -, hquiet, hcallbacks⟩ := sseCallbacks_final
    (final_parserFeed .default grantAll (sseParserFresh none call.garbage) (sseBodyBytes res))
  obtain ⟨rfl, hevents⟩ := hquiet hok
  refine ⟨events, ?_, ?_⟩
  · rw [sseReport, if_neg (by simp), hgranted]
    dsimp only
    rw [hok, hcallbacks]
    exact ⟨rfl, by rw [List.map_nil, List.append_nil]⟩
  · rw [hevents, ← eventPairs_eq, hpairs, interpret, hlines]
    rfl

theorem OverRaw.loop_eq (h : OverRaw requestAlloc net answer call req sent url) :
    sseSyncReadLoop .default call =
      sseReport .default call (sseParserFresh none call.garbage)
        (rawSend requestAlloc grantResponse net answer sent).returned.1
        (rawSend requestAlloc grantResponse net answer sent).returned.2 := by
  rw [sseSyncReadLoop, h.client, h.request, h.running, h.send]
  dsimp only
  rw [if_neg Bool.false_ne_true, h.added]
  dsimp only
  rw [h.parser]

/-- Every call that starts ends with exactly one closure or with the error that it returns. Over the
raw transport, however the network cuts the bytes of both directions, a server reads the request
with the headers of a subscription, and `on_event` is given the events of the stream that the server
answers with, in their order and before the one `on_close`. -/
theorem eventStream_session (build : SseBuild) (call : SseLoopCall) :
    (call.Started →
      (∃ events, SseClosed events (sseSyncReadLoop build call)) ∨
        ∃ events own, SseFailed events own (sseSyncReadLoop build call)) ∧
    ∀ {requestAlloc : RequestAlloc} {net : RawNetwork} {answer : List (List UInt8) → ℤ}
      {req sent : HttpRequest} {url : UrlParts},
      OverRaw requestAlloc net answer call req sent url →
      readRequest (rawSend requestAlloc grantResponse net answer sent).wire =
          some (subscribed req url) ∧
        ∀ (serve : RequestText → ResponseText)
          (seg : Segmentation (serve (subscribed req url)).text), net.recvs = seg.results →
          Roomy call.garbage (serve (subscribed req url)).body →
          ∃ events, SseClosed events (sseSyncReadLoop .default call) ∧
            (events.map fun ev => (ev.data, ev.id)) =
              interpret (serve (subscribed req url)).body := by
  refine ⟨fun h => h.told build, fun {requestAlloc net answer req sent url} h => ?_⟩
  obtain ⟨hkept, -⟩ := sseInit_kept h.added
  have hurl : rawParseUrl requestAlloc sent.url = .ok url := by
    rw [hkept]
    exact h.parsed
  have hbuffered : sent.onChunk = false := by
    rw [hkept]
    exact h.buffered
  have hsent := rawSent_subscribed h.added url
  have hfree := h.free.subscribed h.added
  rw [← hsent]
  refine ⟨?_, fun serve seg hrecvs hroomy => ?_⟩
  · rw [h.reached.rawSend_eq, rawRequest_eq hurl h.reached.built, rawBuild_text]
    exact readRequest_text (rawSent_clean_iff.mpr hfree)
  · have hserved : ∃ parsed,
        (rawSend requestAlloc grantResponse net answer sent).result = .ok parsed ∧ _ :=
      (h.reached.served hurl hfree hbuffered seg hrecvs).2
    obtain ⟨parsed, hresult, hcontent⟩ := hserved
    have hbody : sseBodyBytes parsed = (serve (rawSent sent url)).body :=
      congrArg (fun c => c.2.2) hcontent
    rw [h.loop_eq, RawExchange.returned, hresult, ← hbody]
    exact sseReport_ordinary h.granted (hbody.symm ▸ hroomy.toOrdinary)

end Session

/-- A stream with one event, whose data is `Hi`. -/
def noteResponse : ResponseText :=
  { greetingResponse with body := asciiBytes "data: Hi\n\n".toList }

/-- The response in two pieces, the second of which begins in the middle of the stream. -/
def noteArrives : Segmentation noteResponse.text where
  segments := [⟨noteResponse.text.take 25, by decide, by decide⟩,
    ⟨noteResponse.text.drop 25, by decide, by decide⟩]
  whole := by decide

/-- A network that takes seven bytes at a time. -/
def noteNetwork : RawNetwork where
  unreachable := none
  takes _ := some 7
  recvs := noteArrives.results

def noteCall : SseLoopCall where
  client := true
  req := some (requestWith plainValue)
  exitFlag := false
  send := some fun req => (rawSend grantRequest grantResponse noteNetwork acceptAll req).returned
  headersAlloc _ _ _ := true
  initAlloc := grantAll
  feedAlloc := grantAll
  garbage _ _ := 0

theorem eventStream_session_note :
    readRequest (rawSend grantRequest grantResponse noteNetwork acceptAll
        (sseInit noteCall.headersAlloc (requestWith plainValue) none).1).wire =
        some (subscribed (requestWith plainValue) partsOfRequestWith) ∧
      ∃ events, SseClosed events (sseSyncReadLoop .default noteCall) ∧
        (events.map fun ev => (ev.data, ev.id)) = [([0x48, 0x69], none)] := by
  have hordinary : Ordinary noteResponse.body := by
    have hlines : (lines noteResponse.body).dropLast =
        [asciiBytes "data: Hi".toList, []] := by
      decide
    have hfields : ∀ l ∈ (lines noteResponse.body).dropLast, ∀ f ∈ fieldOf l, 0 ∉ f.2 := by
      rw [hlines]
      decide
    exact ⟨⟨by decide, by decide, by decide, by decide,
      fun l hl v hv => hfields l hl (idField, v) hv⟩, by decide⟩
  have hroomy : Roomy noteCall.garbage noteResponse.body :=
    ⟨hordinary, (sseFeed_inBounds_iff _ _ (sseRoom_fresh _ _) _).mp (by decide)⟩
  have hfree : FreeOfDelimiters (requestWith plainValue) partsOfRequestWith :=
    ⟨List.forall_iff_forall_mem.mp (by decide), List.forall_iff_forall_mem.mp (by decide),
      List.forall_mem_singleton.mpr (List.forall_iff_forall_mem.mp (by decide)),
      List.forall_mem_singleton.mpr (List.forall_iff_forall_mem.mp (by decide))⟩
  have hreached : Reached grantRequest noteNetwork
      (sseInit noteCall.headersAlloc (requestWith plainValue) none).1 :=
    ⟨rfl, by decide +kernel, fun _ => ⟨7, rfl, by decide⟩⟩
  obtain ⟨-, hover⟩ := eventStream_session .default noteCall
  obtain ⟨hread, hserve⟩ := @hover grantRequest noteNetwork acceptAll (requestWith plainValue)
    _ partsOfRequestWith ⟨rfl, rfl, rfl, rfl, rfl, rfl, rfl, rfl, rfl, hfree, hreached,
      by decide +kernel⟩
  obtain ⟨events, hclosed, hpairs⟩ := hserve (fun _ => noteResponse) noteArrives rfl hroomy
  exact ⟨hread, events, hclosed, hpairs.trans (by decide)⟩

end AbstractHttp.Transport
