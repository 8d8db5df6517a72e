import AbstractHttp.Http.Types
import AbstractHttp.WebSocket.Limits

/-!
# The read loop and its last callback

`c_abstract_http_ws_sync_read_loop` has the transport send the request, feeds the
body of the response to a parser and reports the end; the asynchronous task calls
it and reports a failure once more.  Parser, loop and task use the same callbacks.
-/
namespace AbstractHttp.WebSocket
open Library Outcome Http

/-- Which pointers of a call are not NULL, whether its exit flag is set, and what the calls that it
makes give: `c_abstract_http_ws_init`, the `malloc` of the parser with what the block holds, and
`send` with its response. What is freed at the end is freed without an error. -/
structure WsLoopCall where
  client : Bool
  req : Bool
  exitFlag : Bool
  initialised : ℤ
  parserGranted : Bool
  garbage : Memory UInt8
  rc : ℤ
  res : Option HttpResponse

/-- The bytes that are fed to the parser. -/
def wsBodyBytes (res : HttpResponse) : List UInt8 := (res.body.getD []).take res.bodyLen

/-- `c_abstract_http_ws_sync_read_loop`: the callbacks in order, and the code that it returns. -/
def wsSyncReadLoop (cfg : WsConfig) (realloc : WsRealloc) (call : WsLoopCall) :
    List WsCallback × ℤ :=
  if call.client = false ∨ call.req = false then ([], ErrorCode.inval.value)
  else if call.exitFlag then ([], 0)
  else if call.initialised ≠ 0 then ([.onError call.initialised], call.initialised)
  else
    match wsParserInit call.parserGranted call.garbage with
    | .error e => ([.onError e.value], e.value)
    | .ok parser =>
      if call.rc ≠ 0 then ([.onError call.rc], call.rc)
      else
        match call.res with
        -- No error of the transport, but no response: the code 0 is reported and returned.
        | none => ([.onError call.rc], call.rc)
        | some res =>
          let fed := wsParserFeed cfg realloc parser (wsBodyBytes res)
          match fed.failure with
          | some e => (fed.output ++ [.onError e.value], e.value)
          | none => (fed.output ++ [.onClose 200], 0)

/-- `c_abstract_http_ws_async_task`, whose exit flag is not set. -/
def wsAsyncTask (cfg : WsConfig) (realloc : WsRealloc) (call : WsLoopCall) :
    List WsCallback × ℤ :=
  let (callbacks, err) := wsSyncReadLoop cfg realloc { call with exitFlag := false }
  if err ≠ 0 then (callbacks ++ [.onError err], err) else (callbacks, 0)

/-- A callback other than `on_message`. -/
def WsCallback.isTerminal : WsCallback → Bool
  | .onMessage _ => false
  | .onError _ => true
  | .onClose _ => true

/-- The parser stands behind a CLOSE frame without a payload, which only a further byte makes it
report. -/
def WsParserCtx.HoldsEmptyClose (ctx : WsParserCtx) : Prop :=
  ctx.state = .readPayload ∧ ctx.currentFrame.payloadLen = 0 ∧
    ctx.currentFrame.opcode = WsOpcode.close.value

/-- The body holds a CLOSE frame with this status: one that the parser reports, or an empty one at
its end. -/
def WsBodyCloses (cfg : WsConfig) (realloc : WsRealloc) (call : WsLoopCall) (status : ℕ) : Prop :=
  ∃ res, call.res = some res ∧
    let fed := wsParserFeed cfg realloc (wsParserFresh call.garbage) (wsBodyBytes res)
    .onClose status ∈ fed.output ∨ (fed.state.HoldsEmptyClose ∧ status = 1005)

/-- Exactly one of the callbacks is terminal: `on_close`, with the status that is given where there
is one, if the code is 0, and otherwise `on_error` with the code. -/
def EndsOnce (closes : ℕ → Prop) : List WsCallback × ℤ → Prop
  | (callbacks, rc) =>
    if rc = 0 then
      ∃ status, callbacks.filter WsCallback.isTerminal = [.onClose status] ∧
        ∀ s, closes s → status = s
    else callbacks.filter WsCallback.isTerminal = [.onError rc]

/-- The loop ends a call with exactly one terminal callback. -/
def WsEndsOnce (cfg : WsConfig) (realloc : WsRealloc) (call : WsLoopCall) : Prop :=
  EndsOnce (WsBodyCloses cfg realloc call) (wsSyncReadLoop cfg realloc call)

section Bytes

variable {cfg : WsConfig} {realloc : WsRealloc} {ctx : WsParserCtx}

/-- The complete data frame is refused: a fragment that starts a message within another one, or for
which there is no room, or a last fragment for which there is none. -/
def WsParserCtx.FrameRefused (cfg : WsConfig) (realloc : WsRealloc) (ctx : WsParserCtx) : Prop :=
  let need := ctx.reassemblyOffset + ctx.currentFrame.payloadLen
  if ctx.currentFrame.fin = false then
    (ctx.currentFrame.opcode ≠ WsOpcode.continuation.value ∧ ctx.reassemblyOffset > 0) ∨
      need > ctx.reassemblyCapacity ∧
        (cfg.maxFrameSize < wsDoubledCapacity ctx.reassemblyCapacity need ∨
          realloc .reassembly (wsDoubledCapacity ctx.reassemblyCapacity need) = false)
  else
    ctx.reassemblyOffset > 0 ∧ need > ctx.reassemblyCapacity ∧ realloc .reassembly need = false

/-- What the complete frame makes the parser report is more than a message. -/
def WsParserCtx.DeliversEnd (cfg : WsConfig) (realloc : WsRealloc) (ctx : WsParserCtx) : Prop :=
  ctx.currentFrame.opcode = WsOpcode.close.value ∨
    ctx.currentFrame.opcode ≠ WsOpcode.ping.value ∧
      ctx.currentFrame.opcode ≠ WsOpcode.pong.value ∧ ctx.FrameRefused cfg realloc

/-- A byte at which the parser reports an error or a CLOSE frame: the first byte of a header that is
refused, the last one of a length beyond the limit, one of a payload for which there is no room, or
one that completes a CLOSE frame or a frame that is refused. An empty payload is completed by the
first byte of the next header. -/
def WsEndsAt (cfg : WsConfig) (realloc : WsRealloc) (ctx : WsParserCtx) (b : UInt8) : Prop :=
  match ctx.state with
  | .readOpcode => ¬ WsStartsFrame b
  | .readExtLen64 => ctx.extLenOffset + 1 = 8 ∧
      cfg.maxFrameSize < mathWsNtohll (ctx.extLenBuffer.write ctx.extLenOffset [b])
  | .readPayload =>
    (ctx.currentFrame.payloadLen > ctx.payloadCapacity ∧
        realloc .payload ctx.currentFrame.payloadLen = false) ∨
      ctx.currentFrame.payloadLen ≤ ctx.payloadOffset + 1 ∧ ctx.DeliversEnd cfg realloc ∨
      ctx.payloadOffset = ctx.currentFrame.payloadLen ∧ ¬ WsStartsFrame b
  | _ => False

/-- Only messages are delivered. -/
def OnlyMessages (o : WsOutcome) : Prop := ∀ w ∈ o.output, w.isTerminal = false

theorem onlyMessages_done (ctx : WsParserCtx) : OnlyMessages (done ctx) := by
  intro w hw
  cases hw

theorem not_onlyMessages_fail (ctx : WsParserCtx) (code : ℤ) (e : ErrorCode) :
    ¬ OnlyMessages (wsFail ctx code e) := by
  intro h
  have herror := h (.onError code) List.mem_cons_self
  cases herror

theorem wsReadOpcode_onlyMessages (ctx : WsParserCtx) (b : UInt8) :
    OnlyMessages (wsReadOpcode ctx b) ↔ WsStartsFrame b := by
  constructor
  · intro h
    simp only [wsReadOpcode] at h
    split at h
    · exact absurd h (not_onlyMessages_fail _ _ _)
    · rename_i hreserved
      split at h
      · exact absurd h (not_onlyMessages_fail _ _ _)
      · rename_i hcontrol
        refine ⟨not_not.mp hreserved, ?_⟩
        by_cases hfin : b >>> 7 &&& 1 = 1
        · exact Or.inl hfin
        · exact Or.inr (UInt8.not_le.mp fun hop => hcontrol ⟨by simpa using hfin, hop⟩)
  · intro hb
    obtain ⟨c, hread, -⟩ := wsReadOpcode_starts ctx hb
    rw [hread]
    exact onlyMessages_done c

theorem wsReadExtLen64_onlyMessages (ctx : WsParserCtx) (b : UInt8) :
    OnlyMessages (wsReadExtLen64 cfg ctx b) ↔
      ¬ (ctx.extLenOffset + 1 = 8 ∧
        cfg.maxFrameSize < mathWsNtohll (ctx.extLenBuffer.write ctx.extLenOffset [b])) := by
  simp only [wsReadExtLen64]
  split
  · rename_i hlast
    split
    · rename_i hlong
      exact iff_of_false (not_onlyMessages_fail _ _ _) (not_not.mpr ⟨hlast, hlong⟩)
    · rename_i hshort
      exact iff_of_true (onlyMessages_done _) fun h => hshort h.2
  · rename_i hmore
    exact iff_of_true (onlyMessages_done _) fun h => hmore h.1

/-- A header byte in the other states is stored. -/
theorem wsReadLen_onlyMessages (ctx : WsParserCtx) (b : UInt8) :
    OnlyMessages (wsReadLen ctx b) := by
  simp only [wsReadLen]
  split
  · exact onlyMessages_done _
  · split <;> exact onlyMessages_done _

theorem wsReadExtLen16_onlyMessages (ctx : WsParserCtx) (b : UInt8) :
    OnlyMessages (wsReadExtLen16 ctx b) := by
  simp only [wsReadExtLen16]
  split <;> exact onlyMessages_done _

theorem wsReadMask_onlyMessages (ctx : WsParserCtx) (b : UInt8) :
    OnlyMessages (wsReadMask ctx b) := by
  simp only [wsReadMask]
  split <;> exact onlyMessages_done _

theorem wsStoreFragment_onlyMessages (ctx : WsParserCtx) (hfin : ctx.currentFrame.fin = false) :
    OnlyMessages (wsStoreFragment cfg realloc ctx) ↔ ¬ ctx.FrameRefused cfg realloc := by
  simp only [wsStoreFragment, WsParserCtx.FrameRefused, if_pos hfin]
  split
  · rename_i hopens
    exact iff_of_false (not_onlyMessages_fail _ _ _) (not_not.mpr (Or.inl hopens))
  · rename_i hopens
    rw [or_iff_right hopens]
    split
    · rename_i hgrow
      split
      · rename_i hlimit
        exact iff_of_false (not_onlyMessages_fail _ _ _) (not_not.mpr ⟨hgrow, Or.inl hlimit⟩)
      · rename_i hlimit
        split
        · rename_i hgranted
          exact iff_of_true (onlyMessages_done _) (by simp [hlimit, hgranted])
        · rename_i hrefused
          exact iff_of_false (not_onlyMessages_fail _ _ _)
            (not_not.mpr ⟨hgrow, Or.inr (by simpa using hrefused)⟩)
    · rename_i hfits
      exact iff_of_true (onlyMessages_done _) fun h => hfits h.1

theorem wsFinalFrame_onlyMessages (ctx : WsParserCtx) (hfin : ctx.currentFrame.fin = true) :
    OnlyMessages (wsFinalFrame realloc ctx) ↔ ¬ ctx.FrameRefused cfg realloc := by
  simp only [wsFinalFrame, WsParserCtx.FrameRefused, hfin, Bool.true_eq_false, if_false]
  split
  · rename_i hoffset
    split
    · rename_i hrefused
      exact iff_of_false (not_onlyMessages_fail _ _ _) (not_not.mpr ⟨hoffset, hrefused⟩)
    · rename_i hgranted
      exact iff_of_true (by simp [OnlyMessages, WsCallback.isTerminal]) fun h => hgranted h.2
  · rename_i hempty
    exact iff_of_true (by simp [OnlyMessages, WsCallback.isTerminal]) fun h => hempty h.1

theorem wsDeliver_onlyMessages (ctx : WsParserCtx) :
    OnlyMessages (wsDeliver cfg realloc ctx) ↔ ¬ ctx.DeliversEnd cfg realloc := by
  rw [wsDeliver, WsParserCtx.DeliversEnd]
  split
  · rename_i hclose
    exact iff_of_false (by simp [OnlyMessages, WsCallback.isTerminal])
      (not_not.mpr (Or.inl hclose))
  · rename_i hclose
    rw [or_iff_right hclose]
    split
    · rename_i hcontrol
      refine iff_of_true (by simp [OnlyMessages, WsCallback.isTerminal]) ?_
      rintro ⟨hping, hpong, -⟩
      exact hcontrol.elim hping hpong
    · rename_i hdata
      rw [← and_assoc, ← not_or, and_iff_right hdata]
      split
      · rename_i hfin
        exact wsStoreFragment_onlyMessages ctx hfin
      · rename_i hfin
        exact wsFinalFrame_onlyMessages ctx (by simpa using hfin)

/-- A failure is reported through `on_error` first. -/
def FailureReported (o : WsOutcome) : Prop := Announced (fun w => w.isTerminal = true) o

theorem failureReported_fail (ctx : WsParserCtx) (code : ℤ) (e : ErrorCode) :
    FailureReported (wsFail ctx code e) :=
  fun _ => ⟨.onError code, List.mem_cons_self, rfl⟩

theorem failureReported_wsDeliver (ctx : WsParserCtx) :
    FailureReported (wsDeliver cfg realloc ctx) := by
  rw [wsDeliver]
  split
  · exact fun h => absurd rfl h
  · split
    · exact fun h => absurd rfl h
    · split
      · rcases wsStoreFragment_cases cfg realloc ctx with
          ⟨code, e, h⟩ | ⟨-, h⟩ | ⟨cap, -, -, -, h⟩
        · rw [h]
          exact failureReported_fail ctx code e
        · rw [h]
          exact announced_done _ _
        · rw [h]
          exact announced_done _ _
      · simp only [wsFinalFrame]
        split
        · split
          · exact failureReported_fail _ _ _
          · exact fun h => absurd rfl h
        · exact fun h => absurd rfl h

theorem HeaderTurn.failureReported {o : WsOutcome} (h : HeaderTurn ctx o) :
    FailureReported o := by
  cases h with
  | stored => exact announced_done _ _
  | refused => exact failureReported_fail _ _ _

theorem failureReported_wsParserIterate (ctx : WsParserCtx) (b : UInt8) (bs : List UInt8) :
    FailureReported (wsParserIterate cfg realloc ctx b bs) := by
  by_cases hs : ctx.state = .readPayload
  · rw [wsParserIterate_payload hs]
    simp only [wsReadPayload]
    split
    · exact failureReported_fail _ _ _
    · split
      · exact (failureReported_wsDeliver _).andThen fun _ => announced_done _ _
      · exact announced_done _ _
  · exact (headerTurn_wsParserIterate cfg realloc hs b bs).failureReported

/-- The parser reports every failure, whatever it is fed. -/
theorem failureReported_wsParserFeed (ctx : WsParserCtx) (chunk : List UInt8) :
    FailureReported (wsParserFeed cfg realloc ctx chunk) := by
  induction hm : wsMeasure ctx chunk using Nat.strong_induction_on generalizing ctx chunk with
  | _ m ih =>
    subst hm
    cases chunk with
    | nil =>
      rw [wsParserFeed_nil]
      exact announced_done _ _
    | cons b bs =>
      rw [wsParserFeed_cons]
      exact (failureReported_wsParserIterate ctx b bs).andThen fun hok =>
        ih _ (wsParserIterate_progress cfg realloc ctx b bs hok) _ _ rfl

theorem OnlyMessages.failure_eq_none {o : WsOutcome} (h : OnlyMessages o)
    (hreported : FailureReported o) : o.failure = none :=
  hreported.failure_eq_none fun w hw => by simp [h w hw]

theorem onlyMessages_andThen {o : WsOutcome} {k : WsParserCtx → WsOutcome}
    (hreported : FailureReported o) :
    OnlyMessages (o.andThen k) ↔ OnlyMessages o ∧ OnlyMessages (k o.state) := by
  constructor
  · intro h
    have hfirst : OnlyMessages o := fun w hw => h w (mem_andThen_output.mpr (Or.inl hw))
    exact (andThen_output_forall (hfirst.failure_eq_none hreported)).mp h
  · rintro ⟨hfirst, hrest⟩
    exact (andThen_output_forall (hfirst.failure_eq_none hreported)).mpr ⟨hfirst, hrest⟩

/-- A byte that completes a frame delivers it; if the payload was complete before, the byte is read
as the first one of a header. -/
theorem wsParserFeed_completes_onlyMessages (h : ctx.Completes realloc) (b : UInt8) :
    OnlyMessages (wsParserFeed cfg realloc ctx [b]) ↔
      ¬ (ctx.DeliversEnd cfg realloc ∨
        ctx.payloadOffset = ctx.currentFrame.payloadLen ∧ ¬ WsStartsFrame b) := by
  have hdeliver : OnlyMessages (wsDeliver cfg realloc (wsCopyPayload (wsGrowPayload ctx) [b])) ↔
      ¬ ctx.DeliversEnd cfg realloc := wsDeliver_onlyMessages _
  have hunread : wsUnread ctx b [] =
      if ctx.payloadOffset = ctx.currentFrame.payloadLen then [b] else [] := by
    have hle := ctx.payload_le h.1
    have hlen := h.2.1
    have hcopy : wsToCopy ctx (([] : List UInt8).length + 1) =
        if ctx.payloadOffset = ctx.currentFrame.payloadLen then 0 else 1 := by
      simp only [wsToCopy, List.length_nil]
      split <;> omega
    rw [wsUnread, if_pos h.1, hcopy]
    split <;> rfl
  rw [wsParserFeed_delivers cfg h, onlyMessages_andThen (failureReported_wsDeliver _), hdeliver,
    hunread, not_or]
  refine and_congr_right fun _ => ?_
  split
  · rename_i hempty
    rw [wsParserFeed_cons, wsUnread_header (by simp [wsResetFrame]),
      (wsParserFeed_incremental cfg realloc).andThen_nil]
    change OnlyMessages (wsReadOpcode _ b) ↔ _
    rw [wsReadOpcode_onlyMessages, and_iff_right hempty, not_not]
  · rename_i hlast
    rw [wsParserFeed_nil]
    exact iff_of_true (onlyMessages_done _) fun h => hlast h.1

theorem wsParserFeed_onlyMessages (b : UInt8) :
    OnlyMessages (wsParserFeed cfg realloc ctx [b]) ↔ ¬ WsEndsAt cfg realloc ctx b := by
  have hheader (hs : ctx.state ≠ .readPayload) :
      wsParserFeed cfg realloc ctx [b] = wsParserIterate cfg realloc ctx b [] := by
    rw [wsParserFeed_cons, wsUnread_header hs, (wsParserFeed_incremental cfg realloc).andThen_nil]
  rw [WsEndsAt]
  cases hstate : ctx.state with
  | readOpcode =>
    rw [hheader (by simp [hstate]), wsParserIterate, hstate, not_not]
    exact wsReadOpcode_onlyMessages ctx b
  | readLen =>
    rw [hheader (by simp [hstate]), wsParserIterate, hstate]
    exact iff_of_true (wsReadLen_onlyMessages ctx b) id
  | readExtLen16 =>
    rw [hheader (by simp [hstate]), wsParserIterate, hstate]
    exact iff_of_true (wsReadExtLen16_onlyMessages ctx b) id
  | readExtLen64 =>
    rw [hheader (by simp [hstate]), wsParserIterate, hstate]
    exact wsReadExtLen64_onlyMessages ctx b
  | readMask =>
    rw [hheader (by simp [hstate]), wsParserIterate, hstate]
    exact iff_of_true (wsReadMask_onlyMessages ctx b) id
  | readPayload =>
    by_cases hroom : ctx.currentFrame.payloadLen > ctx.payloadCapacity ∧
        realloc .payload ctx.currentFrame.payloadLen = false
    · rw [wsParserFeed_cons, wsParserIterate_payload hstate, wsReadPayload, if_pos hroom]
      exact iff_of_false (not_onlyMessages_fail _ _ _) (not_not.mpr (Or.inl hroom))
    · rw [or_iff_right hroom]
      by_cases hlen : ctx.currentFrame.payloadLen ≤ ctx.payloadOffset + 1
      · rw [wsParserFeed_completes_onlyMessages ⟨hstate, hlen, hroom⟩, and_iff_right hlen]
      · rw [wsParserFeed_copies cfg hstate hroom (not_le.mp hlen)]
        refine iff_of_true (onlyMessages_done _) ?_
        rintro (⟨hle, -⟩ | ⟨heq, -⟩)
        · exact hlen hle
        · exact hlen (heq ▸ Nat.le_succ _)

/-- A body only delivers messages, and is fed without an error, unless an end is reported at one of
its bytes. -/
theorem wsParserFeed_body (body : List UInt8) :
    OnlyMessages (wsParserFeed cfg realloc ctx body) ↔
      Incremental.NoneBad (wsParserFeed cfg realloc) (WsEndsAt cfg realloc) ctx body :=
  (wsParserFeed_incremental cfg realloc).output_forall_iff (P := fun _ => True)
    (fun _ _ _ _ => trivial) (fun _ b _ => wsParserFeed_onlyMessages b) trivial body

end Bytes

variable {cfg : WsConfig} {realloc : WsRealloc}

theorem terminal_eq_nil {callbacks : List WsCallback} :
    callbacks.filter WsCallback.isTerminal = [] ↔ ∀ w ∈ callbacks, w.isTerminal = false := by
  simp only [List.filter_eq_nil_iff, Bool.not_eq_true]

/-- One more terminal callback is the only one exactly when there was none before. -/
theorem terminal_append_eq {callbacks : List WsCallback} {w v : WsCallback}
    (hw : w.isTerminal = true) :
    (callbacks ++ [w]).filter WsCallback.isTerminal = [v] ↔
      (∀ u ∈ callbacks, u.isTerminal = false) ∧ w = v := by
  rw [List.filter_append, List.filter_singleton, hw, ← terminal_eq_nil]
  constructor
  · intro h
    have hlength := congrArg List.length h
    simp only [List.length_append, List.length_singleton, cond_true] at hlength
    have hnil : callbacks.filter WsCallback.isTerminal = [] :=
      List.eq_nil_of_length_eq_zero (by omega)
    rw [hnil] at h
    exact ⟨hnil, by simpa using h⟩
  · rintro ⟨hnil, rfl⟩
    rw [hnil]
    rfl

variable {closes : ℕ → Prop} {callbacks : List WsCallback} {rc : ℤ}

theorem not_endsOnce_nil : ¬ EndsOnce closes ([], rc) := by
  rw [EndsOnce]
  split <;> simp

/-- A last error is the only end if there was none before. -/
theorem endsOnce_onError (hrc : rc ≠ 0) :
    EndsOnce closes (callbacks ++ [.onError rc], rc) ↔
      ∀ w ∈ callbacks, w.isTerminal = false := by
  rw [EndsOnce, if_neg hrc, terminal_append_eq rfl, and_iff_left rfl]

/-- A last closure is the only end if there was none before and the body holds no other status. -/
theorem endsOnce_onClose {status : ℕ} :
    EndsOnce closes (callbacks ++ [.onClose status], 0) ↔
      (∀ w ∈ callbacks, w.isTerminal = false) ∧ ∀ s, closes s → status = s := by
  rw [EndsOnce, if_pos rfl]
  constructor
  · rintro ⟨status', honce, hcloses⟩
    obtain ⟨hnone, heq⟩ := (terminal_append_eq rfl).mp honce
    cases heq
    exact ⟨hnone, hcloses⟩
  · rintro ⟨hnone, hcloses⟩
    exact ⟨status, (terminal_append_eq rfl).mpr ⟨hnone, rfl⟩, hcloses⟩

/-- An error of the code 0 is no end of a call that succeeds. -/
theorem not_endsOnce_zero : ¬ EndsOnce closes ([.onError 0], 0) := by
  rw [EndsOnce, if_pos rfl]
  rintro ⟨status, honce, -⟩
  change [WsCallback.onError 0] = [.onClose status] at honce
  cases honce

/-- Both pointers of the call are given. -/
def WsLoopCall.Called (call : WsLoopCall) : Prop := call.client = true ∧ call.req = true

/-- An error comes before the response. -/
def WsLoopCall.FailsEarly (call : WsLoopCall) : Prop :=
  call.initialised ≠ 0 ∨ call.parserGranted = false ∨ call.rc ≠ 0

/-- The transport has answered, so that the body is fed to a fresh parser. -/
structure WsLoopCall.Answered (call : WsLoopCall) (res : HttpResponse) : Prop where
  called : call.Called
  running : call.exitFlag = false
  early : ¬ call.FailsEarly
  response : call.res = some res

variable {call : WsLoopCall} {res : HttpResponse}

theorem wsSyncReadLoop_failsEarly (hcalled : call.Called) (hrunning : call.exitFlag = false)
    (h : call.FailsEarly) :
    ∃ rc ≠ 0, wsSyncReadLoop cfg realloc call = ([.onError rc], rc) := by
  have hgiven : ¬ (call.client = false ∨ call.req = false) := by simp [hcalled.1, hcalled.2]
  rw [wsSyncReadLoop, if_neg hgiven, if_neg (by simp [hrunning])]
  by_cases hinit : call.initialised ≠ 0
  · exact ⟨call.initialised, hinit, if_pos hinit⟩
  rw [if_neg hinit]
  by_cases hparser : call.parserGranted = false
  · exact ⟨_, ErrorCode.nomem.value_ne_zero, by rw [wsParserInit, hparser]; rfl⟩
  · have hsent : call.rc ≠ 0 := (h.resolve_left hinit).resolve_left hparser
    refine ⟨call.rc, hsent, ?_⟩
    rw [wsParserInit, if_pos (by simpa using hparser)]
    exact if_pos hsent

variable (cfg realloc) in
theorem wsSyncReadLoop_sent (hcalled : call.Called) (hrunning : call.exitFlag = false)
    (h : ¬ call.FailsEarly) :
    wsSyncReadLoop cfg realloc call =
      match call.res with
      | none => ([.onError 0], 0)
      | some res =>
        let fed := wsParserFeed cfg realloc (wsParserFresh call.garbage) (wsBodyBytes res)
        match fed.failure with
        | some e => (fed.output ++ [.onError e.value], e.value)
        | none => (fed.output ++ [.onClose 200], 0) := by
  obtain ⟨hinit, hgranted, hsent⟩ :
      call.initialised = 0 ∧ call.parserGranted = true ∧ call.rc = 0 := by
    simpa [WsLoopCall.FailsEarly] using h
  simp [wsSyncReadLoop, wsParserInit, hcalled.1, hcalled.2, hrunning, hinit, hgranted, hsent]

/-- What a call does: nothing for a NULL pointer or a set flag, one error for what fails early or
for a missing response, or it feeds the body. -/
theorem wsSyncReadLoop_cases (cfg : WsConfig) (realloc : WsRealloc) (call : WsLoopCall) :
    (¬ call.Called ∧ wsSyncReadLoop cfg realloc call = ([], ErrorCode.inval.value)) ∨
    (call.exitFlag = true ∧ call.Called ∧ wsSyncReadLoop cfg realloc call = ([], 0)) ∨
    (call.exitFlag = false ∧ call.Called ∧ call.FailsEarly ∧
      ∃ rc ≠ 0, wsSyncReadLoop cfg realloc call = ([.onError rc], rc)) ∨
    (call.Called ∧ ¬ call.FailsEarly ∧ call.res = none ∧
      wsSyncReadLoop cfg realloc call = ([.onError 0], 0)) ∨
    ∃ res, call.Answered res := by
  by_cases hcalled : call.Called
  · cases hexit : call.exitFlag with
    | true =>
      have hloop : wsSyncReadLoop cfg realloc call = ([], 0) := by
        simp [wsSyncReadLoop, hcalled.1, hcalled.2, hexit]
      exact Or.inr (Or.inl ⟨rfl, hcalled, hloop⟩)
    | false =>
      refine Or.inr (Or.inr ?_)
      by_cases hearly : call.FailsEarly
      · exact Or.inl ⟨rfl, hcalled, hearly, wsSyncReadLoop_failsEarly hcalled hexit hearly⟩
      · cases hres : call.res with
        | none =>
          have hloop := wsSyncReadLoop_sent cfg realloc hcalled hexit hearly
          rw [hres] at hloop
          exact Or.inr (Or.inl ⟨hcalled, hearly, rfl, hloop⟩)
        | some res => exact Or.inr (Or.inr ⟨res, hcalled, hexit, hearly, hres⟩)
  · refine Or.inl ⟨hcalled, if_pos ?_⟩
    rw [WsLoopCall.Called, not_and_or] at hcalled
    simpa using hcalled

/-- The loop reports an end of its own after what the parser has reported. -/
theorem WsLoopCall.Answered.loop_fed (h : call.Answered res)
    (hfed : (wsParserFeed cfg realloc (wsParserFresh call.garbage) (wsBodyBytes res)).failure =
      none) :
    wsSyncReadLoop cfg realloc call =
      ((wsParserFeed cfg realloc (wsParserFresh call.garbage) (wsBodyBytes res)).output ++
        [.onClose 200], 0) := by
  rw [wsSyncReadLoop_sent _ _ h.called h.running h.early, h.response]
  simp only [hfed]

theorem WsLoopCall.Answered.loop_failed (h : call.Answered res) {e : ErrorCode}
    (hfed : (wsParserFeed cfg realloc (wsParserFresh call.garbage) (wsBodyBytes res)).failure =
      some e) :
    wsSyncReadLoop cfg realloc call =
      ((wsParserFeed cfg realloc (wsParserFresh call.garbage) (wsBodyBytes res)).output ++
        [.onError e.value], e.value) := by
  rw [wsSyncReadLoop_sent _ _ h.called h.running h.early, h.response]
  simp only [hfed]

/-- The body is read to its end, no byte of it reports an end, and it does not end in an empty CLOSE
frame. -/
def WsLoopCall.BodyStaysOpen (cfg : WsConfig) (realloc : WsRealloc) (call : WsLoopCall)
    (res : HttpResponse) : Prop :=
  Incremental.NoneBad (wsParserFeed cfg realloc) (WsEndsAt cfg realloc)
      (wsParserFresh call.garbage) (wsBodyBytes res) ∧
    ¬ (wsParserFeed cfg realloc (wsParserFresh call.garbage)
      (wsBodyBytes res)).state.HoldsEmptyClose

theorem WsLoopCall.BodyStaysOpen.failure_eq_none (h : call.BodyStaysOpen cfg realloc res) :
    (wsParserFeed cfg realloc (wsParserFresh call.garbage) (wsBodyBytes res)).failure = none :=
  (wsParserFeed_body _).mpr h.1 |>.failure_eq_none (failureReported_wsParserFeed _ _)

/-- A CLOSE frame or an error in the body is an end before the one of the loop, and an empty CLOSE
frame at the end of the body has another status. -/
theorem WsLoopCall.Answered.endsOnce_iff (h : call.Answered res) :
    WsEndsOnce cfg realloc call ↔ call.BodyStaysOpen cfg realloc res := by
  cases hfed :
      (wsParserFeed cfg realloc (wsParserFresh call.garbage) (wsBodyBytes res)).failure with
  | some e =>
    rw [WsEndsOnce, h.loop_failed hfed, endsOnce_onError e.value_ne_zero]
    refine iff_of_false (fun hmessages => ?_) fun hopen => ?_
    · have hnone := OnlyMessages.failure_eq_none hmessages (failureReported_wsParserFeed _ _)
      cases hnone.symm.trans hfed
    · cases hopen.failure_eq_none.symm.trans hfed
  | none =>
    rw [WsEndsOnce, h.loop_fed hfed, endsOnce_onClose, WsLoopCall.BodyStaysOpen,
      ← wsParserFeed_body]
    refine and_congr_right fun hmessages => ⟨fun hcloses hempty => ?_, fun hopen => ?_⟩
    · have hstatus := hcloses 1005 ⟨res, h.response, Or.inr ⟨hempty, rfl⟩⟩
      cases hstatus
    · rintro s ⟨res', hres', hclose⟩
      obtain rfl : res = res' := Option.some.inj (h.response.symm.trans hres')
      rcases hclose with hclose | ⟨hempty, -⟩
      · cases hmessages _ hclose
      · exact absurd hempty hopen

/-- A call ends with exactly one terminal callback exactly when an error comes before the response,
or there is a response whose body holds no end. -/
theorem wsEndsOnce_iff (cfg : WsConfig) (realloc : WsRealloc) (call : WsLoopCall) :
    WsEndsOnce cfg realloc call ↔
      call.Called ∧ call.exitFlag = false ∧
        (call.FailsEarly ∨
          ∃ res, call.res = some res ∧ call.BodyStaysOpen cfg realloc res) := by
  rcases wsSyncReadLoop_cases cfg realloc call with
    ⟨hnull, h⟩ | ⟨hexit, -, h⟩ | ⟨hrunning, hcalled, hearly, rc, hrc, h⟩ | ⟨-, hearly, hres, h⟩ |
      ⟨res, hanswered⟩
  · rw [WsEndsOnce, h]
    exact iff_of_false not_endsOnce_nil fun hcond => hnull hcond.1
  · rw [WsEndsOnce, h]
    exact iff_of_false not_endsOnce_nil (by simp [hexit])
  · rw [WsEndsOnce, h]
    refine iff_of_true ?_ ⟨hcalled, hrunning, Or.inl hearly⟩
    change EndsOnce _ ([] ++ [.onError rc], rc)
    rw [endsOnce_onError hrc]
    simp
  · rw [WsEndsOnce, h]
    exact iff_of_false not_endsOnce_zero (by simp [hearly, hres])
  · rw [hanswered.endsOnce_iff, and_iff_right hanswered.called,
      and_iff_right hanswered.running, or_iff_right hanswered.early, hanswered.response]
    simp

/-- A CLOSE frame with the status 1000. -/
def wsNormalClosure : WsFrame := ⟨true, .close, none, [0x03, 0xE8]⟩

/-- A response whose body is that frame. -/
def wsClosedRes : HttpResponse :=
  { HttpResponse.init with body := some [0x88, 0x02, 0x03, 0xE8], bodyLen := 4 }

def wsClosedCall : WsLoopCall where
  client := true
  req := true
  exitFlag := false
  initialised := 0
  parserGranted := true
  garbage := fun _ => 0
  rc := 0
  res := some wsClosedRes

/-- The frame is reported with its status, and then the end of the body with 200. -/
theorem not_wsEndsOnce_closed :
    wsSyncReadLoop .default grantAll wsClosedCall = ([.onClose 1000, .onClose 200], 0) ∧
      ¬ WsEndsOnce .default grantAll wsClosedCall := by
  have hanswered : wsClosedCall.Answered wsClosedRes :=
    ⟨⟨rfl, rfl⟩, rfl, by simp [WsLoopCall.FailsEarly, wsClosedCall], rfl⟩
  have hbody : wsBodyBytes wsClosedRes = wsEncodeAll [wsNormalClosure] := by decide
  have hreadable : ∀ f ∈ [wsNormalClosure], f.Readable := by
    simp [wsNormalClosure, WsFrame.readable_iff]
  have hrun := wsParserFeed_encodeAll_complete .default (holds_wsParserFresh fun _ => 0) hreadable
    (by simp [wsNormalClosure])
  have hframe : wsFrameRun .default .fresh [wsNormalClosure] =
      ⟨.fresh, [.onClose 1000], none⟩ := by
    have hshort : ¬ wsNormalClosure.TooLong .default := by
      simp [WsFrame.TooLong, wsNormalClosure]
    rw [wsFrameRun, wsFrameStep, if_neg hshort]
    rfl
  have hloop : wsSyncReadLoop .default grantAll wsClosedCall =
      ([.onClose 1000, .onClose 200], 0) := by
    rw [hframe, ← hbody] at hrun
    rw [hanswered.loop_fed hrun.failure]
    exact congrArg (fun out => (out ++ [WsCallback.onClose 200], (0 : ℤ))) hrun.output
  refine ⟨hloop, fun honce => ?_⟩
  rw [WsEndsOnce, hloop] at honce
  change EndsOnce _ ([.onClose 1000] ++ [.onClose 200], 0) at honce
  rw [endsOnce_onClose] at honce
  cases honce.1 _ List.mem_cons_self

theorem wsAsyncTask_failed (hrc : rc ≠ 0)
    (h : wsSyncReadLoop cfg realloc { call with exitFlag := false } = (callbacks, rc)) :
    wsAsyncTask cfg realloc call = (callbacks ++ [.onError rc], rc) := by
  rw [wsAsyncTask, h]
  exact if_pos hrc

theorem wsAsyncTask_succeeded
    (h : wsSyncReadLoop cfg realloc { call with exitFlag := false } = (callbacks, 0)) :
    wsAsyncTask cfg realloc call = (callbacks, 0) := by
  rw [wsAsyncTask, h]
  rfl

/-- The asynchronous task reports an error of the loop once more, so that it ends with exactly one
terminal callback only where the loop has reported nothing, or where it ends so itself. -/
theorem wsAsyncTask_endsOnce_iff (cfg : WsConfig) (realloc : WsRealloc) (call : WsLoopCall) :
    EndsOnce (WsBodyCloses cfg realloc call) (wsAsyncTask cfg realloc call) ↔
      ¬ call.Called ∨ ¬ call.FailsEarly ∧
        ∃ res, call.res = some res ∧ call.BodyStaysOpen cfg realloc res := by
  rcases wsSyncReadLoop_cases cfg realloc { call with exitFlag := false } with
    ⟨hnull, h⟩ | ⟨hexit, -, -⟩ | ⟨-, hcalled, hearly, rc, hrc, h⟩ | ⟨hcalled, hearly, hres, h⟩ |
      ⟨res, hanswered⟩
  · have hrc := ErrorCode.inval.value_ne_zero
    rw [wsAsyncTask_failed hrc h, endsOnce_onError hrc]
    exact iff_of_true (by simp) (Or.inl hnull)
  · cases hexit
  · rw [wsAsyncTask_failed hrc h, endsOnce_onError hrc]
    refine iff_of_false (by simp [WsCallback.isTerminal]) ?_
    rintro (hnull | ⟨hlate, -⟩)
    · exact hnull hcalled
    · exact hlate hearly
  · rw [wsAsyncTask_succeeded h]
    refine iff_of_false not_endsOnce_zero ?_
    rintro (hnull | ⟨-, res, hsome, -⟩)
    · exact hnull hcalled
    · cases hres.symm.trans hsome
  · have hcalled : call.Called := hanswered.called
    have hearly : ¬ call.FailsEarly := hanswered.early
    have hres : call.res = some res := hanswered.response
    rw [or_iff_right (not_not.mpr hcalled), and_iff_right hearly]
    simp only [hres, Option.some.injEq, exists_eq_left']
    cases hfed :
        (wsParserFeed cfg realloc (wsParserFresh call.garbage) (wsBodyBytes res)).failure with
    | some e =>
      rw [wsAsyncTask_failed e.value_ne_zero (hanswered.loop_failed hfed),
        endsOnce_onError e.value_ne_zero]
      refine iff_of_false (by simp [WsCallback.isTerminal]) fun hopen => ?_
      cases hopen.failure_eq_none.symm.trans hfed
    | none =>
      have hloop := hanswered.loop_fed hfed
      rw [wsAsyncTask_succeeded hloop, ← hloop]
      exact hanswered.endsOnce_iff

end AbstractHttp.WebSocket
