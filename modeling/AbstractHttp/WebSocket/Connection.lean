import AbstractHttp.WebSocket.Outbound

/-!
# Threads that send, close and read on one request

Any number of threads act on the stream of a request in any order. What has
been appended and what has been returned is bookkeeping that nothing reads.
The order of the two sections of a close against the sections of other threads
is all that the code leaves open.
-/
namespace AbstractHttp.WebSocket
open Library

variable {τ : Type*}

/-- A critical section, and the thread that runs it. -/
inductive WsAction (τ : Type*) where
  | send (t : τ) (grants : WsSendGrants) (opcode : WsOpcode) (payload : List UInt8)
      (maskKey : Memory UInt8)
  | closeSend (t : τ) (grants : WsSendGrants) (statusCode : ℤ) (maskKey : Memory UInt8)
  | closeRequest (t : τ)
  | read (t : τ) (bufLen : ℕ+)

/-- The stream, the threads that are between the two sections of a close, the frames of the sends
that returned success and the bytes that reads returned. -/
structure WsConnection (τ : Type*) where
  ctx : WsStreamCtx
  closing : τ → Bool
  appended : List WsFrame
  returned : List UInt8

def wsConnectionFresh (garbage : Memory UInt8) : WsConnection τ :=
  ⟨wsStreamFresh garbage, fun _ => false, [], []⟩

/-- A thread between the two sections of a close can do nothing but the second. -/
def wsStep [DecidableEq τ] (w : WsConnection τ) : WsAction τ → Option (WsConnection τ)
  | .send t grants opcode payload maskKey =>
    if w.closing t then none
    else match wsSend grants w.ctx opcode payload maskKey with
      | .ok ctx => some { w with
          ctx := ctx, appended := w.appended ++ [wsSentFrame opcode payload maskKey] }
      | .error _ => some w
  | .closeSend t grants statusCode maskKey =>
    if w.closing t then none
    else match wsCloseSend grants w.ctx statusCode maskKey with
      | .ok ctx => some { w with
          ctx := ctx
          closing := Function.update w.closing t true
          appended := w.appended ++ [wsSentFrame .close (wsClosePayload statusCode) maskKey] }
      | .error _ => some w
  | .closeRequest t =>
    if w.closing t then
      some { w with ctx := wsCloseRequest w.ctx, closing := Function.update w.closing t false }
    else none
  | .read t bufLen =>
    if w.closing t then none
    else match wsReadChunk w.ctx bufLen with
      | some (bytes, ctx) => some { w with ctx := ctx, returned := w.returned ++ bytes }
      | none => none

/-- The frame that a section tries to send, and what it is granted for it. -/
def WsAction.sending : WsAction τ → Option (WsSendGrants × WsFrame)
  | .send _ grants opcode payload maskKey => some (grants, wsSentFrame opcode payload maskKey)
  | .closeSend _ grants statusCode maskKey =>
    some (grants, wsSentFrame .close (wsClosePayload statusCode) maskKey)
  | .closeRequest _ => none
  | .read _ _ => none

/-- All that a section can do. -/
inductive WsMoves [DecidableEq τ] (w : WsConnection τ) : WsAction τ → WsConnection τ → Prop where
  | refused {a : WsAction τ} {grants : WsSendGrants} {f : WsFrame}
      (sending : a.sending = some (grants, f)) (refuses : ¬ WsAccepts grants w.ctx f) :
      WsMoves w a w
  | send {t : τ} {grants : WsSendGrants} {opcode : WsOpcode} {payload : List UInt8}
      {maskKey : Memory UInt8} {ctx : WsStreamCtx}
      (accepts : WsAccepts grants w.ctx (wsSentFrame opcode payload maskKey))
      (queued : WsQueued w.ctx ctx (wsSentFrame opcode payload maskKey).encode) :
      WsMoves w (.send t grants opcode payload maskKey)
        { w with ctx := ctx, appended := w.appended ++ [wsSentFrame opcode payload maskKey] }
  | closeSend {t : τ} {grants : WsSendGrants} {statusCode : ℤ} {maskKey : Memory UInt8}
      {ctx : WsStreamCtx}
      (accepts : WsAccepts grants w.ctx (wsSentFrame .close (wsClosePayload statusCode) maskKey))
      (queued : WsQueued w.ctx ctx
        (wsSentFrame .close (wsClosePayload statusCode) maskKey).encode) :
      WsMoves w (.closeSend t grants statusCode maskKey)
        { w with
          ctx := ctx
          closing := Function.update w.closing t true
          appended := w.appended ++ [wsSentFrame .close (wsClosePayload statusCode) maskKey] }
  | closeRequest {t : τ} (closing : w.closing t = true) :
      WsMoves w (.closeRequest t)
        { w with ctx := wsCloseRequest w.ctx, closing := Function.update w.closing t false }
  | read {t : τ} {bufLen : ℕ+} {bytes : List UInt8} {ctx : WsStreamCtx}
      (taken : WsTaken w.ctx ctx bufLen bytes) :
      WsMoves w (.read t bufLen) { w with ctx := ctx, returned := w.returned ++ bytes }

theorem wsStep_moves [DecidableEq τ] {w w' : WsConnection τ} {a : WsAction τ}
    (h : wsStep w a = some w') : WsMoves w a w' := by
  cases a with
  | send t grants opcode payload maskKey =>
    rw [wsStep] at h
    split at h
    · cases h
    · rcases wsSend_cases grants w.ctx opcode payload maskKey with
        ⟨haccept, ctx, hsend, hqueued⟩ | ⟨hrefuse, e, hsend⟩
      · rw [hsend] at h
        obtain rfl := Option.some.inj h
        exact .send haccept hqueued
      · rw [hsend] at h
        obtain rfl := Option.some.inj h
        exact .refused rfl hrefuse
  | closeSend t grants statusCode maskKey =>
    rw [wsStep, wsCloseSend] at h
    split at h
    · cases h
    · rcases wsSend_cases grants w.ctx .close (wsClosePayload statusCode) maskKey with
        ⟨haccept, ctx, hsend, hqueued⟩ | ⟨hrefuse, e, hsend⟩
      · rw [hsend] at h
        obtain rfl := Option.some.inj h
        exact .closeSend haccept hqueued
      · rw [hsend] at h
        obtain rfl := Option.some.inj h
        exact .refused rfl hrefuse
  | closeRequest t =>
    rw [wsStep] at h
    split at h
    · rename_i hclosing
      obtain rfl := Option.some.inj h
      exact .closeRequest hclosing
    · cases h
  | read t bufLen =>
    rw [wsStep] at h
    split at h
    · cases h
    · split at h
      · rename_i bytes ctx hread
        obtain rfl := Option.some.inj h
        exact .read (wsReadChunk_taken hread)
      · cases h

/-! ## Conservation -/

/-- What was returned and what is queued is what was appended, and the queue fits its block. -/
structure WsConserved (w : WsConnection τ) : Prop where
  bytes : w.returned ++ w.ctx.pending = wsEncodeAll w.appended
  fits : w.ctx.queueLen ≤ w.ctx.queueCap

theorem wsConserved_fresh (garbage : Memory UInt8) :
    WsConserved (wsConnectionFresh garbage : WsConnection τ) where
  bytes := rfl
  fits := Nat.zero_le _

theorem wsConserved_queued {w : WsConnection τ} {ctx : WsStreamCtx} {f : WsFrame}
    (h : WsConserved w) (hqueued : WsQueued w.ctx ctx f.encode) (closing : τ → Bool) :
    WsConserved { w with ctx := ctx, closing := closing, appended := w.appended ++ [f] } where
  bytes := by
    calc
      w.returned ++ ctx.pending = w.returned ++ w.ctx.pending ++ f.encode := by
        rw [hqueued.pending, List.append_assoc]
      _ = wsEncodeAll (w.appended ++ [f]) := by
        rw [h.bytes, wsEncodeAll_append, wsEncodeAll_cons, wsEncodeAll_nil, List.append_nil]
  fits := hqueued.fits

theorem WsConserved.moves [DecidableEq τ] {w w' : WsConnection τ} {a : WsAction τ}
    (h : WsConserved w) (hmoves : WsMoves w a w') : WsConserved w' := by
  cases hmoves with
  | refused sending refuses => exact h
  | send accepts queued => exact wsConserved_queued h queued w.closing
  | closeSend accepts queued => exact wsConserved_queued h queued _
  | closeRequest closing => exact ⟨h.bytes, h.fits⟩
  | read taken =>
    refine ⟨?_, ?_⟩
    · rw [List.append_assoc, taken.pending]
      exact h.bytes
    · have hcap := taken.queueCap
      have hlen := taken.queueLen
      have hfits := h.fits
      dsimp only
      omega

/-- A read returns nothing only when nothing is queued and the close has been requested. -/
theorem wsReadChunk_end {ctx ctx' : WsStreamCtx} {bufLen : ℕ} (hpos : 0 < bufLen)
    (h : wsReadChunk ctx bufLen = some ([], ctx')) :
    ctx.pending = [] ∧ ctx.closeRequested = true := by
  have htaken := wsReadChunk_taken h
  have hlen := htaken.length
  have hready := htaken.ready
  rw [List.length_nil] at hlen
  have hzero : ctx.queueLen = 0 := by omega
  exact ⟨by rw [WsStreamCtx.pending, hzero]; rfl, hready.resolve_left (by omega)⟩

/-- In every state that sends, closes and reads of any threads reach in any order, the bytes read
so far and the queue are the frames of the successful sends in order, the queue fits its block,
and a read would return nothing only after a close, with every byte read. -/
theorem wsOutbound_conserved [DecidableEq τ] {garbage : Memory UInt8}
    {as : List (WsAction τ)} {w : WsConnection τ}
    (run : Run wsStep (wsConnectionFresh garbage) as w) :
    w.returned ++ w.ctx.queue.read 0 w.ctx.queueLen = wsEncodeAll w.appended ∧
      w.ctx.queueLen ≤ w.ctx.queueCap ∧
      ∀ (bufLen : ℕ+) (ctx : WsStreamCtx), wsReadChunk w.ctx bufLen = some ([], ctx) →
        w.ctx.closeRequested = true ∧ w.returned = wsEncodeAll w.appended := by
  have hconserved : WsConserved w :=
    run.invariant (fun _ _ _ _ h hstep => h.moves (wsStep_moves hstep))
      (wsConserved_fresh garbage) fun a _ => trivial
  refine ⟨hconserved.bytes, hconserved.fits, fun bufLen ctx hread => ?_⟩
  obtain ⟨hnil, hclosed⟩ := wsReadChunk_end bufLen.pos hread
  have hbytes := hconserved.bytes
  rw [hnil, List.append_nil] at hbytes
  exact ⟨hclosed, hbytes⟩

/-- A greeting, a read that cuts it, a close and a read of the rest. -/
def wsVisit : List (WsAction Bool) :=
  [.send true ⟨true, true⟩ .text [0x48, 0x69] fun _ => 0x5A, .read false 3,
    .closeSend true ⟨true, true⟩ 1000 fun _ => 0x5A, .closeRequest true, .read false 100]

theorem wsVisit_conserved : ∃ w, Run wsStep (wsConnectionFresh fun _ => 0) wsVisit w ∧
    w.returned ++ w.ctx.queue.read 0 w.ctx.queueLen = wsEncodeAll w.appended ∧
      w.ctx.queueLen ≤ w.ctx.queueCap ∧
      ∀ (bufLen : ℕ+) (ctx : WsStreamCtx), wsReadChunk w.ctx bufLen = some ([], ctx) →
        w.ctx.closeRequested = true ∧ w.returned = wsEncodeAll w.appended := by
  have hsome : (wsVisit.foldlM wsStep (wsConnectionFresh fun _ => 0)).isSome := by decide +kernel
  obtain ⟨w, hw⟩ := Option.isSome_iff_exists.mp hsome
  exact ⟨w, run_iff.mpr hw, wsOutbound_conserved (run_iff.mpr hw)⟩

/-! ## Frames after a CLOSE frame -/

/-- Nothing follows a CLOSE frame. -/
def WsCloseLast (fs : List WsFrame) : Prop :=
  ∀ p f q, fs = p ++ f :: q → f.opcode = .close → q = []

theorem wsCloseLast_append_singleton {fs : List WsFrame} {g : WsFrame} :
    WsCloseLast (fs ++ [g]) ↔ ∀ f ∈ fs, f.opcode ≠ .close := by
  constructor
  · intro h f hf hclose
    obtain ⟨p, q, rfl⟩ := List.append_of_mem hf
    have hnil := h p f (q ++ [g]) (by simp) hclose
    simp at hnil
  · intro h p f q hlist hclose
    rcases append_singleton_cut hlist with ⟨hnil, -, -⟩ | ⟨q', -, rfl⟩
    · exact hnil
    · exact absurd hclose (h f (by simp))

theorem wsCloseLast_of_forall_ne {fs : List WsFrame} (h : ∀ f ∈ fs, f.opcode ≠ .close) :
    WsCloseLast fs := by
  rintro p f q rfl hclose
  exact absurd hclose (h f (by simp))

/-- A section that sends no CLOSE frame but as part of a close. -/
def WsAction.closesByClose : WsAction τ → Prop
  | .send _ _ opcode _ _ => opcode ≠ .close
  | _ => True

/-- Until a close has been requested, a CLOSE frame is out exactly when a thread is between its
two sections. -/
def WsHalfClosed (w : WsConnection τ) : Prop :=
  w.ctx.closeRequested = false →
    ((∃ f ∈ w.appended, f.opcode = .close) ↔ ∃ t, w.closing t = true)

theorem wsHalfClosed_fresh (garbage : Memory UInt8) :
    WsHalfClosed (wsConnectionFresh garbage : WsConnection τ) := by
  intro _
  simp [wsConnectionFresh]

theorem WsHalfClosed.moves [DecidableEq τ] {w w' : WsConnection τ} {a : WsAction τ}
    (h : WsHalfClosed w) (ha : a.closesByClose) (hmoves : WsMoves w a w') : WsHalfClosed w' := by
  cases hmoves with
  | refused sending refuses => exact h
  | @send t grants opcode payload maskKey ctx accepts queued =>
    intro _
    rw [← h accepts.opened]
    have hother : (wsSentFrame opcode payload maskKey).opcode ≠ .close := ha
    simp [or_and_right, exists_or, hother]
  | @closeSend t grants statusCode maskKey ctx accepts queued =>
    intro _
    refine iff_of_true ⟨_, List.mem_append_right _ (List.mem_singleton_self _), rfl⟩ ⟨t, ?_⟩
    exact Function.update_self t true w.closing
  | closeRequest closing =>
    intro hopen
    cases hopen
  | read taken =>
    intro hopen
    exact h (taken.closeRequested ▸ hopen)

/-- A frame is put into the queue while another thread is between the two sections of a close. -/
def WsOvertakes (w : WsConnection τ) (a : WsAction τ) : Prop :=
  (∃ t, w.closing t = true) ∧
    ∃ grants f, a.sending = some (grants, f) ∧ WsAccepts grants w.ctx f

theorem wsOvertakes_iff {w : WsConnection τ} {a : WsAction τ} {grants : WsSendGrants}
    {f : WsFrame} (hsending : a.sending = some (grants, f)) :
    WsOvertakes w a ↔ (∃ t, w.closing t = true) ∧ WsAccepts grants w.ctx f := by
  refine and_congr_right fun _ => ⟨?_, fun haccept => ⟨grants, f, hsending, haccept⟩⟩
  rintro ⟨grants', f', hsending', haccept⟩
  obtain ⟨rfl, rfl⟩ := Prod.mk.inj (Option.some.inj (hsending.symm.trans hsending'))
  exact haccept

theorem not_wsOvertakes {w : WsConnection τ} {a : WsAction τ} (hsending : a.sending = none) :
    ¬ WsOvertakes w a := by
  rintro ⟨-, grants, f, hsome, -⟩
  simp [hsending] at hsome

/-- An accepted frame keeps CLOSE frames last exactly when no thread is closing. -/
theorem wsCloseLast_append_iff {w : WsConnection τ} {grants : WsSendGrants} {f : WsFrame}
    (hinv : WsHalfClosed w) (haccept : WsAccepts grants w.ctx f) :
    WsCloseLast (w.appended ++ [f]) ↔
      WsCloseLast w.appended ∧ ¬ ∃ t, w.closing t = true := by
  rw [wsCloseLast_append_singleton, ← hinv haccept.opened]
  constructor
  · intro h
    exact ⟨wsCloseLast_of_forall_ne h, fun ⟨g, hg, hclose⟩ => h g hg hclose⟩
  · rintro ⟨-, hnone⟩ g hg hclose
    exact hnone ⟨g, hg, hclose⟩

theorem wsCloseLast_moves [DecidableEq τ] {w w' : WsConnection τ} {a : WsAction τ}
    (hinv : WsHalfClosed w) (hmoves : WsMoves w a w') :
    WsCloseLast w'.appended ↔ WsCloseLast w.appended ∧ ¬ WsOvertakes w a := by
  cases hmoves with
  | refused sending refuses =>
    have hbad : ¬ WsOvertakes w a := fun h => refuses ((wsOvertakes_iff sending).mp h).2
    exact (and_iff_left hbad).symm
  | send accepts queued =>
    rw [wsCloseLast_append_iff hinv accepts, wsOvertakes_iff rfl]
    simp only [accepts, and_true]
  | closeSend accepts queued =>
    rw [wsCloseLast_append_iff hinv accepts, wsOvertakes_iff rfl]
    simp only [accepts, and_true]
  | closeRequest closing => exact (and_iff_left (not_wsOvertakes rfl)).symm
  | read taken => exact (and_iff_left (not_wsOvertakes rfl)).symm

/-- In a run of sends of other frames, closes and reads, nothing follows a CLOSE frame exactly
when no frame is accepted while a thread is between the two sections of a close. -/
theorem wsCloseLast_iff [DecidableEq τ] {garbage : Memory UInt8} {as : List (WsAction τ)}
    {w : WsConnection τ} (closes : ∀ a ∈ as, a.closesByClose)
    (run : Run wsStep (wsConnectionFresh garbage) as w) :
    WsCloseLast w.appended ↔ Avoids wsStep WsOvertakes (wsConnectionFresh garbage) as :=
  run.good_iff_avoids (fun _ _ _ ha hinv hstep => hinv.moves ha (wsStep_moves hstep))
    (fun _ _ _ _ hinv hstep => wsCloseLast_moves hinv (wsStep_moves hstep))
    (wsHalfClosed_fresh garbage) (wsCloseLast_of_forall_ne (by simp [wsConnectionFresh])) closes

/-- A close and the sending of a text, the text after both sections of the close. -/
def wsLateText : List (WsAction Bool) :=
  [.closeSend true ⟨true, true⟩ 1000 fun _ => 0x5A, .closeRequest true,
    .send false ⟨true, true⟩ .text [0x48] fun _ => 0x5A]

theorem wsLateText_avoids :
    Avoids wsStep WsOvertakes (wsConnectionFresh fun _ => 0) wsLateText := by
  have hrun : ∃ w, Run wsStep (wsConnectionFresh fun _ => 0) wsLateText w ∧
      WsCloseLast w.appended := by
    refine ⟨_, .next (.next (.next .start rfl) rfl) rfl, ?_⟩
    exact wsCloseLast_append_singleton.mpr (by simp [wsConnectionFresh])
  obtain ⟨w, hrun, hlast⟩ := hrun
  exact (wsCloseLast_iff (by simp [wsLateText, WsAction.closesByClose]) hrun).mp hlast

/-- The same with the text between the two sections. -/
def wsOvertaking : List (WsAction Bool) :=
  [.closeSend true ⟨true, true⟩ 1000 fun _ => 0x5A,
    .send false ⟨true, true⟩ .text [0x48] fun _ => 0x5A, .closeRequest true]

/-- The text is in the byte stream behind the CLOSE frame. -/
theorem wsOvertaking_appends : ∃ w, Run wsStep (wsConnectionFresh fun _ => 0) wsOvertaking w ∧
    (∀ a ∈ wsOvertaking, a.closesByClose) ∧ ¬ WsCloseLast w.appended := by
  refine ⟨_, .next (.next (.next .start rfl) rfl) rfl,
    by simp [wsOvertaking, WsAction.closesByClose], fun hlast => ?_⟩
  exact absurd (hlast [] _ _ rfl rfl) (List.cons_ne_nil _ _)

end AbstractHttp.WebSocket
