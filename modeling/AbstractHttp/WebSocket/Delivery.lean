import AbstractHttp.WebSocket.Connection
import AbstractHttp.WebSocket.FrameRun

/-!
# Two ends of one connection

Threads send, close and read on the stream of a request while the network carries
the bytes that the reads returned, in order and in pieces of any size, to the
parser of the peer. What the peer is called back with depends on how many bytes
have arrived and on nothing else.
-/
namespace AbstractHttp.WebSocket
open Library Outcome

variable {τ : Type*} {cfg : WsConfig}

/-- A section of a thread at the sending end, or the arrival of up to `n` bytes. -/
inductive WsLinkAction (τ : Type*) where
  | act (a : WsAction τ)
  | deliver (n : ℕ+)

/-- The sending end, the number of bytes that arrived, and the parser with its callbacks so far. -/
structure WsLink (τ : Type*) where
  sender : WsConnection τ
  delivered : ℕ
  receiver : Outcome WsParserCtx WsCallback ErrorCode

def wsLinkFresh (garbage garbage' : Memory UInt8) : WsLink τ :=
  ⟨wsConnectionFresh garbage, 0, done (wsParserFresh garbage')⟩

/-- The bytes of a piece of the network: read from the request, not arrived yet. -/
def WsLink.arriving (w : WsLink τ) (n : ℕ) : List UInt8 :=
  (w.sender.returned.drop w.delivered).take n

def wsLinkStep [DecidableEq τ] (cfg : WsConfig) (w : WsLink τ) :
    WsLinkAction τ → Option (WsLink τ)
  | .act a => (wsStep w.sender a).map fun sender => { w with sender := sender }
  | .deliver n =>
    some { w with
      delivered := w.delivered + (w.arriving n).length
      receiver := w.receiver.andThen (wsParserFeed cfg grantAll · (w.arriving n)) }

/-- The callback that a frame of a send is meant to cause at the peer. -/
def wsMeant (f : WsFrame) : WsCallback :=
  if f.opcode = .close then .onClose (wsCloseCode f.payload)
  else .onMessage ⟨f.opcode.value, f.payload, true⟩

/-- What a send may put into a frame for a peer with this configuration. -/
structure WsFits (cfg : WsConfig) (f : WsFrame) : Prop where
  fin : f.fin = true
  length : f.payload.length ≤ cfg.maxFrameSize

theorem WsFits.readable {f : WsFrame} (h : WsFits cfg f) : f.Readable where
  control_fin _ := h.fin
  length := by
    have hle := h.length
    have hmax := cfg.maxFrameSize_lt
    omega

/-- The payload that the action sends is within the frame limit of the peer. -/
def WsLinkAction.fits (cfg : WsConfig) : WsLinkAction τ → Prop
  | .act a => ∀ grants f, a.sending = some (grants, f) → f.payload.length ≤ cfg.maxFrameSize
  | .deliver _ => True

/-! ## What the parser does with the frames -/

theorem wsFrameStep_fits (cap : ℕ) {f : WsFrame} (hf : WsFits cfg f) :
    wsFrameStep cfg ⟨[], cap⟩ f = ⟨⟨[], cap⟩, [wsMeant f], none⟩ := by
  have hshort : ¬ f.TooLong cfg := fun hlong => absurd hlong.2 (not_lt.mpr hf.length)
  rw [wsFrameStep, if_neg hshort, wsMeant]
  by_cases hclose : f.opcode = .close
  · rw [if_pos hclose, if_pos hclose]
  · rw [if_neg hclose, if_neg hclose, hf.fin]
    split
    · rfl
    · rw [if_neg (by simp)]
      rfl

theorem wsFrameRun_fits (cap : ℕ) {fs : List WsFrame} (hfs : ∀ f ∈ fs, WsFits cfg f) :
    wsFrameRun cfg ⟨[], cap⟩ fs = ⟨⟨[], cap⟩, fs.map wsMeant, none⟩ := by
  induction fs with
  | nil => rfl
  | cons f fs ih =>
    rw [wsFrameRun, wsFrameStep_fits cap (hfs f (by simp)), andThen_of_none rfl,
      ih fun g hg => hfs g (List.mem_cons_of_mem f hg)]
    rfl

/-- Frames with something behind them, or with a payload at their end, are all delivered. -/
theorem wsParserFeed_frames (cfg : WsConfig) {ctx : WsParserCtx} {cap : ℕ}
    (hctx : Holds ctx ⟨[], cap⟩)
    {fs : List WsFrame} (hfs : ∀ f ∈ fs, WsFits cfg f) (rest : List UInt8)
    (htail : WsTail fs rest) :
    ∃ ctx', Holds ctx' ⟨[], cap⟩ ∧
      wsParserFeed cfg grantAll ctx (wsEncodeAll fs ++ rest) =
        (⟨ctx', fs.map wsMeant, none⟩ : Outcome WsParserCtx WsCallback ErrorCode).andThen
          (wsParserFeed cfg grantAll · rest) := by
  obtain ⟨⟨ctx', out, failure⟩, ho, hfeed⟩ := wsParserFeed_encodeAll cfg hctx
    (fun f hf => (hfs f hf).readable) rest htail
  rw [wsFrameRun_fits cap hfs] at ho
  obtain rfl : out = fs.map wsMeant := ho.output
  obtain rfl : failure = none := ho.failure
  exact ⟨ctx', ho.state rfl, hfeed⟩

/-- What begins a call that only moves to a state only moves to a state. -/
theorem eq_done_of_andThen {σ ω ε : Type*} {o : Outcome σ ω ε} {k : σ → Outcome σ ω ε} {s : σ}
    (h : o.andThen k = done s) : ∃ t, o = done t := by
  have hok : o.failure = none := by
    have hfail : (o.andThen k).failure = none := by rw [h]; rfl
    exact (andThen_failure_none.mp hfail).1
  have hout : o.output ++ (k o.state).output = [] := by
    rw [andThen_of_none hok] at h
    exact congrArg Outcome.output h
  exact ⟨o.state, Outcome.ext rfl (List.append_eq_nil_iff.mp hout).1 hok⟩

/-- Less than the payload of a frame is only stored. -/
theorem wsParserFeed_body_unfinished {ctx : WsParserCtx} (hs : ctx.state = .readPayload)
    {q : List UInt8} (hq : q.length < ctx.currentFrame.payloadLen - ctx.payloadOffset) :
    ∃ ctx', wsParserFeed cfg grantAll ctx q = done ctx' := by
  cases q with
  | nil => exact ⟨ctx, wsParserFeed_nil cfg grantAll ctx⟩
  | cons b bs =>
    have hread := wsReadPayload_grant cfg ctx (b :: bs)
    rw [if_neg (show ¬ _ = ctx.currentFrame.payloadLen from wsCopyPayload_unfinished hq)] at hread
    rw [wsParserFeed_cons, wsParserIterate_payload hs, hread, done_andThen,
      wsUnread_unfinished hs b bs hq, wsParserFeed_nil]
    exact ⟨_, rfl⟩

/-- Short of its last byte a frame causes nothing, and an empty one not even with it. -/
theorem wsParserFeed_unfinished {ctx : WsParserCtx} {a : WsAssembly} (hctx : Holds ctx a)
    {f : WsFrame} (hf : WsFits cfg f) {p rest : List UInt8} (hcut : f.encode = p ++ rest)
    (hrest : rest ≠ [] ∨ f.payload = []) :
    ∃ ctx', wsParserFeed cfg grantAll ctx p = done ctx' := by
  have hshort : ¬ f.TooLong cfg := fun hlong => absurd hlong.2 (not_lt.mpr hf.length)
  obtain ⟨ctx₁, refused, hpayload, hheader⟩ := wsParserFeed_header cfg grantAll hctx.state
    hctx.maskOffset hf.readable
  simp only [if_neg hshort] at hheader
  rw [WsFrame.encode, List.append_eq_append_iff] at hcut
  rcases hcut with ⟨q, rfl, hbody⟩ | ⟨h, hsplit, -⟩
  · rw [hheader]
    have hlen := congrArg List.length hbody
    rw [List.length_append, f.body_length] at hlen
    rcases hrest with hrest | hempty
    · refine wsParserFeed_body_unfinished hpayload.state ?_
      rw [hpayload.payloadLen, hpayload.payloadOffset]
      have hpos := List.length_pos_iff.mpr hrest
      omega
    · rw [hempty, List.length_nil] at hlen
      obtain rfl : q = [] := List.eq_nil_of_length_eq_zero (by omega)
      exact ⟨ctx₁, wsParserFeed_nil cfg grantAll ctx₁⟩
  · have hwhole := hheader []
    rw [List.append_nil, hsplit, wsParserFeed_append, wsParserFeed_nil] at hwhole
    exact eq_done_of_andThen hwhole

/-- A frame has its effect with its last byte, and an empty one with the byte behind it. -/
def WsFrame.EffectiveAt (f : WsFrame) (n : ℕ) : Prop :=
  f.encode.length < n ∨ (f.encode.length = n ∧ f.payload ≠ [])

instance (f : WsFrame) (n : ℕ) : Decidable (f.EffectiveAt n) :=
  inferInstanceAs (Decidable (_ ∨ _))

/-- The number of frames that have had their effect when `n` bytes of the stream have arrived. -/
def wsEffective : ℕ → List WsFrame → ℕ
  | _, [] => 0
  | n, f :: fs => if f.EffectiveAt n then wsEffective (n - f.encode.length) fs + 1 else 0

/-- After `n` bytes of a stream of frames, exactly the effective ones have been called back. -/
theorem wsParserFeed_take {ctx : WsParserCtx} {cap : ℕ} (hctx : Holds ctx ⟨[], cap⟩)
    {fs : List WsFrame} (hfs : ∀ f ∈ fs, WsFits cfg f) {n : ℕ}
    (hn : n ≤ (wsEncodeAll fs).length) :
    (wsParserFeed cfg grantAll ctx ((wsEncodeAll fs).take n)).failure = none ∧
      (wsParserFeed cfg grantAll ctx ((wsEncodeAll fs).take n)).output =
        (fs.take (wsEffective n fs)).map wsMeant := by
  induction fs generalizing ctx n with
  | nil =>
    rw [wsEncodeAll_nil, List.take_nil, wsParserFeed_nil]
    exact ⟨rfl, rfl⟩
  | cons f fs ih =>
    have hf := hfs f (by simp)
    rw [wsEncodeAll_cons, List.length_append] at hn
    rw [wsEncodeAll_cons, wsEffective]
    by_cases heff : f.EffectiveAt n
    · have hle : f.encode.length ≤ n := heff.elim Nat.le_of_lt fun h => h.1.le
      have hrest : n - f.encode.length ≤ (wsEncodeAll fs).length := by omega
      have htail : WsTail [f] ((wsEncodeAll fs).take (n - f.encode.length)) := by
        rcases heff with hlt | ⟨-, hne⟩
        · left
          rw [← List.length_pos_iff, List.length_take]
          omega
        · right
          rintro g ⟨⟩
          exact hne
      obtain ⟨ctx', hctx', hfeed⟩ := wsParserFeed_frames cfg hctx (by simpa using hf)
        _ htail
      obtain ⟨hok, hout⟩ := ih hctx' (fun g hg => hfs g (List.mem_cons_of_mem f hg)) hrest
      rw [wsEncodeAll_cons, wsEncodeAll_nil, List.append_nil] at hfeed
      rw [List.take_append, List.take_of_length_le hle, hfeed, andThen_of_none rfl, if_pos heff,
        List.take_succ_cons, List.map_cons, hout]
      exact ⟨hok, rfl⟩
    · rw [WsFrame.EffectiveAt, not_or, not_lt] at heff
      have hcut : f.encode.drop n ≠ [] ∨ f.payload = [] := by
        rcases heff.1.lt_or_eq with hlt | heq
        · left
          rw [← List.length_pos_iff, List.length_drop]
          omega
        · exact Or.inr (not_not.mp fun hne => heff.2 ⟨heq.symm, hne⟩)
      obtain ⟨ctx', hdone⟩ := wsParserFeed_unfinished hctx hf
        (List.take_append_drop n f.encode).symm hcut
      rw [List.take_append_of_le_length heff.1, hdone, if_neg ?_]
      · exact ⟨rfl, rfl⟩
      · rw [WsFrame.EffectiveAt, not_or, not_lt]
        exact heff

/-- With the whole stream all frames are effective, unless the last one is empty. -/
theorem wsEffective_length {fs : List WsFrame}
    (hlast : ∀ f, fs.getLast? = some f → f.payload ≠ []) :
    wsEffective (wsEncodeAll fs).length fs = fs.length := by
  induction fs with
  | nil => rfl
  | cons f fs ih =>
    have hrest : ∀ g, fs.getLast? = some g → g.payload ≠ [] := by
      intro g hg
      cases fs with
      | nil => cases hg
      | cons _ _ => exact hlast g hg
    have heff : f.EffectiveAt (wsEncodeAll (f :: fs)).length := by
      rw [WsFrame.EffectiveAt, wsEncodeAll_cons, List.length_append]
      cases fs with
      | nil => exact Or.inr ⟨rfl, hlast f rfl⟩
      | cons g gs =>
        left
        have hpos := List.length_pos_iff.mpr g.encode_ne_nil
        rw [wsEncodeAll_cons, List.length_append]
        omega
    rw [wsEffective, if_pos heff, wsEncodeAll_cons, List.length_append, Nat.add_sub_cancel_left,
      ih hrest, List.length_cons]

/-! ## Runs of both ends -/

/-- The frames appended can be read by the peer, and its parser is where the bytes that have
arrived lead. -/
structure WsLinkSound (cfg : WsConfig) (garbage : Memory UInt8) (w : WsLink τ) : Prop where
  conserved : WsConserved w.sender
  fits : ∀ f ∈ w.sender.appended, WsFits cfg f
  delivered : w.delivered ≤ w.sender.returned.length
  receiver : w.receiver =
    wsParserFeed cfg grantAll (wsParserFresh garbage) (w.sender.returned.take w.delivered)

theorem wsLinkSound_fresh (cfg : WsConfig) (garbage garbage' : Memory UInt8) :
    WsLinkSound cfg garbage' (wsLinkFresh garbage garbage' : WsLink τ) where
  conserved := wsConserved_fresh garbage
  fits f hf := by cases hf
  delivered := Nat.le_refl 0
  receiver := (wsParserFeed_nil cfg grantAll _).symm

/-- A section only adds to what has been returned, and only sends frames that fit. -/
theorem WsMoves.extends [DecidableEq τ] {w w' : WsConnection τ} {a : WsAction τ}
    (h : WsMoves w a w') (ha : WsLinkAction.fits cfg (.act a)) :
    w.returned <+: w'.returned ∧
      ((∀ f ∈ w.appended, WsFits cfg f) → ∀ f ∈ w'.appended, WsFits cfg f) := by
  have hadd (f : WsFrame) (hf : WsFits cfg f) (hall : ∀ g ∈ w.appended, WsFits cfg g) :
      ∀ g ∈ w.appended ++ [f], WsFits cfg g := by
    intro g hg
    rcases List.mem_append.mp hg with hg | hg
    · exact hall g hg
    · rwa [List.mem_singleton.mp hg]
  cases h with
  | refused sending refuses => exact ⟨List.prefix_rfl, id⟩
  | send accepts queued => exact ⟨List.prefix_rfl, hadd _ ⟨rfl, ha _ _ rfl⟩⟩
  | closeSend accepts queued => exact ⟨List.prefix_rfl, hadd _ ⟨rfl, ha _ _ rfl⟩⟩
  | closeRequest closing => exact ⟨List.prefix_rfl, id⟩
  | read taken => exact ⟨List.prefix_append _ _, id⟩

theorem WsLinkSound.step [DecidableEq τ] {garbage : Memory UInt8} {w w' : WsLink τ}
    {a : WsLinkAction τ} (h : WsLinkSound cfg garbage w) (ha : a.fits cfg)
    (hstep : wsLinkStep cfg w a = some w') : WsLinkSound cfg garbage w' := by
  cases a with
  | act a =>
    obtain ⟨sender, hsender, rfl⟩ := Option.map_eq_some_iff.mp hstep
    have hmoves := wsStep_moves hsender
    obtain ⟨⟨more, hmore⟩, hfits⟩ := hmoves.extends ha
    refine ⟨h.conserved.moves hmoves, hfits h.fits, ?_, ?_⟩
    · rw [← hmore, List.length_append]
      exact h.delivered.trans (Nat.le_add_right _ _)
    · rw [← hmore, List.take_append_of_le_length h.delivered]
      exact h.receiver
  | deliver n =>
    obtain rfl := Option.some.inj hstep
    have hlen : (w.arriving n).length ≤ w.sender.returned.length - w.delivered := by
      rw [WsLink.arriving, List.length_take, List.length_drop]
      exact Nat.min_le_right _ _
    refine ⟨h.conserved, h.fits, ?_, ?_⟩
    · have hle := h.delivered
      dsimp only
      omega
    · have htake : w.sender.returned.take (w.delivered + (w.arriving n).length) =
          w.sender.returned.take w.delivered ++ w.arriving n := by
        rw [List.take_add]
        congr 1
        rw [WsLink.arriving, List.length_take, ← List.take_take, List.take_length]
      dsimp only
      rw [htake, wsParserFeed_append, h.receiver]

/-- Whatever threads send, close and read, and however the network cuts the bytes, the parser of
the peer never fails and has made exactly the callbacks of the frames that have arrived, in the
order in which they were sent. When all bytes have arrived and the last frame is not empty, these
are all the frames. -/
theorem wsLink_delivers [DecidableEq τ] {garbage garbage' : Memory UInt8}
    {as : List (WsLinkAction τ)} {w : WsLink τ}
    (run : Run (wsLinkStep cfg) (wsLinkFresh garbage garbage') as w)
    (hfits : ∀ a ∈ as, a.fits cfg) :
    w.receiver.failure = none ∧
      w.receiver.output =
        (w.sender.appended.take (wsEffective w.delivered w.sender.appended)).map wsMeant ∧
      (w.delivered = (wsEncodeAll w.sender.appended).length →
        (∀ f, w.sender.appended.getLast? = some f → f.payload ≠ []) →
        w.receiver.output = w.sender.appended.map wsMeant) := by
  have hsound : WsLinkSound cfg garbage' w :=
    run.invariant (fun _ _ _ ha h hstep => h.step ha hstep) (wsLinkSound_fresh cfg garbage garbage')
      hfits
  have hbytes := hsound.conserved.bytes
  have hlen := congrArg List.length hbytes
  rw [List.length_append] at hlen
  have htake : w.sender.returned.take w.delivered =
      (wsEncodeAll w.sender.appended).take w.delivered := by
    rw [← hbytes, List.take_append_of_le_length hsound.delivered]
  have hle : w.delivered ≤ (wsEncodeAll w.sender.appended).length := by
    have hdelivered := hsound.delivered
    omega
  obtain ⟨hok, hout⟩ := wsParserFeed_take (holds_wsParserFresh garbage') hsound.fits hle
  rw [hsound.receiver, htake]
  refine ⟨hok, hout, fun hall hlast => ?_⟩
  rw [hout, hall, wsEffective_length hlast, List.take_length]

/-- A greeting that is read while it is cut by the network, and a close behind it. -/
def wsLinkVisit : List (WsLinkAction Bool) :=
  [.act (.send true ⟨true, true⟩ .text [0x48, 0x69] fun _ => 0x5A), .act (.read false 5),
    .deliver 6, .act (.closeSend true ⟨true, true⟩ 1000 fun _ => 0x5A), .deliver 200,
    .act (.closeRequest true), .act (.read false 200), .deliver 4, .deliver 200]

theorem wsLinkVisit_delivers : ∃ w,
    Run (wsLinkStep .default) (wsLinkFresh (fun _ => 0) fun _ => 0) wsLinkVisit w ∧
      w.receiver.failure = none ∧
      w.receiver.output =
        (w.sender.appended.take (wsEffective w.delivered w.sender.appended)).map wsMeant ∧
      (w.delivered = (wsEncodeAll w.sender.appended).length →
        (∀ f, w.sender.appended.getLast? = some f → f.payload ≠ []) →
        w.receiver.output = w.sender.appended.map wsMeant) := by
  have hsome : (wsLinkVisit.foldlM (wsLinkStep .default)
      (wsLinkFresh (fun _ => 0) fun _ => 0)).isSome := by decide +kernel
  obtain ⟨w, hw⟩ := Option.isSome_iff_exists.mp hsome
  refine ⟨w, run_iff.mpr hw, wsLink_delivers (run_iff.mpr hw) ?_⟩
  simp [wsLinkVisit, WsLinkAction.fits, WsAction.sending, wsSentFrame, wsClosePayload,
    mathWsHtons, WsConfig.default]

end AbstractHttp.WebSocket
