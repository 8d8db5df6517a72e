import AbstractHttp.WebSocket.Reassembly

/-!
# The memory limit

The limit is checked when a 64-bit length has been read and when a fragment that
is not the last grows the reassembly block. The last fragment grows the block to
an exact fit without a check, so that the limit holds up to the first event that
exceeds it.
-/
namespace AbstractHttp.WebSocket
open Library Outcome

variable {cfg : WsConfig} {realloc : WsRealloc} {ctx : WsParserCtx}

/-- An event of at most the limit; other callbacks carry no payload. -/
def WsCallback.Fits (cfg : WsConfig) : WsCallback → Prop
  | .onMessage ev => ev.payload.length ≤ cfg.maxFrameSize
  | .onError _ => True
  | .onClose _ => True

/-- The limit holds in every state that the parser reaches on a stream, up to its first error, and
of every event that it delivers. -/
def WsMemoryBounded (cfg : WsConfig) (realloc : WsRealloc) (garbage : Memory UInt8)
    (s : List UInt8) : Prop :=
  ∀ p q, s = p ++ q →
    (wsParserFeed cfg realloc (wsParserFresh garbage) p).state.reassemblyOffset ≤
        cfg.maxFrameSize ∧
      (wsParserFeed cfg realloc (wsParserFresh garbage) p).state.reassemblyCapacity ≤
        cfg.maxFrameSize ∧
      ∀ w ∈ (wsParserFeed cfg realloc (wsParserFresh garbage) p).output, w.Fits cfg

/-- The next byte completes the payload of the current frame, for which there is room. -/
def WsParserCtx.Completes (realloc : WsRealloc) (ctx : WsParserCtx) : Prop :=
  ctx.state = .readPayload ∧ ctx.currentFrame.payloadLen ≤ ctx.payloadOffset + 1 ∧
    ¬ (ctx.currentFrame.payloadLen > ctx.payloadCapacity ∧
      realloc .payload ctx.currentFrame.payloadLen = false)

/-- The reassembled message exceeds the limit, and there is room for it. -/
def WsParserCtx.FinalTooMuch (cfg : WsConfig) (realloc : WsRealloc) (ctx : WsParserCtx) : Prop :=
  cfg.maxFrameSize < ctx.reassemblyOffset + ctx.currentFrame.payloadLen ∧
    ¬ (ctx.reassemblyOffset > 0 ∧
      ctx.reassemblyOffset + ctx.currentFrame.payloadLen > ctx.reassemblyCapacity ∧
      realloc .reassembly (ctx.reassemblyOffset + ctx.currentFrame.payloadLen) = false)

/-- What the current frame delivers exceeds the limit: the payload of a control frame, or the
message that a final data frame ends. -/
def WsParserCtx.DeliversTooMuch (cfg : WsConfig) (realloc : WsRealloc) (ctx : WsParserCtx) : Prop :=
  ctx.currentFrame.opcode ≠ WsOpcode.close.value ∧
    if ctx.currentFrame.opcode = WsOpcode.ping.value ∨
        ctx.currentFrame.opcode = WsOpcode.pong.value then
      cfg.maxFrameSize < ctx.currentFrame.payloadLen
    else ctx.currentFrame.fin = true ∧ ctx.FinalTooMuch cfg realloc

/-- A byte at which more than the limit is delivered. -/
def WsOverLimit (cfg : WsConfig) (realloc : WsRealloc) (ctx : WsParserCtx) (_b : UInt8) : Prop :=
  ctx.Completes realloc ∧ ctx.DeliversTooMuch cfg realloc

/-- The block is within the limit and the buffered bytes are within the block. -/
structure WithinLimit (cfg : WsConfig) (ctx : WsParserCtx) : Prop where
  offset_le : ctx.reassemblyOffset ≤ ctx.reassemblyCapacity
  capacity_le : ctx.reassemblyCapacity ≤ cfg.maxFrameSize

/-- A call that delivers no event and leaves the reassembly as it is. -/
structure Quiet (ctx : WsParserCtx) (o : WsOutcome) : Prop where
  offset : o.state.reassemblyOffset = ctx.reassemblyOffset
  capacity : o.state.reassemblyCapacity = ctx.reassemblyCapacity
  no_event : ∀ ev, .onMessage ev ∉ o.output

theorem Quiet.fits {o : WsOutcome} (h : Quiet ctx o) : ∀ w ∈ o.output, w.Fits cfg := by
  intro w hw
  cases w with
  | onMessage ev => exact absurd hw (h.no_event ev)
  | onError code => trivial
  | onClose status => trivial

theorem Quiet.withinLimit {o : WsOutcome} (h : Quiet ctx o) (hctx : WithinLimit cfg ctx) :
    WithinLimit cfg o.state :=
  ⟨by rw [h.offset, h.capacity]; exact hctx.offset_le, by rw [h.capacity]; exact hctx.capacity_le⟩

/-- What a header byte does: it is stored, which does not end the frame, or it is refused, and the
reassembly stays as it is. -/
inductive HeaderTurn (ctx : WsParserCtx) : WsOutcome → Prop
  | stored {c : WsParserCtx} (hstate : c.state ≠ .readOpcode)
      (hoffset : c.reassemblyOffset = ctx.reassemblyOffset)
      (hcapacity : c.reassemblyCapacity = ctx.reassemblyCapacity) : HeaderTurn ctx (done c)
  | refused {c : WsParserCtx} {code : ℤ} {e : ErrorCode}
      (hoffset : c.reassemblyOffset = ctx.reassemblyOffset)
      (hcapacity : c.reassemblyCapacity = ctx.reassemblyCapacity) :
      HeaderTurn ctx (wsFail c code e)

theorem wsLengthKnown_state (ctx : WsParserCtx) (len : ℕ) :
    (wsLengthKnown ctx len).state ≠ .readOpcode := by
  simp only [wsLengthKnown]
  split <;> simp

variable (cfg realloc) in
theorem headerTurn_wsParserIterate (hs : ctx.state ≠ .readPayload) (b : UInt8)
    (bs : List UInt8) : HeaderTurn ctx (wsParserIterate cfg realloc ctx b bs) := by
  rw [wsParserIterate]
  cases hstate : ctx.state with
  | readOpcode =>
    simp only [wsReadOpcode]
    split
    · exact .refused rfl rfl
    · split
      · exact .refused rfl rfl
      · exact .stored (by simp) rfl rfl
  | readLen =>
    simp only [wsReadLen]
    split
    · exact .stored (by simp) rfl rfl
    · split
      · exact .stored (by simp) rfl rfl
      · exact .stored (wsLengthKnown_state _ _) rfl rfl
  | readExtLen16 =>
    simp only [wsReadExtLen16]
    split
    · exact .stored (wsLengthKnown_state _ _) rfl rfl
    · exact .stored (by simp [wsStoreExtLen, hstate]) rfl rfl
  | readExtLen64 =>
    simp only [wsReadExtLen64]
    split
    · split
      · exact .refused rfl rfl
      · exact .stored (wsLengthKnown_state _ _) rfl rfl
    · exact .stored (by simp [wsStoreExtLen, hstate]) rfl rfl
  | readMask =>
    simp only [wsReadMask]
    split
    · exact .stored (by simp) rfl rfl
    · exact .stored (by simp [hstate]) rfl rfl
  | readPayload => exact absurd hstate hs

/-- Reading a header is quiet. -/
theorem HeaderTurn.quiet {o : WsOutcome} (h : HeaderTurn ctx o) : Quiet ctx o := by
  cases h with
  | stored _ hoffset hcapacity => exact ⟨hoffset, hcapacity, by simp [done]⟩
  | refused hoffset hcapacity => exact ⟨hoffset, hcapacity, by simp [wsFail, fail]⟩

variable (cfg realloc) in
theorem quiet_wsParserFeed (hs : ctx.state ≠ .readPayload) (b : UInt8) :
    Quiet ctx (wsParserFeed cfg realloc ctx [b]) := by
  rw [wsParserFeed_cons, wsUnread_header hs, (wsParserFeed_incremental cfg realloc).andThen_nil]
  exact (headerTurn_wsParserIterate cfg realloc hs b []).quiet

/-- A fragment is stored within the limit or refused. -/
theorem wsStoreFragment_withinLimit (hctx : WithinLimit cfg ctx) :
    WithinLimit cfg (wsStoreFragment cfg realloc ctx).state ∧
      ∀ w ∈ (wsStoreFragment cfg realloc ctx).output, w.Fits cfg := by
  rcases wsStoreFragment_cases cfg realloc ctx with
    ⟨code, e, h⟩ | ⟨hfits, h⟩ | ⟨cap, rfl, -, hcap, h⟩
  · rw [h]
    exact ⟨hctx, by simp [wsFail, fail, WsCallback.Fits]⟩
  · rw [h]
    exact ⟨⟨hfits, hctx.capacity_le⟩, by simp [done]⟩
  · rw [h]
    exact ⟨⟨le_wsDoubledCapacity _ _, hcap⟩, by simp [done]⟩

/-- A final frame keeps the limit unless it delivers too much. -/
theorem wsFinalFrame_withinLimit (hctx : WithinLimit cfg ctx)
    (hfew : ¬ ctx.FinalTooMuch cfg realloc) :
    WithinLimit cfg (wsFinalFrame realloc ctx).state := by
  simp only [wsFinalFrame]
  split
  · rename_i hoff
    split
    · exact hctx
    · rename_i hroom
      have hneed : ctx.reassemblyOffset + ctx.currentFrame.payloadLen ≤ cfg.maxFrameSize :=
        not_lt.mp fun hmax => hfew ⟨hmax, fun h => hroom h.2⟩
      exact ⟨Nat.zero_le _, max_le hctx.capacity_le hneed⟩
  · exact hctx

theorem wsFinalFrame_fits :
    (∀ w ∈ (wsFinalFrame realloc ctx).output, w.Fits cfg) ↔ ¬ ctx.FinalTooMuch cfg realloc := by
  simp only [wsFinalFrame, WsParserCtx.FinalTooMuch]
  split
  · rename_i hoff
    split
    · rename_i hrefused
      simp [wsFail, fail, WsCallback.Fits, hoff, hrefused]
    · rename_i hroom
      simp [WsCallback.Fits, wsAppendPayload, hroom]
  · rename_i hoff
    have hzero : ctx.reassemblyOffset = 0 := by omega
    simp [WsCallback.Fits, hzero]

/-- A delivery keeps the limit unless it delivers too much. -/
theorem wsDeliver_withinLimit (hctx : WithinLimit cfg ctx)
    (hfew : ¬ ctx.DeliversTooMuch cfg realloc) :
    WithinLimit cfg (wsDeliver cfg realloc ctx).state := by
  rw [wsDeliver]
  split
  · exact hctx
  · rename_i hclose
    split
    · exact hctx
    · rename_i hcontrol
      split
      · exact (wsStoreFragment_withinLimit hctx).1
      · rename_i hfin
        refine wsFinalFrame_withinLimit hctx fun htoo => hfew ⟨hclose, ?_⟩
        rw [if_neg hcontrol]
        exact ⟨by simpa using hfin, htoo⟩

theorem wsDeliver_fits (hctx : WithinLimit cfg ctx) :
    (∀ w ∈ (wsDeliver cfg realloc ctx).output, w.Fits cfg) ↔
      ¬ ctx.DeliversTooMuch cfg realloc := by
  rw [wsDeliver, WsParserCtx.DeliversTooMuch]
  split
  · rename_i hclose
    simp [WsCallback.Fits, hclose]
  · rename_i hclose
    split
    · simp [WsCallback.Fits, hclose]
    · split
      · rename_i hfin
        simp only [hfin, Bool.false_eq_true, false_and, and_false, not_false_eq_true, iff_true]
        exact (wsStoreFragment_withinLimit hctx).2
      · rename_i hfin
        rw [wsFinalFrame_fits]
        simp [hclose, hfin]

/-- The reset parser takes at most the first byte of a header from the same chunk. -/
theorem quiet_wsResetFrame (rest : List UInt8) (hrest : rest = [] ∨ ∃ b, rest = [b]) :
    Quiet ctx (wsParserFeed cfg realloc (wsResetFrame ctx) rest) := by
  rcases hrest with rfl | ⟨b, rfl⟩
  · rw [wsParserFeed_nil]
    exact ⟨rfl, rfl, by simp [done]⟩
  · have hquiet := quiet_wsParserFeed cfg realloc
      (by simp [wsResetFrame] : (wsResetFrame ctx).state ≠ .readPayload) b
    exact ⟨hquiet.offset, hquiet.capacity, hquiet.no_event⟩

variable (cfg) in
/-- A byte that completes a frame delivers it, and the reset parser reads on if there is more. -/
theorem wsParserFeed_delivers (h : ctx.Completes realloc) (b : UInt8) :
    wsParserFeed cfg realloc ctx [b] =
      (wsDeliver cfg realloc (wsCopyPayload (wsGrowPayload ctx) [b])).andThen fun c =>
        wsParserFeed cfg realloc (wsResetFrame c) (wsUnread ctx b []) := by
  obtain ⟨hs, hlen, hroom⟩ := h
  have hle := ctx.payload_le hs
  have hfull : ctx.payloadOffset + wsToCopy ctx [b].length = ctx.currentFrame.payloadLen := by
    simp only [wsToCopy, List.length_singleton]
    omega
  rw [wsParserFeed_cons, wsParserIterate_payload hs, wsReadPayload, if_neg hroom]
  refine (congrArg (Outcome.andThen · _) (if_pos hfull)).trans ?_
  rw [wsFrameComplete, andThen_assoc]
  rfl

variable (cfg) in
/-- Nothing else that a completing byte does is seen here. -/
theorem wsParserFeed_completes (h : ctx.Completes realloc) (b : UInt8) :
    ∃ k : WsParserCtx → WsOutcome, (∀ c, Quiet c (k c)) ∧
      wsParserFeed cfg realloc ctx [b] =
        (wsDeliver cfg realloc (wsCopyPayload (wsGrowPayload ctx) [b])).andThen k := by
  have hunread : wsUnread ctx b [] = [] ∨ ∃ c, wsUnread ctx b [] = [c] := by
    rw [wsUnread, if_pos h.1]
    cases wsToCopy ctx ([].length + 1) with
    | zero => exact Or.inr ⟨b, rfl⟩
    | succ n => exact Or.inl (by simp)
  exact ⟨fun c => wsParserFeed cfg realloc (wsResetFrame c) (wsUnread ctx b []),
    fun c => quiet_wsResetFrame (wsUnread ctx b []) hunread, wsParserFeed_delivers cfg h b⟩

variable (cfg) in
/-- A byte of a payload that is not its last one is copied. -/
theorem wsParserFeed_copies (hs : ctx.state = .readPayload)
    (hroom : ¬ (ctx.currentFrame.payloadLen > ctx.payloadCapacity ∧
      realloc .payload ctx.currentFrame.payloadLen = false))
    (hpart : ctx.payloadOffset + 1 < ctx.currentFrame.payloadLen) (b : UInt8) :
    wsParserFeed cfg realloc ctx [b] = done (wsCopyPayload (wsGrowPayload ctx) [b]) := by
  have hone : wsToCopy ctx [b].length = 1 := by
    simp only [wsToCopy, List.length_singleton]
    omega
  have hunread : wsUnread ctx b [] = [] := by
    rw [wsUnread, if_pos hs]
    change [b].drop (wsToCopy ctx [b].length) = []
    rw [hone]
    rfl
  have hopen : ¬ ctx.payloadOffset + wsToCopy ctx [b].length = ctx.currentFrame.payloadLen := by
    omega
  rw [wsParserFeed_cons, wsParserIterate_payload hs, hunread,
    (wsParserFeed_incremental cfg realloc).andThen_nil, wsReadPayload, if_neg hroom]
  exact if_neg hopen

/-- Every other byte is quiet. -/
theorem quiet_of_not_completes (h : ¬ ctx.Completes realloc) (b : UInt8) :
    Quiet ctx (wsParserFeed cfg realloc ctx [b]) := by
  by_cases hs : ctx.state = .readPayload
  · by_cases hroom : ctx.currentFrame.payloadLen > ctx.payloadCapacity ∧
        realloc .payload ctx.currentFrame.payloadLen = false
    · rw [wsParserFeed_cons, wsParserIterate_payload hs, wsReadPayload, if_pos hroom, wsFail,
        fail_andThen]
      exact ⟨rfl, rfl, by simp [fail]⟩
    · have hpart : ctx.payloadOffset + 1 < ctx.currentFrame.payloadLen :=
        not_le.mp fun hlen => h ⟨hs, hlen, hroom⟩
      rw [wsParserFeed_copies cfg hs hroom hpart]
      exact ⟨rfl, rfl, by simp [done]⟩
  · exact quiet_wsParserFeed cfg realloc hs b

theorem Quiet.andThen_fits {o : WsOutcome} {k : WsParserCtx → WsOutcome}
    (hk : ∀ c, Quiet c (k c)) :
    (∀ w ∈ (o.andThen k).output, w.Fits cfg) ↔ ∀ w ∈ o.output, w.Fits cfg := by
  constructor
  · exact fun h w hw => h w (mem_andThen_output.mpr (Or.inl hw))
  · intro h w hw
    rcases mem_andThen_output.mp hw with hw | ⟨-, hw⟩
    · exact h w hw
    · exact (hk o.state).fits w hw

theorem Quiet.andThen_withinLimit {o : WsOutcome} {k : WsParserCtx → WsOutcome}
    (hk : ∀ c, Quiet c (k c)) (ho : WithinLimit cfg o.state) :
    WithinLimit cfg (o.andThen k).state := by
  cases hfail : o.failure with
  | some e => rw [andThen_of_failure (by simp [hfail])]; exact ho
  | none => rw [andThen_of_none hfail]; exact (hk o.state).withinLimit ho

/-- A byte keeps the limit unless more than the limit is delivered at it. -/
theorem wsParserFeed_withinLimit (b : UInt8) (hctx : WithinLimit cfg ctx)
    (hfew : ¬ WsOverLimit cfg realloc ctx b) :
    WithinLimit cfg (wsParserFeed cfg realloc ctx [b]).state := by
  by_cases h : ctx.Completes realloc
  · obtain ⟨k, hk, hfeed⟩ := wsParserFeed_completes cfg h b
    have hcopied : WithinLimit cfg (wsCopyPayload (wsGrowPayload ctx) [b]) :=
      ⟨hctx.offset_le, hctx.capacity_le⟩
    rw [hfeed]
    exact Quiet.andThen_withinLimit hk
      (wsDeliver_withinLimit hcopied fun htoo => hfew ⟨h, htoo⟩)
  · exact (quiet_of_not_completes h b).withinLimit hctx

theorem wsParserFeed_fits (b : UInt8) (hctx : WithinLimit cfg ctx) :
    (∀ w ∈ (wsParserFeed cfg realloc ctx [b]).output, w.Fits cfg) ↔
      ¬ WsOverLimit cfg realloc ctx b := by
  by_cases h : ctx.Completes realloc
  · obtain ⟨k, hk, hfeed⟩ := wsParserFeed_completes cfg h b
    have hcopied : WithinLimit cfg (wsCopyPayload (wsGrowPayload ctx) [b]) :=
      ⟨hctx.offset_le, hctx.capacity_le⟩
    rw [hfeed, Quiet.andThen_fits hk, wsDeliver_fits hcopied]
    exact not_congr ⟨fun htoo => ⟨h, htoo⟩, fun hover => hover.2⟩
  · exact iff_of_true (quiet_of_not_completes h b).fits fun hover => h hover.1

theorem withinLimit_wsParserFresh (cfg : WsConfig) (garbage : Memory UInt8) :
    WithinLimit cfg (wsParserFresh garbage) := ⟨le_rfl, Nat.zero_le _⟩

/-- The limit holds on a stream exactly when no byte of it completes a frame, in the state in which
it is read, that delivers more than the limit. -/
theorem wsMemoryBounded_iff (cfg : WsConfig) (realloc : WsRealloc) (garbage : Memory UInt8)
    (s : List UInt8) :
    WsMemoryBounded cfg realloc garbage s ↔
      ∀ p b q, s = p ++ b :: q →
        (wsParserFeed cfg realloc (wsParserFresh garbage) p).failure = none →
        ¬ WsOverLimit cfg realloc (wsParserFeed cfg realloc (wsParserFresh garbage) p).state b := by
  have hinc := wsParserFeed_incremental cfg realloc
  have hfresh := withinLimit_wsParserFresh cfg garbage
  have houtput (p : List UInt8) := hinc.output_forall_iff
    (fun _ b hctx => wsParserFeed_withinLimit b hctx)
    (fun _ b hctx => wsParserFeed_fits b hctx) hfresh p
  constructor
  · intro h
    exact (houtput s).mp (h s [] (List.append_nil s).symm).2.2
  · rintro hgood p q rfl
    have hpre : Incremental.NoneBad (wsParserFeed cfg realloc) (WsOverLimit cfg realloc)
        (wsParserFresh garbage) p := by
      rintro p' b q' rfl
      exact hgood p' b (q' ++ q) (by simp)
    have hlimit := hinc.invariant_of_noneBad
      (fun _ b hctx => wsParserFeed_withinLimit b hctx) hfresh hpre
    exact ⟨hlimit.offset_le.trans hlimit.capacity_le, hlimit.capacity_le, (houtput p).mpr hpre⟩

/-- A first fragment of `n` bytes. -/
def wsFilling (n : ℕ) : WsFrame := ⟨false, .text, none, List.replicate n 0⟩

theorem wsFilling_length (n : ℕ) : (wsFilling n).payload.length = n := List.length_replicate

theorem wsFilling_readable {n : ℕ} (hn : n < 2 ^ 63) : (wsFilling n).Readable :=
  ⟨by simp [wsFilling], by rwa [wsFilling_length]⟩

/-- A last fragment of one byte. -/
def wsLastByte : WsFrame := ⟨true, .continuation, none, [0]⟩

/-- A fragment may fill the block to the limit, and the last one goes beyond it. -/
theorem wsFilling_unbounded :
    ¬ WsMemoryBounded .default grantAll (fun _ => 0)
      (wsEncodeAll [wsFilling 1048576, wsLastByte]) := by
  intro h
  have hreadable : ∀ f ∈ [wsFilling 1048576, wsLastByte], f.Readable := by
    simp only [List.mem_cons, List.not_mem_nil, or_false, forall_eq_or_imp, forall_eq]
    exact ⟨wsFilling_readable (by norm_num), by simp [WsFrame.readable_iff, wsLastByte]⟩
  have hrun := wsParserFeed_encodeAll_complete .default (holds_wsParserFresh fun _ => 0) hreadable
    (by simp [wsLastByte])
  obtain ⟨c, -, hfirst⟩ : ∃ c, Grown 8 c ∧ wsFrameStep .default .fresh (wsFilling 1048576) =
      done ⟨WsAssembly.fresh.buffered ++ (wsFilling 1048576).payload, c⟩ :=
    wsFrameStep_fragment le_rfl (Or.inl rfl) rfl rfl (Or.inr rfl)
      (by rw [wsFilling_length]; exact le_rfl)
  have hshort : ¬ wsLastByte.TooLong .default := by simp [WsFrame.TooLong, wsLastByte]
  have hsecond := wsFrameStep_event (a := ⟨WsAssembly.fresh.buffered ++
    (wsFilling 1048576).payload, c⟩) rfl rfl hshort
  have hall := (h _ [] (List.append_nil _).symm).2.2
  rw [hrun.output, wsFrameRun, hfirst, done_andThen, wsFrameRun] at hall
  have hfits := hall _ (mem_andThen_output.mpr (Or.inl (hsecond ▸ List.mem_singleton_self _)))
  change (([] ++ (wsFilling 1048576).payload) ++ [0]).length ≤ 1048576 at hfits
  rw [List.nil_append, List.length_append, wsFilling_length] at hfits
  exact absurd hfits (by norm_num)

end AbstractHttp.WebSocket
