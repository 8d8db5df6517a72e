import AbstractHttp.WebSocket.Reassembly

/-!
# The order of fragments

RFC 6455 asks for the history of data frames: a fragmented message is unfinished
from its first frame to the next final continuation. The parser asks whether
bytes are buffered. Both are computed here from the frames alone, and the frames
at which the two part are exactly those where the order is not enforced.
-/
namespace AbstractHttp.WebSocket
open Library Outcome

variable {cfg : WsConfig} {f : WsFrame}

/-- The opcode that the unfinished message was opened with. -/
def wsPendingStep (pending : Option WsOpcode) (f : WsFrame) : Option WsOpcode :=
  if f.opcode ∈ [.text, .binary] ∧ f.fin = false then some f.opcode
  else if f.opcode = .continuation ∧ f.fin = true then none
  else pending

/-- The unfinished message after some frames. -/
def wsPending (fs : List WsFrame) : Option WsOpcode := fs.foldl wsPendingStep none

/-- A message is opened by a text or a binary frame. -/
theorem wsPending_opened {fs : List WsFrame} {op : WsOpcode} (h : wsPending fs = some op) :
    op = .text ∨ op = .binary := by
  have hstep (pending : Option WsOpcode) (f : WsFrame)
      (hp : ∀ op, pending = some op → op = .text ∨ op = .binary) :
      ∀ op, wsPendingStep pending f = some op → op = .text ∨ op = .binary := by
    intro op hop
    rw [wsPendingStep] at hop
    split at hop
    · rename_i hopens
      obtain rfl := Option.some.inj hop
      simpa using hopens.1
    · split at hop
      · cases hop
      · exact hp op hop
  have key : ∀ op, wsPending fs = some op → op = .text ∨ op = .binary :=
    List.foldlRecOn fs wsPendingStep (by simp) fun pending hp f _ => hstep pending f hp
  exact key op h

/-- The payload bytes of the data frames without FIN since the last data frame with FIN. -/
def wsBufferedStep (buffered : List UInt8) (f : WsFrame) : List UInt8 :=
  if f.isControl then buffered else if f.fin then [] else buffered ++ f.payload

def wsBuffered (fs : List WsFrame) : List UInt8 := fs.foldl wsBufferedStep []

/-- A call on some frames and the first byte of what follows them. -/
def wsObserved (cfg : WsConfig) (garbage : Memory UInt8) (fs next : List WsFrame) : WsOutcome :=
  wsParserFeed cfg grantAll (wsParserFresh garbage)
    (wsEncodeAll fs ++ (wsEncodeAll next).take 1)

/-- The fragment order at one frame: what is out of order is rejected with a framing error, and
the event of a completed message carries the opcode that the message was opened with. -/
structure WsOrderKeptAt (cfg : WsConfig) (garbage : Memory UInt8) (pre : List WsFrame)
    (f : WsFrame) (post : List WsFrame) : Prop where
  interloper : f.opcode ∈ [.text, .binary] → wsPending pre ≠ none →
    (wsObserved cfg garbage (pre ++ [f]) post).failure = some .wsFraming
  orphan : f.opcode = .continuation → wsPending pre = none →
    (wsObserved cfg garbage (pre ++ [f]) post).failure = some .wsFraming
  event : f.opcode = .continuation → f.fin = true → ∀ op, wsPending pre = some op →
    ∀ new ev, (wsObserved cfg garbage (pre ++ [f]) post).output =
      (wsObserved cfg garbage pre (f :: post)).output ++ new → .onMessage ev ∈ new →
      ev.opcode = op.value

/-- The fragment order at every frame that the parser gets to. -/
def WsOrderKept (cfg : WsConfig) (garbage : Memory UInt8) (fs : List WsFrame) : Prop :=
  ∀ pre f post, fs = pre ++ f :: post →
    (wsObserved cfg garbage pre (f :: post)).failure = none → WsOrderKeptAt cfg garbage pre f post

/-- A frame is run within the call unless it is empty and the last one. -/
def WsRun (f : WsFrame) (post : List WsFrame) : Prop := f.payload ≠ [] ∨ post ≠ []

/-- Where bytes being buffered and a message being unfinished come to the same. -/
def WsOrderSeen (cfg : WsConfig) (pre : List WsFrame) (f : WsFrame) (post : List WsFrame) : Prop :=
  if f.opcode = .continuation then
    wsPending pre ≠ none ∧ (f.fin = true → f.TooLong cfg ∨ ¬ WsRun f post)
  else if f.opcode ∈ [.text, .binary] then
    wsPending pre = none ∨
      (f.fin = false ∧ wsBuffered pre ≠ [] ∧ ¬ f.TooLong cfg ∧ WsRun f post)
  else True

/-! ### The calls as runs of the frame machine -/

theorem wsFrameStep_buffered {a : WsAssembly} (hok : (wsFrameStep cfg a f).failure = none) :
    (wsFrameStep cfg a f).state.buffered = wsBufferedStep a.buffered f := by
  have hshort : ¬ f.TooLong cfg := by
    intro hlong
    rw [wsFrameStep_of_tooLong hlong] at hok
    cases hok
  rw [wsBufferedStep]
  cases hcontrol : f.isControl with
  | true => rw [(wsFrameStep_of_control hshort hcontrol).1, if_pos rfl]
  | false =>
    rw [wsFrameStep_of_data hshort hcontrol] at hok ⊢
    cases hfin : f.fin with
    | true =>
      simp only [Bool.true_eq_false, Bool.false_eq_true, if_true, if_false, wsFrameFinal,
        WsAssembly.emptied]
      split
      · assumption
      · rfl
    | false =>
      rw [if_pos hfin, wsFrameFragment] at hok
      rw [if_pos rfl, wsFrameFragment]
      split at hok
      · cases hok
      · rename_i horder
        rw [if_neg horder]
        split at hok
        · cases hok
        · rfl

theorem wsFrameRun_buffered {a : WsAssembly} {fs : List WsFrame}
    (hok : (wsFrameRun cfg a fs).failure = none) :
    (wsFrameRun cfg a fs).state.buffered = fs.foldl wsBufferedStep a.buffered := by
  induction fs generalizing a with
  | nil => rfl
  | cons f fs ih =>
    rw [wsFrameRun, andThen_failure_none] at hok
    rw [wsFrameRun, andThen_of_none hok.1, List.foldl_cons, ← wsFrameStep_buffered hok.1]
    exact ih hok.2

variable (cfg) in
/-- The first byte of a frame has no effect of its own. -/
theorem wsParserFeed_take_one {ctx : WsParserCtx} (hs : ctx.state = .readOpcode)
    {next : List WsFrame} (hnext : ∀ f ∈ next, f.Readable) :
    (wsParserFeed cfg grantAll ctx ((wsEncodeAll next).take 1)).output = [] ∧
      (wsParserFeed cfg grantAll ctx ((wsEncodeAll next).take 1)).failure = none := by
  cases next with
  | nil => rw [wsEncodeAll_nil, List.take_nil, wsParserFeed_nil]; exact ⟨rfl, rfl⟩
  | cons f next =>
    have htake : (wsEncodeAll (f :: next)).take 1 = [wsFirstByte f.fin f.opcode.value] := rfl
    rw [htake, wsParserFeed_firstByte hs (hnext f (by simp)), wsParserFeed_nil]
    exact ⟨rfl, rfl⟩

theorem wsObserved_run (cfg : WsConfig) (garbage : Memory UInt8) {fs : List WsFrame}
    (next : List WsFrame)
    (hfs : ∀ f ∈ fs, f.Readable) (hnext : ∀ f ∈ next, f.Readable)
    (htail : WsTail fs ((wsEncodeAll next).take 1)) :
    (wsObserved cfg garbage fs next).output = (wsFrameRun cfg .fresh fs).output ∧
      (wsObserved cfg garbage fs next).failure = (wsFrameRun cfg .fresh fs).failure := by
  obtain ⟨o, ho, hfeed⟩ := wsParserFeed_encodeAll cfg (holds_wsParserFresh garbage) hfs _
    htail
  rw [wsObserved, hfeed, ← ho.output, ← ho.failure]
  cases hfail : o.failure with
  | some e => rw [andThen_of_failure (by simp [hfail]), hfail]; exact ⟨rfl, rfl⟩
  | none =>
    obtain ⟨hout, hok⟩ := wsParserFeed_take_one cfg (ho.state hfail).state hnext
    rw [andThen_of_none hfail, hout, hok]
    exact ⟨List.append_nil _, rfl⟩

theorem wsTail_take_one {fs next : List WsFrame} (h : next ≠ []) :
    WsTail fs ((wsEncodeAll next).take 1) := by
  cases next with
  | nil => exact absurd rfl h
  | cons f next => exact Or.inl (List.cons_ne_nil _ _)

variable {garbage : Memory UInt8} {pre post : List WsFrame}

/-- A frame that is run adds its step to the call. -/
theorem wsObserved_step (hpre : ∀ g ∈ pre, g.Readable) (hf : f.Readable)
    (hpost : ∀ g ∈ post, g.Readable)
    (hok : (wsObserved cfg garbage pre (f :: post)).failure = none) (hrun : WsRun f post) :
    ∃ a : WsAssembly, a.buffered = wsBuffered pre ∧
      (wsObserved cfg garbage (pre ++ [f]) post).output =
        (wsObserved cfg garbage pre (f :: post)).output ++ (wsFrameStep cfg a f).output ∧
      (wsObserved cfg garbage (pre ++ [f]) post).failure = (wsFrameStep cfg a f).failure := by
  have htail : WsTail (pre ++ [f]) ((wsEncodeAll post).take 1) := by
    rcases hrun with h | h
    · exact Or.inr fun g hg => by simp at hg; exact hg ▸ h
    · exact wsTail_take_one h
  have hall : ∀ g ∈ pre ++ [f], g.Readable := by
    simpa [or_imp, forall_and, hf] using hpre
  have hbefore := wsObserved_run cfg garbage (f :: post) hpre (by simpa [hf] using hpost)
    (wsTail_take_one (by simp))
  have hafter := wsObserved_run cfg garbage post hall hpost htail
  rw [hbefore.2] at hok
  rw [wsFrameRun_append, andThen_of_none hok] at hafter
  simp only [wsFrameRun, andThen_done] at hafter
  exact ⟨_, wsFrameRun_buffered hok, by rw [hafter.1, hbefore.1], hafter.2⟩

/-- A frame that is not run adds nothing. -/
theorem wsObserved_pending (hpre : ∀ g ∈ pre, g.Readable) (hf : f.Readable)
    (hpost : ∀ g ∈ post, g.Readable)
    (hok : (wsObserved cfg garbage pre (f :: post)).failure = none) (hrun : ¬ WsRun f post) :
    (wsObserved cfg garbage (pre ++ [f]) post).output =
        (wsObserved cfg garbage pre (f :: post)).output ∧
      (wsObserved cfg garbage (pre ++ [f]) post).failure = none := by
  have hempty : f.payload = [] ∧ post = [] := by simpa [WsRun] using hrun
  obtain ⟨hpayload, rfl⟩ := hempty
  have hbefore := wsObserved_run cfg garbage [f] hpre (by simpa using hf)
    (wsTail_take_one (by simp))
  have hafter := wsParserFeed_encodeAll_pending cfg (holds_wsParserFresh garbage) hpre hf hpayload
  rw [← hbefore.1, ← hbefore.2] at hafter
  rw [wsObserved, wsEncodeAll_nil, List.take_nil, List.append_nil, hafter.1, hafter.2]
  exact ⟨rfl, hok⟩

/-! ### What one frame does -/

theorem wsFrameFragment_framing {a : WsAssembly} :
    (wsFrameFragment cfg a f).failure = some .wsFraming ↔
      f.opcode ≠ .continuation ∧ a.buffered ≠ [] := by
  rw [wsFrameFragment]
  split
  · rename_i h
    exact iff_of_true rfl h
  · rename_i h
    refine iff_of_false ?_ h
    split <;> simp [fail, done]

/-- Only a fragment that opens a message while bytes are buffered is a framing error. -/
theorem wsFrameStep_framing {a : WsAssembly} :
    (wsFrameStep cfg a f).failure = some .wsFraming ↔
      f.isControl = false ∧ f.fin = false ∧ f.opcode ≠ .continuation ∧ a.buffered ≠ [] ∧
        ¬ f.TooLong cfg := by
  by_cases hlong : f.TooLong cfg
  · rw [wsFrameStep_of_tooLong hlong]
    simp [fail, hlong]
  · cases hcontrol : f.isControl with
    | true => simp [(wsFrameStep_of_control (a := a) hlong hcontrol).2]
    | false =>
      rw [wsFrameStep_of_data hlong hcontrol]
      cases hfin : f.fin with
      | true => simp [wsFrameFinal]
      | false => simp [wsFrameFragment_framing, hlong]

/-! ### Where the order is kept -/

/-- At a frame that is not run nothing is rejected and nothing is delivered. -/
theorem wsOrderKeptAt_iff_pending (hpre : ∀ g ∈ pre, g.Readable) (hf : f.Readable)
    (hpost : ∀ g ∈ post, g.Readable)
    (hok : (wsObserved cfg garbage pre (f :: post)).failure = none) (hrun : ¬ WsRun f post) :
    WsOrderKeptAt cfg garbage pre f post ↔ WsOrderSeen cfg pre f post := by
  obtain ⟨hout, hfail⟩ := wsObserved_pending hpre hf hpost hok hrun
  rw [WsOrderSeen]
  constructor
  · intro h
    split
    · rename_i hop
      refine ⟨fun hnone => ?_, fun _ => Or.inr hrun⟩
      have hrejected := h.orphan hop hnone
      rw [hfail] at hrejected
      cases hrejected
    · split
      · rename_i hop
        refine Or.inl (by_contra fun hsome => ?_)
        have hrejected := h.interloper hop hsome
        rw [hfail] at hrejected
        cases hrejected
      · trivial
  · intro h
    refine ⟨fun hop hsome => ?_, fun hop hnone => ?_, fun hop hfin op hsome new ev heq hev => ?_⟩
    · rw [if_neg (by rintro hc; simp [hc] at hop), if_pos hop] at h
      rcases h with hnone | ⟨-, -, -, hr⟩
      · exact absurd hnone hsome
      · exact absurd hr hrun
    · rw [if_pos hop] at h
      exact absurd hnone h.1
    · rw [hout, eq_comm, List.append_right_eq_self] at heq
      rw [heq] at hev
      cases hev

/-- At a frame that is run the parser's one framing check and its one event decide. -/
theorem wsOrderKeptAt_iff_run (hpre : ∀ g ∈ pre, g.Readable) (hf : f.Readable)
    (hpost : ∀ g ∈ post, g.Readable)
    (hok : (wsObserved cfg garbage pre (f :: post)).failure = none) (hrun : WsRun f post) :
    WsOrderKeptAt cfg garbage pre f post ↔ WsOrderSeen cfg pre f post := by
  obtain ⟨a, hbuf, hout, hfail⟩ := wsObserved_step hpre hf hpost hok hrun
  have hrejected : (wsObserved cfg garbage (pre ++ [f]) post).failure = some .wsFraming ↔
      f.isControl = false ∧ f.fin = false ∧ f.opcode ≠ .continuation ∧ wsBuffered pre ≠ [] ∧
        ¬ f.TooLong cfg := by rw [hfail, wsFrameStep_framing, hbuf]
  rw [WsOrderSeen]
  constructor
  · intro h
    split
    · rename_i hop
      have hsome : wsPending pre ≠ none := fun hnone =>
        absurd hop (hrejected.mp (h.orphan hop hnone)).2.2.1
      refine ⟨hsome, fun hfin => Or.inl (by_contra fun hshort => ?_)⟩
      obtain ⟨op, hop'⟩ := Option.ne_none_iff_exists'.mp hsome
      have hevent := h.event hop hfin op hop' _ _ hout
        (by rw [wsFrameStep_event hop hfin hshort]; exact List.mem_singleton_self _)
      rcases wsPending_opened hop' with rfl | rfl <;> cases hevent
    · split
      · rename_i hop
        by_cases hnone : wsPending pre = none
        · exact Or.inl hnone
        · obtain ⟨-, hfin, -, hb, hshort⟩ := hrejected.mp (h.interloper hop hnone)
          exact Or.inr ⟨hfin, hb, hshort, hrun⟩
      · trivial
  · intro h
    refine ⟨fun hop hsome => ?_, fun hop hnone => ?_, fun hop hfin op hsome new ev heq hev => ?_⟩
    · have hdata : f.isControl = false ∧ f.opcode ≠ .continuation := by
        simp only [List.mem_cons, List.not_mem_nil, or_false] at hop
        rcases hop with ho | ho <;> simp [WsFrame.isControl, ho]
      rw [if_neg hdata.2, if_pos hop] at h
      obtain ⟨hfin, hb, hshort, -⟩ := h.resolve_left hsome
      exact hrejected.mpr ⟨hdata.1, hfin, hdata.2, hb, hshort⟩
    · rw [if_pos hop] at h
      exact absurd hnone h.1
    · rw [if_pos hop] at h
      have hlong := (h.2 hfin).resolve_right (not_not.mpr hrun)
      rw [hout, wsFrameStep_of_tooLong hlong, List.append_cancel_left_eq] at heq
      rw [← heq] at hev
      simp [fail] at hev

/-- The fragment order is kept exactly when every frame that the parser gets to is one where bytes
are buffered just as a message is unfinished, or where the difference is not seen. -/
theorem wsOrderKept_iff (cfg : WsConfig) (garbage : Memory UInt8) {fs : List WsFrame}
    (hfs : ∀ f ∈ fs, f.WellFormed) :
    WsOrderKept cfg garbage fs ↔
      ∀ pre f post, fs = pre ++ f :: post →
        (wsObserved cfg garbage pre (f :: post)).failure = none → WsOrderSeen cfg pre f post := by
  have hat (pre : List WsFrame) (f : WsFrame) (post : List WsFrame) (hsplit : fs = pre ++ f :: post)
      (hok : (wsObserved cfg garbage pre (f :: post)).failure = none) :
      WsOrderKeptAt cfg garbage pre f post ↔ WsOrderSeen cfg pre f post := by
    have hpre : ∀ g ∈ pre, g.Readable := fun g hg => (hfs g (by simp [hsplit, hg])).toReadable
    have hf : f.Readable := (hfs f (by simp [hsplit])).toReadable
    have hpost : ∀ g ∈ post, g.Readable := fun g hg => (hfs g (by simp [hsplit, hg])).toReadable
    by_cases hrun : WsRun f post
    · exact wsOrderKeptAt_iff_run hpre hf hpost hok hrun
    · exact wsOrderKeptAt_iff_pending hpre hf hpost hok hrun
  constructor
  · intro h pre f post hsplit hok
    exact (hat pre f post hsplit hok).mp (h pre f post hsplit hok)
  · intro h pre f post hsplit hok
    exact (hat pre f post hsplit hok).mpr (h pre f post hsplit hok)

/-- The order is kept in a message that has only begun. -/
theorem wsOrderKept_begun :
    WsOrderKept .default (fun _ => 0)
      [⟨false, .text, none, [0x48]⟩, ⟨false, .continuation, none, [0x69]⟩] := by
  refine (wsOrderKept_iff .default _ ?_).mpr fun pre f post hsplit _ => ?_
  · simp [WsFrame.wellFormed_iff, WsFrame.readable_iff]
  · rcases pre with _ | ⟨g, _ | ⟨g', pre⟩⟩
    · obtain ⟨rfl, rfl⟩ := List.cons.inj hsplit
      simp [WsOrderSeen, wsPending]
    · obtain ⟨rfl, hrest⟩ := List.cons.inj hsplit
      obtain ⟨rfl, rfl⟩ := List.cons.inj hrest
      simp [WsOrderSeen, wsPending, wsPendingStep]
    · simp at hsplit

/-- A complete text inside a fragmented text is delivered as if it were in order. -/
theorem wsInterloper_accepted :
    (∀ f ∈ [⟨false, .text, none, [0x48]⟩, ⟨true, .text, none, [0x69]⟩], WsFrame.WellFormed f) ∧
      ¬ WsOrderKept .default (fun _ => 0)
        [⟨false, .text, none, [0x48]⟩, ⟨true, .text, none, [0x69]⟩] := by
  refine ⟨by simp [WsFrame.wellFormed_iff, WsFrame.readable_iff], fun h => ?_⟩
  have hrejected := (h [⟨false, .text, none, [0x48]⟩] ⟨true, .text, none, [0x69]⟩ [] rfl
    (by decide +kernel)).interloper (by simp) (by decide)
  revert hrejected
  decide +kernel

end AbstractHttp.WebSocket
