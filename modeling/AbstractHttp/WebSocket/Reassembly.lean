import AbstractHttp.WebSocket.FrameRun

/-!
# Fragmented messages

What the parser makes of a message sent in fragments, with control frames in
between, and how far its check of the fragment order goes. The parser has no
record of an open message: it takes one to be open when some of its bytes are
buffered.
-/
namespace AbstractHttp.WebSocket
open Library Outcome

variable {cfg : WsConfig} {a : WsAssembly} {f : WsFrame}

/-! ### Capacities that have grown by doubling -/

/-- No block yet, or one that has doubled from 4096 at most `n` times. -/
def Grown (n cap : ℕ) : Prop := cap = 0 ∨ ∃ k ≤ n, cap = 4096 * 2 ^ k

/-- Up to a capacity within the limit that doubling meets, no fragment is refused. -/
theorem wsFragmentCapacity_grown {n cap need : ℕ} (hmax : 4096 * 2 ^ n ≤ cfg.maxFrameSize)
    (hcap : Grown n cap) (hneed : need ≤ 4096 * 2 ^ n) :
    ∃ c, wsFragmentCapacity cfg cap need = some c ∧ Grown n c := by
  by_cases hfits : need ≤ cap
  · exact ⟨cap, if_pos hfits, hcap⟩
  · obtain ⟨j, hj, hstart⟩ : ∃ j ≤ n, (if cap = 0 then 4096 else cap * 2) = 4096 * 2 ^ j := by
      rcases hcap with rfl | ⟨k, -, rfl⟩
      · exact ⟨0, n.zero_le, rfl⟩
      · have hlt : 2 ^ k < 2 ^ n := by omega
        have hk : k < n := (Nat.pow_lt_pow_iff_right (by omega)).mp hlt
        have hpos : 4096 * 2 ^ k ≠ 0 := by positivity
        exact ⟨k + 1, hk, by rw [if_neg hpos, pow_succ]; ring⟩
    have hsplit : 4096 * 2 ^ j * 2 ^ (n - j) = 4096 * 2 ^ n := by
      rw [mul_assoc, ← pow_add, Nat.add_sub_cancel' hj]
    have hle : doubleUntil (4096 * 2 ^ j) need ≤ 4096 * 2 ^ n := by
      rw [← hsplit]
      exact doubleUntil_le (by omega)
    obtain ⟨i, hi, -, -⟩ := doubleUntil_spec need (by positivity : 0 < 4096 * 2 ^ j)
    have hgrown : doubleUntil (4096 * 2 ^ j) need = 4096 * 2 ^ (j + i) := by
      rw [hi, mul_assoc, ← pow_add]
    have hpow : 2 ^ (j + i) ≤ 2 ^ n := by omega
    refine ⟨doubleUntil (4096 * 2 ^ j) need, ?_, Or.inr ⟨j + i, ?_, hgrown⟩⟩
    · rw [wsFragmentCapacity, if_neg hfits, wsDoubledCapacity, hstart, if_neg (by omega)]
    · exact (Nat.pow_le_pow_iff_right (by omega)).mp hpow

/-! ### A message and the control frames inside it -/

/-- The payloads of the data frames, joined. -/
def wsContent (fs : List WsFrame) : List UInt8 :=
  (fs.filter (!·.isControl)).flatMap WsFrame.payload

/-- One event for each control frame. -/
def wsControlEvents (fs : List WsFrame) : List WsCallback :=
  (fs.filter (·.isControl)).map fun f => .onMessage ⟨f.opcode.value, f.payload, true⟩

/-- A frame that may stand between the first and the last fragment. -/
def WsFrame.Inner (f : WsFrame) : Prop :=
  (f.fin = false ∧ f.opcode = .continuation) ∨
    (f.fin = true ∧ f.opcode ∈ [.ping, .pong] ∧ f.payload.length ≤ 125)

/-- A message of at least two fragments within the limit. -/
structure WsFragmented (cfg : WsConfig) where
  first : WsFrame
  inner : List WsFrame
  last : WsFrame
  first_opens : first.fin = false ∧ first.opcode ∈ [.text, .binary]
  inner_continues : ∀ f ∈ inner, f.Inner
  last_ends : last.fin = true ∧ last.opcode = .continuation
  length_le : (wsContent (first :: inner ++ [last])).length ≤ cfg.maxFrameSize

namespace WsFragmented

def frames (m : WsFragmented cfg) : List WsFrame := m.first :: m.inner ++ [m.last]

/-- The control frames as they come, and then the message as a whole. -/
def events (m : WsFragmented cfg) : List WsCallback :=
  wsControlEvents m.inner ++
    [.onMessage ⟨WsOpcode.continuation.value, wsContent m.frames, true⟩]

end WsFragmented

theorem wsFrameStep_control (hop : f.opcode ∈ [.ping, .pong]) (hlen : f.payload.length ≤ 125) :
    wsFrameStep cfg a f = ⟨a, [.onMessage ⟨f.opcode.value, f.payload, f.fin⟩], none⟩ := by
  have hshort : ¬ f.TooLong cfg := fun hlong => by have := hlong.1; omega
  simp only [List.mem_cons, List.not_mem_nil, or_false] at hop
  rw [wsFrameStep, if_neg hshort, if_neg (by rcases hop with h | h <;> simp [h]), if_pos hop]

/-- The capacity decides what becomes of a fragment that is in order. -/
theorem wsFrameStep_of_order (hshort : ¬ f.TooLong cfg) (hfin : f.fin = false)
    (hdata : f.isControl = false) (horder : f.opcode = .continuation ∨ a.buffered = []) :
    wsFrameStep cfg a f =
      match wsFragmentCapacity cfg a.capacity (a.buffered.length + f.payload.length) with
      | none => fail a [.onError ErrorCode.msgSize.value] .msgSize
      | some cap => done ⟨a.buffered ++ f.payload, cap⟩ := by
  rw [wsFrameStep_of_data hshort hdata, if_pos hfin, wsFrameFragment]
  exact if_neg (by rcases horder with h | h <;> simp [h])

/-- A fragment that is in order and within the limit is buffered. -/
theorem wsFrameStep_fragment {n : ℕ} (hmax : 4096 * 2 ^ n ≤ cfg.maxFrameSize)
    (hcap : Grown n a.capacity) (hfin : f.fin = false) (hdata : f.isControl = false)
    (horder : f.opcode = .continuation ∨ a.buffered = [])
    (hlen : a.buffered.length + f.payload.length ≤ 4096 * 2 ^ n) :
    ∃ c, Grown n c ∧ wsFrameStep cfg a f = done ⟨a.buffered ++ f.payload, c⟩ := by
  obtain ⟨c, hc, hgrown⟩ := wsFragmentCapacity_grown hmax hcap hlen
  have hshort : ¬ f.TooLong cfg := fun hlong => by have := hlong.2; omega
  exact ⟨c, hgrown, by rw [wsFrameStep_of_order hshort hfin hdata horder, hc]⟩

/-- Between the first fragment and the last the bytes pile up and the control frames pass. -/
theorem wsFrameRun_inner {n : ℕ} (hmax : 4096 * 2 ^ n ≤ cfg.maxFrameSize) {fs : List WsFrame}
    (hcap : Grown n a.capacity) (hfs : ∀ f ∈ fs, f.Inner)
    (hlen : a.buffered.length + (wsContent fs).length ≤ 4096 * 2 ^ n) :
    ∃ c, Grown n c ∧ wsFrameRun cfg a fs =
      ⟨⟨a.buffered ++ wsContent fs, c⟩, wsControlEvents fs, none⟩ := by
  induction fs generalizing a with
  | nil => exact ⟨a.capacity, hcap, by simp [wsFrameRun, done, wsContent, wsControlEvents]⟩
  | cons f fs ih =>
    have hrest : ∀ g ∈ fs, g.Inner := fun g hg => hfs g (by simp [hg])
    rcases hfs f (by simp) with ⟨hfin, hop⟩ | ⟨hfin, hop, hshort⟩
    · have hdata : f.isControl = false := by simp [WsFrame.isControl, hop]
      have hcontent : wsContent (f :: fs) = f.payload ++ wsContent fs := by
        simp [wsContent, hdata]
      have hevents : wsControlEvents (f :: fs) = wsControlEvents fs := by
        simp [wsControlEvents, hdata]
      rw [hcontent, List.length_append] at hlen
      obtain ⟨c, hc, hstep⟩ := wsFrameStep_fragment hmax hcap hfin hdata (Or.inl hop)
        (by omega)
      obtain ⟨c', hc', hrun⟩ := ih (a := ⟨a.buffered ++ f.payload, c⟩) hc hrest
        (by rw [List.length_append]; omega)
      refine ⟨c', hc', ?_⟩
      rw [wsFrameRun, hstep, done_andThen, hrun, hcontent, hevents, List.append_assoc]
    · have hcontrol : f.isControl = true := by
        simp only [List.mem_cons, List.not_mem_nil, or_false] at hop
        rcases hop with h | h <;> simp [WsFrame.isControl, h]
      have hcontent : wsContent (f :: fs) = wsContent fs := by simp [wsContent, hcontrol]
      rw [hcontent] at hlen
      obtain ⟨c, hc, hrun⟩ := ih hcap hrest hlen
      refine ⟨c, hc, ?_⟩
      rw [wsFrameRun, wsFrameStep_control hop hshort, andThen_of_none rfl, hrun, hcontent]
      simp [wsControlEvents, hcontrol, hfin]

namespace WsFragmented

theorem content_eq (m : WsFragmented cfg) :
    wsContent m.frames = m.first.payload ++ (wsContent m.inner ++ m.last.payload) := by
  have hfirst : m.first.isControl = false := by
    have hop := m.first_opens.2
    simp only [List.mem_cons, List.not_mem_nil, or_false] at hop
    rcases hop with h | h <;> simp [WsFrame.isControl, h]
  have hlast : m.last.isControl = false := by simp [WsFrame.isControl, m.last_ends.2]
  simp [wsContent, frames, hfirst, hlast]

theorem readable (m : WsFragmented cfg) : ∀ f ∈ m.frames, f.Readable := by
  intro f hf
  have hlen := m.length_le
  have hmax := cfg.maxFrameSize_lt
  change (wsContent m.frames).length ≤ _ at hlen
  rw [m.content_eq, List.length_append, List.length_append] at hlen
  simp only [frames, List.cons_append, List.mem_cons, List.mem_append, List.not_mem_nil,
    or_false] at hf
  rcases hf with rfl | hf | rfl
  · have hop := m.first_opens.2
    simp only [List.mem_cons, List.not_mem_nil, or_false] at hop
    exact ⟨fun h => by rcases hop with ho | ho <;> simp [ho] at h, by omega⟩
  · rcases m.inner_continues f hf with ⟨-, hop⟩ | ⟨hfin, -, hshort⟩
    · have hmem : f.payload.length ≤ (wsContent m.inner).length := by
        apply List.Sublist.length_le
        exact List.sublist_flatten_of_mem (List.mem_map_of_mem
          (List.mem_filter.mpr ⟨hf, by simp [WsFrame.isControl, hop]⟩))
      exact ⟨fun h => by simp [hop] at h, by omega⟩
    · exact ⟨fun _ => hfin, by omega⟩
  · exact ⟨fun _ => m.last_ends.1, by omega⟩

/-- The frame machine delivers the message and is left as empty as it was. -/
theorem run {n : ℕ} (hmax : cfg.maxFrameSize = 4096 * 2 ^ n) (m : WsFragmented cfg) :
    ∃ c, wsFrameRun cfg .fresh m.frames = ⟨⟨[], c⟩, m.events, none⟩ := by
  have hlen := m.length_le
  change (wsContent m.frames).length ≤ _ at hlen
  rw [m.content_eq, List.length_append, List.length_append] at hlen
  have hdata : m.first.isControl = false := by
    have hop := m.first_opens.2
    simp only [List.mem_cons, List.not_mem_nil, or_false] at hop
    rcases hop with h | h <;> simp [WsFrame.isControl, h]
  obtain ⟨c, hc, hfirst⟩ := wsFrameStep_fragment (a := .fresh) hmax.ge (Or.inl rfl)
    m.first_opens.1 hdata (Or.inr rfl)
    (by simp only [WsAssembly.fresh, List.length_nil]; omega)
  obtain ⟨c', -, hinner⟩ := wsFrameRun_inner (a := ⟨m.first.payload, c⟩) hmax.ge hc
    m.inner_continues (by dsimp only; omega)
  have hshort : ¬ m.last.TooLong cfg := fun hlong => by have := hlong.2; omega
  have hlast : wsFrameStep cfg ⟨m.first.payload ++ wsContent m.inner, c'⟩ m.last =
      wsFrameFinal ⟨m.first.payload ++ wsContent m.inner, c'⟩ m.last := by
    rw [wsFrameStep, if_neg hshort, if_neg (by simp [m.last_ends.2]),
      if_neg (by simp [m.last_ends.2]), if_neg (by simp [m.last_ends.1])]
  have hempty (b : WsAssembly) : ∃ c, b.emptied m.last = ⟨[], c⟩ := by
    unfold WsAssembly.emptied
    split
    · rename_i hb
      exact ⟨b.capacity, by rw [← hb]⟩
    · exact ⟨_, rfl⟩
  obtain ⟨c'', hc''⟩ := hempty ⟨m.first.payload ++ wsContent m.inner, c'⟩
  refine ⟨c'', ?_⟩
  rw [frames, List.cons_append, wsFrameRun, hfirst, done_andThen, wsFrameRun_append]
  simp only [WsAssembly.fresh, List.nil_append]
  rw [hinner, andThen_of_none rfl]
  simp only [wsFrameRun, hlast, wsFrameFinal, hc'', andThen_done, events, m.content_eq,
    m.last_ends.2, List.append_assoc]

end WsFragmented

/-- A byte that the parser takes as the first one of a frame. -/
def WsStartsFrame (b : UInt8) : Prop :=
  b &&& 0x70 = 0 ∧ (b >>> 7 &&& 1 = 1 ∨ b &&& 0x0F < 0x08)

theorem wsReadOpcode_starts (ctx : WsParserCtx) {b : UInt8} (hb : WsStartsFrame b) :
    ∃ ctx', wsReadOpcode ctx b = done ctx' ∧ ctx'.state = .readLen ∧
      ctx'.reassemblyOffset = ctx.reassemblyOffset := by
  have hcontrol : ¬ ((b >>> 7 &&& 1 == 1) = false ∧ b &&& 0x0F ≥ 0x08) := by
    rintro ⟨hfin, hop⟩
    rcases hb.2 with h | h
    · rw [h] at hfin
      cases hfin
    · exact absurd h (UInt8.not_lt.mpr hop)
  simp only [wsReadOpcode]
  rw [if_neg (not_not.mpr hb.1), if_neg hcontrol]
  exact ⟨_, rfl, rfl, rfl⟩

/-- A fragmented message is delivered whole, behind the control frames sent within it, as soon as
a further byte has come; the parser then stands behind that byte with nothing buffered. -/
theorem wsFragmented_delivered (garbage : Memory UInt8) (m : WsFragmented .default) (b : UInt8)
    (hb : WsStartsFrame b) (rest : List UInt8) :
    ∃ ctx : WsParserCtx, ctx.state = .readLen ∧ ctx.reassemblyOffset = 0 ∧
      wsParserFeed .default grantAll (wsParserFresh garbage) (wsEncodeAll m.frames ++ b :: rest) =
        ⟨(wsParserFeed .default grantAll ctx rest).state,
          m.events ++ (wsParserFeed .default grantAll ctx rest).output,
          (wsParserFeed .default grantAll ctx rest).failure⟩ := by
  obtain ⟨o, ho, hfeed⟩ := wsParserFeed_encodeAll .default (holds_wsParserFresh garbage)
    m.readable (b :: rest) (Or.inl (by simp))
  obtain ⟨c, hrun⟩ := m.run (n := 8) rfl
  rw [hrun] at ho
  have hbound := ho.state ho.failure
  obtain ⟨ctx, hnext, hstate, hoffset⟩ := wsReadOpcode_starts o.state hb
  refine ⟨ctx, hstate, hoffset.trans hbound.offset, ?_⟩
  rw [hfeed, andThen_of_none ho.failure, ho.output,
    wsParserFeed_done (by simp [hbound.state]) (by rw [wsParserIterate, hbound.state]; exact hnext)]

/-- A text in two fragments with a PING between them. -/
def wsGreeting : WsFragmented .default where
  first := ⟨false, .text, none, [0x48, 0x69]⟩
  inner := [⟨true, .ping, none, [0x01]⟩]
  last := ⟨true, .continuation, none, [0x21]⟩
  first_opens := by simp
  inner_continues := by simp [WsFrame.Inner]
  last_ends := by simp
  length_le := by decide

theorem wsGreeting_delivered :
    (wsParserFeed .default grantAll (wsParserFresh fun _ => 0)
      (wsEncodeAll wsGreeting.frames ++ [0x81])).output =
      [.onMessage ⟨0x9, [0x01], true⟩, .onMessage ⟨0x0, [0x48, 0x69, 0x21], true⟩] := by
  obtain ⟨ctx, -, -, hfeed⟩ := wsFragmented_delivered (fun _ => 0) wsGreeting 0x81
    ⟨by decide, Or.inl (by decide)⟩ []
  rw [hfeed, wsParserFeed_nil]
  rfl

end AbstractHttp.WebSocket
