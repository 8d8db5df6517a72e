import AbstractHttp.WebSocket.FrameRun

/-!
# What is sent is what is received

Frames packed by the sending side and read by the receiving side of the library
itself. Every frame comes back as one callback, except that the last one has to
wait for a further byte when it is empty.
-/
namespace AbstractHttp.WebSocket
open Library Outcome

variable {cfg : WsConfig}

/-- An argument list of `c_abstract_http_ws_send` with the masking key that is generated for it:
no continuation, and no payload beyond the frame limit. -/
structure WsOutgoing (cfg : WsConfig) where
  opcode : WsOpcode
  payload : List UInt8
  maskKey : Memory UInt8
  opcode_ne : opcode ≠ .continuation
  length_le : payload.length ≤ cfg.maxFrameSize

namespace WsOutgoing

/-- The bytes that the send appends to the outbound stream. -/
def bytes (m : WsOutgoing cfg) : Except ErrorCode (List UInt8) :=
  WsPrepared.bytes <$> wsSendPrepare m.opcode m.payload m.maskKey

def frame (m : WsOutgoing cfg) : WsFrame := wsSentFrame m.opcode m.payload m.maskKey

/-- The callback that the frame is meant to cause at the receiver. -/
def callback (m : WsOutgoing cfg) : WsCallback :=
  if m.opcode = .close then .onClose (wsCloseCode m.payload)
  else .onMessage ⟨m.opcode.value, m.payload, true⟩

theorem frame_readable (m : WsOutgoing cfg) : m.frame.Readable where
  control_fin _ := rfl
  length := by
    have hle := m.length_le
    have hmax := cfg.maxFrameSize_lt
    simp only [frame, wsSentFrame]
    omega

end WsOutgoing

/-- The outbound stream of several sends. -/
def wsSendAll : List (WsOutgoing cfg) → Except ErrorCode (List UInt8)
  | [] => .ok []
  | m :: ms => do
    let head ← m.bytes
    let tail ← wsSendAll ms
    return head ++ tail

theorem wsSendAll_eq (ms : List (WsOutgoing cfg)) :
    wsSendAll ms = .ok (wsEncodeAll (ms.map WsOutgoing.frame)) := by
  induction ms with
  | nil => rfl
  | cons m ms ih =>
    obtain ⟨p, hp, hbytes⟩ := wsSendPrepare_eq m.opcode m.payload m.maskKey
    have hm : m.bytes = .ok m.frame.encode := by
      rw [WsOutgoing.bytes, hp, WsOutgoing.frame, ← hbytes]
      rfl
    rw [wsSendAll, hm, ih]
    rfl

/-- Between messages an unfragmented frame causes its callback and changes nothing. -/
theorem wsFrameStep_outgoing (cap : ℕ) (m : WsOutgoing cfg) :
    wsFrameStep cfg ⟨[], cap⟩ m.frame = ⟨⟨[], cap⟩, [m.callback], none⟩ := by
  have hshort : ¬ m.frame.TooLong cfg := fun hlong => absurd hlong.2 (not_lt.mpr m.length_le)
  rw [wsFrameStep, if_neg hshort, WsOutgoing.callback]
  by_cases hclose : m.opcode = .close
  · rw [if_pos hclose, if_pos (show m.frame.opcode = .close from hclose)]
    rfl
  · rw [if_neg hclose, if_neg (show ¬ m.frame.opcode = .close from hclose)]
    split
    · rfl
    · rw [if_neg (by simp [WsOutgoing.frame, wsSentFrame])]
      rfl

theorem wsFrameRun_outgoing (cap : ℕ) (ms : List (WsOutgoing cfg)) :
    wsFrameRun cfg ⟨[], cap⟩ (ms.map WsOutgoing.frame) =
      ⟨⟨[], cap⟩, ms.map WsOutgoing.callback, none⟩ := by
  induction ms with
  | nil => rfl
  | cons m ms ih =>
    rw [List.map_cons, wsFrameRun, wsFrameStep_outgoing, andThen_of_none rfl, ih]
    rfl

/-- One call on the whole stream succeeds and makes the callbacks meant, in order. -/
def WsDelivers (cfg : WsConfig) (garbage : Memory UInt8) (ms : List (WsOutgoing cfg)) : Prop :=
  ∃ bytes, wsSendAll ms = .ok bytes ∧
    (wsParserFeed cfg grantAll (wsParserFresh garbage) bytes).failure = none ∧
    (wsParserFeed cfg grantAll (wsParserFresh garbage) bytes).output =
      ms.map WsOutgoing.callback

/-- All frames are delivered within the call exactly when the last one is not empty. -/
theorem wsDelivers_iff (cfg : WsConfig) (garbage : Memory UInt8) (ms : List (WsOutgoing cfg)) :
    WsDelivers cfg garbage ms ↔ ∀ m, ms.getLast? = some m → m.payload ≠ [] := by
  have hreadable (l : List (WsOutgoing cfg)) : ∀ f ∈ l.map WsOutgoing.frame, f.Readable := by
    intro f hf
    obtain ⟨m, -, rfl⟩ := List.mem_map.mp hf
    exact m.frame_readable
  have hfresh := holds_wsParserFresh garbage
  constructor
  · rintro ⟨bytes, hbytes, -, hout⟩ m hlast hempty
    obtain ⟨pre, rfl⟩ := List.getLast?_eq_some_iff.mp hlast
    obtain rfl := Except.ok.inj ((wsSendAll_eq _).symm.trans hbytes)
    have hpending := (wsParserFeed_encodeAll_pending cfg hfresh (hreadable pre)
      m.frame_readable hempty).1
    rw [List.map_append, List.map_singleton, hpending, WsAssembly.fresh, wsFrameRun_outgoing,
      List.map_append] at hout
    simpa using congrArg List.length hout
  · intro hlast
    have hrun := wsParserFeed_encodeAll_complete cfg hfresh (hreadable ms) (by
      intro f hf
      rw [List.getLast?_map, Option.map_eq_some_iff] at hf
      obtain ⟨m, hm, rfl⟩ := hf
      exact hlast m hm)
    rw [WsAssembly.fresh, wsFrameRun_outgoing] at hrun
    exact ⟨_, wsSendAll_eq ms, hrun.failure, hrun.output⟩

/-- A PING without payload. -/
def wsEmptyPing : WsOutgoing .default := ⟨.ping, [], fun _ => 0x5A, by simp, by simp⟩

/-- It is sent and read without error, but the call returns before the callback. -/
theorem wsEmptyPing_undelivered : ¬ WsDelivers .default (fun _ => 0) [wsEmptyPing] := by
  rintro ⟨bytes, hbytes, -, hout⟩
  obtain rfl := Except.ok.inj ((rfl : wsSendAll [wsEmptyPing] =
    .ok [0x89, 0x80, 0x5A, 0x5A, 0x5A, 0x5A]).symm.trans hbytes)
  revert hout
  decide +kernel

end AbstractHttp.WebSocket
