import AbstractHttp.Library.Schedule
import AbstractHttp.WebSocket.Parser

/-!
# The outbound queue and its senders, closers and readers

Each critical section of `http_ws.c` is one action. A sender prepares its frame
before it takes the lock, so a send is one action, and so is a read, which is
not enabled while it would wait. A close is two: it sends a CLOSE frame and then,
in a section of its own, requests the close. The mutex and the condition variable
themselves are taken to work, and a queue and a frame that both exist are taken
to be smaller together than the address space.
-/
namespace AbstractHttp.WebSocket
open Library

/-- `struct ws_stream_ctx` without the mutex and the condition variable. -/
structure WsStreamCtx where
  queue : Memory UInt8
  queueLen : ℕ
  queueCap : ℕ
  closeRequested : Bool

/-- The stream that `c_abstract_http_ws_init` attaches to a request. -/
def wsStreamFresh (garbage : Memory UInt8) : WsStreamCtx := ⟨garbage, 0, 4096, false⟩

/-- The bytes in the queue. -/
def WsStreamCtx.pending (ctx : WsStreamCtx) : List UInt8 := ctx.queue.read 0 ctx.queueLen

/-- Which of the two allocations of a send are granted: the copy of the payload to be masked,
and a larger queue. -/
structure WsSendGrants where
  copy : Bool
  queue : Bool
  deriving DecidableEq, Repr

/-- One `memcpy` to the end of the queue. -/
def wsCopyIn (ctx : WsStreamCtx) (bytes : List UInt8) : WsStreamCtx :=
  { ctx with
    queue := ctx.queue.write ctx.queueLen bytes, queueLen := ctx.queueLen + bytes.length }

/-- The three copies of a frame. -/
def wsCopyFrame (ctx : WsStreamCtx) (p : WsPrepared) : WsStreamCtx :=
  wsCopyIn (wsCopyIn (wsCopyIn ctx p.header) p.maskKey) p.maskedPayload

/-- What the queue must hold with the frame in it. -/
def wsQueueNeed (ctx : WsStreamCtx) (p : WsPrepared) : ℕ :=
  ctx.queueLen + p.header.length + 4 + p.maskedPayload.length

/-- The critical section of `c_abstract_http_ws_send`. A failure leaves the stream as it was. -/
def wsEnqueue (granted : Bool) (ctx : WsStreamCtx) (p : WsPrepared) :
    Except ErrorCode WsStreamCtx :=
  if ctx.closeRequested then .error .inval
  else if wsQueueNeed ctx p > ctx.queueCap then
    if granted then
      .ok (wsCopyFrame
        { ctx with queueCap := wsDoubledCapacity ctx.queueCap (wsQueueNeed ctx p) } p)
    else .error .nomem
  else .ok (wsCopyFrame ctx p)

/-- `c_abstract_http_ws_send` with the masking key that was generated for it. -/
def wsSend (grants : WsSendGrants) (ctx : WsStreamCtx) (opcode : WsOpcode)
    (payload : List UInt8) (maskKey : Memory UInt8) : Except ErrorCode WsStreamCtx :=
  if payload.length > 0 ∧ grants.copy = false then .error .nomem
  else do
    let p ← wsSendPrepare opcode payload maskKey
    wsEnqueue grants.queue ctx p

/-- The payload of a CLOSE frame: the status as a `uint16_t` in network order. -/
def wsClosePayload (statusCode : ℤ) : List UInt8 := mathWsHtons (statusCode % 65536).toNat

/-- The first section of `c_abstract_http_ws_close`. -/
def wsCloseSend (grants : WsSendGrants) (ctx : WsStreamCtx) (statusCode : ℤ)
    (maskKey : Memory UInt8) : Except ErrorCode WsStreamCtx :=
  wsSend grants ctx .close (wsClosePayload statusCode) maskKey

/-- The second section of `c_abstract_http_ws_close`. -/
def wsCloseRequest (ctx : WsStreamCtx) : WsStreamCtx := { ctx with closeRequested := true }

/-- The section of `ws_read_chunk_cb`, unless it waits: the bytes returned and the stream left. -/
def wsReadChunk (ctx : WsStreamCtx) (bufLen : ℕ) : Option (List UInt8 × WsStreamCtx) :=
  if ctx.queueLen = 0 ∧ ctx.closeRequested = false then none
  else if ctx.queueLen > 0 then
    let toCopy := if ctx.queueLen > bufLen then bufLen else ctx.queueLen
    some (ctx.queue.read 0 toCopy,
      { ctx with
        queue := ctx.queue.shiftDown toCopy (ctx.queueLen - toCopy)
        queueLen := ctx.queueLen - toCopy })
  else some ([], ctx)

theorem wsCopyIn_pending (ctx : WsStreamCtx) (bytes : List UInt8) :
    (wsCopyIn ctx bytes).pending = ctx.pending ++ bytes :=
  Memory.read_write_extend ctx.queue ctx.queueLen bytes

theorem wsCopyFrame_pending (ctx : WsStreamCtx) (p : WsPrepared) :
    (wsCopyFrame ctx p).pending = ctx.pending ++ p.bytes := by
  simp only [wsCopyFrame, wsCopyIn_pending, WsPrepared.bytes, List.append_assoc]

theorem wsCopyFrame_queueLen (ctx : WsStreamCtx) (p : WsPrepared) :
    (wsCopyFrame ctx p).queueLen = wsQueueNeed ctx p := by
  simp only [wsCopyFrame, wsCopyIn, wsQueueNeed, p.maskKey_length]

theorem wsQueueNeed_eq (ctx : WsStreamCtx) (p : WsPrepared) :
    wsQueueNeed ctx p = ctx.queueLen + p.bytes.length := by
  simp only [wsQueueNeed, WsPrepared.bytes, List.length_append, p.maskKey_length]
  omega

/-- All that an accepted frame changes: it is behind what was queued, and it fits. -/
structure WsQueued (ctx ctx' : WsStreamCtx) (bytes : List UInt8) : Prop where
  pending : ctx'.pending = ctx.pending ++ bytes
  fits : ctx'.queueLen ≤ ctx'.queueCap
  closeRequested : ctx'.closeRequested = ctx.closeRequested

theorem wsCopyFrame_queued (ctx : WsStreamCtx) (p : WsPrepared)
    (hroom : wsQueueNeed ctx p ≤ ctx.queueCap) : WsQueued ctx (wsCopyFrame ctx p) p.bytes where
  pending := wsCopyFrame_pending ctx p
  fits := by rwa [wsCopyFrame_queueLen]
  closeRequested := rfl

/-- When a send puts its frame into the queue. -/
structure WsAccepts (grants : WsSendGrants) (ctx : WsStreamCtx) (f : WsFrame) : Prop where
  opened : ctx.closeRequested = false
  copied : f.payload = [] ∨ grants.copy = true
  room : ctx.queueLen + f.encode.length ≤ ctx.queueCap ∨ grants.queue = true

/-- The section queues a whole frame where there is or can be room for it. -/
theorem wsEnqueue_ok {granted : Bool} {ctx : WsStreamCtx} {p : WsPrepared}
    (hopen : ctx.closeRequested = false)
    (hroom : ctx.queueLen + p.bytes.length ≤ ctx.queueCap ∨ granted = true) :
    ∃ ctx', wsEnqueue granted ctx p = .ok ctx' ∧ WsQueued ctx ctx' p.bytes := by
  rw [← wsQueueNeed_eq] at hroom
  rw [wsEnqueue, if_neg (by simp [hopen])]
  by_cases hfits : wsQueueNeed ctx p ≤ ctx.queueCap
  · rw [if_neg (not_lt.mpr hfits)]
    exact ⟨_, rfl, wsCopyFrame_queued ctx p hfits⟩
  · have hgrant : granted = true := hroom.resolve_left hfits
    rw [if_pos (not_le.mp hfits), if_pos hgrant]
    have hqueued := wsCopyFrame_queued
      { ctx with queueCap := wsDoubledCapacity ctx.queueCap (wsQueueNeed ctx p) } p
      (le_wsDoubledCapacity ctx.queueCap (wsQueueNeed ctx p))
    exact ⟨_, rfl, hqueued.pending, hqueued.fits, hqueued.closeRequested⟩

theorem wsEnqueue_error {granted : Bool} {ctx : WsStreamCtx} {p : WsPrepared}
    (h : ¬ (ctx.closeRequested = false ∧
      (ctx.queueLen + p.bytes.length ≤ ctx.queueCap ∨ granted = true))) :
    ∃ e, wsEnqueue granted ctx p = .error e := by
  rw [wsEnqueue, wsQueueNeed_eq]
  by_cases hopen : ctx.closeRequested = false
  · have hroom := not_or.mp fun hroom => h ⟨hopen, hroom⟩
    rw [if_neg (by simp [hopen]), if_pos (not_le.mp hroom.1), if_neg hroom.2]
    exact ⟨_, rfl⟩
  · rw [if_pos (by simpa using hopen)]
    exact ⟨_, rfl⟩

/-- A send that is accepted queues the encoding of its frame. -/
theorem wsSend_ok {grants : WsSendGrants} {ctx : WsStreamCtx} {opcode : WsOpcode}
    {payload : List UInt8} {maskKey : Memory UInt8}
    (h : WsAccepts grants ctx (wsSentFrame opcode payload maskKey)) :
    ∃ ctx', wsSend grants ctx opcode payload maskKey = .ok ctx' ∧
      WsQueued ctx ctx' (wsSentFrame opcode payload maskKey).encode := by
  obtain ⟨p, hprepare, hbytes⟩ := wsSendPrepare_eq opcode payload maskKey
  have hcopy : ¬ (payload.length > 0 ∧ grants.copy = false) := by
    rintro ⟨hlen, hcopy⟩
    rcases h.copied with hnil | hgrant
    · exact absurd hnil (List.length_pos_iff.mp hlen)
    · simp [hcopy] at hgrant
  rw [wsSend, if_neg hcopy, hprepare, ← hbytes]
  exact wsEnqueue_ok h.opened (hbytes ▸ h.room)

/-- A send that is not accepted fails. -/
theorem wsSend_error {grants : WsSendGrants} {ctx : WsStreamCtx} {opcode : WsOpcode}
    {payload : List UInt8} {maskKey : Memory UInt8}
    (h : ¬ WsAccepts grants ctx (wsSentFrame opcode payload maskKey)) :
    ∃ e, wsSend grants ctx opcode payload maskKey = .error e := by
  obtain ⟨p, hprepare, hbytes⟩ := wsSendPrepare_eq opcode payload maskKey
  rw [wsSend]
  split
  · exact ⟨_, rfl⟩
  · rename_i hcopy
    rw [hprepare]
    apply wsEnqueue_error
    rw [hbytes]
    rintro ⟨hopen, hroom⟩
    refine h ⟨hopen, ?_, hroom⟩
    by_cases hnil : payload = []
    · exact Or.inl hnil
    · have hlen : payload.length > 0 := List.length_pos_iff.mpr hnil
      exact Or.inr (by simpa [hlen] using hcopy)

/-- All that a send can do. -/
theorem wsSend_cases (grants : WsSendGrants) (ctx : WsStreamCtx) (opcode : WsOpcode)
    (payload : List UInt8) (maskKey : Memory UInt8) :
    (WsAccepts grants ctx (wsSentFrame opcode payload maskKey) ∧
      ∃ ctx', wsSend grants ctx opcode payload maskKey = .ok ctx' ∧
        WsQueued ctx ctx' (wsSentFrame opcode payload maskKey).encode) ∨
    (¬ WsAccepts grants ctx (wsSentFrame opcode payload maskKey) ∧
      ∃ e, wsSend grants ctx opcode payload maskKey = .error e) := by
  by_cases h : WsAccepts grants ctx (wsSentFrame opcode payload maskKey)
  · exact Or.inl ⟨h, wsSend_ok h⟩
  · exact Or.inr ⟨h, wsSend_error h⟩

/-- All that a read changes: the bytes it returns are no longer in the queue. -/
structure WsTaken (ctx ctx' : WsStreamCtx) (bufLen : ℕ) (bytes : List UInt8) : Prop where
  pending : bytes ++ ctx'.pending = ctx.pending
  length : bytes.length = min ctx.queueLen bufLen
  queueLen : ctx'.queueLen = ctx.queueLen - min ctx.queueLen bufLen
  queueCap : ctx'.queueCap = ctx.queueCap
  closeRequested : ctx'.closeRequested = ctx.closeRequested
  ready : 0 < ctx.queueLen ∨ ctx.closeRequested = true

/-- The bytes that are read and the bytes moved down make up the queue. -/
theorem wsReadChunk_taken {ctx ctx' : WsStreamCtx} {bufLen : ℕ} {bytes : List UInt8}
    (h : wsReadChunk ctx bufLen = some (bytes, ctx')) : WsTaken ctx ctx' bufLen bytes := by
  unfold wsReadChunk at h
  split at h
  · cases h
  · rename_i hready
    split at h
    · rename_i hpos
      have hcopy : (if ctx.queueLen > bufLen then bufLen else ctx.queueLen) =
          min ctx.queueLen bufLen := by
        split <;> omega
      rw [hcopy] at h
      obtain ⟨rfl, rfl⟩ := Prod.mk.inj (Option.some.inj h)
      refine ⟨?_, Memory.read_length _ _ _, rfl, rfl, rfl, Or.inl hpos⟩
      -- what is moved to the front is what was behind the bytes returned
      have hmoved := Memory.read_shiftDown ctx.queue (min ctx.queueLen bufLen)
        (ctx.queueLen - min ctx.queueLen bufLen)
      have hcut := Memory.read_cut ctx.queue 0 (Nat.min_le_left ctx.queueLen bufLen)
      rw [Nat.zero_add, ← hmoved] at hcut
      exact hcut
    · rename_i hzero
      obtain ⟨rfl, rfl⟩ := Prod.mk.inj (Option.some.inj h)
      have hlen : ctx.queueLen = 0 := Nat.eq_zero_of_not_pos hzero
      refine ⟨rfl, by simp [hlen], by simp [hlen], rfl, rfl, Or.inr ?_⟩
      simpa [hlen] using hready

end AbstractHttp.WebSocket
