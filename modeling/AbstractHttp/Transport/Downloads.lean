import AbstractHttp.Library.Memory
import AbstractHttp.Library.PullStream
import AbstractHttp.Transport.LibuvResponse

/-!
# Response bodies of the platform transports

Six transports take the body of a response from a library of their platform, five in pieces and one
all at once. With `on_chunk` set they hand it on, and otherwise they gather it for the response.
-/
namespace AbstractHttp.Transport
open Library Http EventStream

/-- The results of libcurl that `map_curl_error` tells apart. -/
inductive CurlCode where
  | unsupportedProtocol
  | couldntResolveProxy
  | couldntResolveHost
  | couldntConnect
  | operationTimedout
  | sslConnectError
  | peerFailedVerification
  | outOfMemory
  | tooManyRedirects
  | sendError
  | recvError
  | writeError
  | other
  deriving DecidableEq, Repr

/-- `map_curl_error`. -/
def mapCurlError : CurlCode → ℤ
  | .unsupportedProtocol => ErrorCode.inval.value
  | .couldntResolveProxy | .couldntResolveHost => 113
  | .couldntConnect => econnrefused
  | .operationTimedout => ErrorCode.timeout.value
  | .sslConnectError | .peerFailedVerification => 13
  | .outOfMemory => ErrorCode.nomem.value
  | .tooManyRedirects => 40
  | .sendError | .recvError | .writeError | .other => ErrorCode.io.value

/-- The errors of GLib that `http_libsoup3_send` tells apart. -/
inductive SoupError where
  | connectionRefused
  | timedOut
  | other
  deriving DecidableEq, Repr

def SoupError.value : SoupError → ℤ
  | .connectionRefused => econnrefused
  | .timedOut => ErrorCode.timeout.value
  | .other => ErrorCode.io.value

/-- What a call meets: which sizes of `malloc` and `realloc` are granted, whether the response and
the read buffer are, the callback `on_chunk`, if it is set, with all chunks so far, how much a
library asks the network for, what it calls a failure of the network, and whether an event of
libevent ends after these bytes. -/
structure DownloadEnv where
  alloc : ℕ → Bool
  response : Bool
  readBuf : Bool
  onChunk : Bool
  answer : List (List UInt8) → ℤ
  asks : List UInt8 → ℕ
  curlCode : ℤ → CurlCode
  soupError : ℤ → SoupError
  eventEnds : List UInt8 → Bool

/-- The chunks that `on_chunk` was given, the bytes gathered, and the stores. -/
structure Receiving where
  chunks : List (List UInt8)
  bytes : List UInt8
  stores : List Extent

/-- Why a piece is refused: the code, with the chunks that `on_chunk` was given and the stores. -/
structure Refusal where
  chunks : List (List UInt8)
  stores : List Extent
  code : ℤ

/-- What a call leaves: chunks and stores, and the body of the response, NULL for none, or the error
code. -/
structure Download where
  chunks : List (List UInt8)
  stores : List Extent
  result : Except ℤ (Option (List UInt8))

/-- The network, as a library reads from it. -/
abbrev NetworkBody (σ : Type*) := PullSource σ UInt8

section Receive

variable (env : DownloadEnv)

/-- A piece is handed to `on_chunk`. -/
def passOn (t : Receiving) (items : List UInt8) : Except Refusal Receiving :=
  let chunks := t.chunks ++ [items]
  if env.answer chunks ≠ 0 then .error ⟨chunks, t.stores, env.answer chunks⟩
  else .ok { t with chunks }

/-- A piece is put behind the bytes in a block of just their size and a NUL. -/
def gatherPiece (refusal : ErrorCode) (t : Receiving) (items : List UInt8) :
    Except Refusal Receiving :=
  let size := t.bytes.length + items.length + 1
  if env.alloc size then
    .ok { t with
      bytes := t.bytes ++ items
      stores := t.stores ++
        [⟨t.bytes.length, items.length, size⟩, ⟨t.bytes.length + items.length, 1, size⟩] }
  else .error ⟨t.chunks, t.stores, refusal.value⟩

/-- The loops that ask for pieces and hand on or gather each of them. -/
def receiveSink (asks : List UInt8 → ℕ) (refusal : ErrorCode) :
    PullSink Receiving UInt8 Refusal where
  prepare t := .ok t
  room t := asks t.bytes
  put t items := if env.onChunk then passOn env t items else gatherPiece env refusal t items

/-- What libevent has received, of which it keeps the body unless it calls `http_chunked_cb`, and
the code that this leaves. -/
structure LibeventReceiving extends Receiving where
  received : List UInt8
  errorCode : ℤ

/-- `http_chunked_cb`, after which libevent empties its buffer in any case. -/
def chunkedCb (t : LibeventReceiving) (items : List UInt8) : LibeventReceiving :=
  let received := t.received ++ items
  if env.alloc items.length then
    let chunks := t.chunks ++ [items]
    let stores := t.stores ++ [⟨0, items.length, items.length⟩]
    let errorCode := if env.answer chunks ≠ 0 then env.answer chunks else t.errorCode
    { t with chunks, stores, received, errorCode }
  else { t with received, errorCode := ErrorCode.nomem.value }

/-- `event_base_loopbreak` ends the loop, but only after the event in which it is called. -/
def libeventReceiveSink : PullSink LibeventReceiving UInt8 LibeventReceiving where
  prepare t := .ok t
  room t := env.asks t.received
  put t items :=
    if env.onChunk then
      let t := chunkedCb env t items
      if t.errorCode ≠ 0 ∧ env.eventEnds t.received = true then .error t else .ok t
    else .ok { t with bytes := t.bytes ++ items, received := t.received ++ items }

/-- The body of a response; there is no block before the first piece. -/
def Receiving.held (t : Receiving) : Option (List UInt8) :=
  if t.bytes = [] then none else some t.bytes

/-- A response with this body, if there is memory for it. -/
def Receiving.respond (t : Receiving) (body : Option (List UInt8)) : Download :=
  ⟨t.chunks, t.stores,
    if env.response then .ok body else .error ErrorCode.nomem.value⟩

variable {σ : Type*} (src : NetworkBody σ) (fuel : ℕ) (s : σ)

/-- `http_fetch_send`: `fread` gives nothing more after an error as after the end. -/
def fetchDownload : Option Download :=
  if env.response = false then some ⟨[], [], .error ErrorCode.nomem.value⟩
  else
    (pull src (receiveSink env (fun _ => 4096) .nomem) fuel s ⟨[], [], []⟩).map fun
      | (_, .refused e) => ⟨e.chunks, e.stores, .error e.code⟩
      | (t, _) => t.respond env t.held

/-- The loop of the two Windows transports, over a block of `n` bytes. -/
def windowsDownload (n : ℕ) : Option Download :=
  if env.readBuf = false then some ⟨[], [], .error ErrorCode.nomem.value⟩
  else
    (pull src (receiveSink env (fun _ => n) .nomem) fuel s ⟨[], [], []⟩).map fun
      | (t, .finished) => t.respond env t.held
      | (t, .failed _) => ⟨t.chunks, t.stores, .error ErrorCode.io.value⟩
      | (_, .refused e) => ⟨e.chunks, e.stores, .error e.code⟩

/-- `http_winhttp_send`, for which one read is `WinHttpQueryDataAvailable` and then
`WinHttpReadData`. -/
def winhttpDownload : Option Download := windowsDownload env src fuel s 8192

/-- `http_wininet_send`. -/
def wininetDownload : Option Download := windowsDownload env src fuel s 4096

/-- `math_write_memory_callback`, which libcurl calls for what it has received, and
`finish_curl_request`. A callback that takes nothing ends the transfer with an error, which is that
of `on_chunk`, if there is one, and otherwise that of libcurl. The block is there from the setup of
the request on, with a NUL in it, and goes to the response unless `on_chunk` is set. -/
def curlDownload : Option Download :=
  if env.alloc 1 = false then some ⟨[], [], .error ErrorCode.nomem.value⟩
  else
    (pull src (receiveSink env env.asks .io) fuel s ⟨[], [], [⟨0, 1, 1⟩]⟩).map fun
      | (t, .finished) => t.respond env (if env.onChunk then none else some t.bytes)
      | (t, .failed rc) => ⟨t.chunks, t.stores, .error (mapCurlError (env.curlCode rc))⟩
      | (_, .refused e) => ⟨e.chunks, e.stores, .error e.code⟩

/-- `http_request_done`, which copies what libevent has kept, unless there has been an error. -/
def libeventFinish (t : LibeventReceiving) : Download :=
  if t.errorCode ≠ 0 then ⟨t.chunks, t.stores, .error t.errorCode⟩
  else if env.response = false then ⟨t.chunks, t.stores, .error ErrorCode.nomem.value⟩
  else if t.bytes = [] then ⟨t.chunks, t.stores, .ok none⟩
  else if env.alloc (t.bytes.length + 1) then
    ⟨t.chunks, t.stores ++ [⟨0, t.bytes.length, t.bytes.length + 1⟩,
      ⟨t.bytes.length, 1, t.bytes.length + 1⟩], .ok (some t.bytes)⟩
  else ⟨t.chunks, t.stores, .error ErrorCode.nomem.value⟩

/-- `http_libevent_send` from the request on. -/
def libeventDownload : Option Download :=
  (pull src (libeventReceiveSink env) fuel s ⟨⟨[], [], []⟩, [], 0⟩).map fun
    | (t, .finished) => libeventFinish env t
    | (t, .failed _) =>
      ⟨t.chunks, t.stores, .error (if t.errorCode ≠ 0 then t.errorCode else econnrefused)⟩
    | (_, .refused t) => ⟨t.chunks, t.stores, .error t.errorCode⟩

/-- libsoup reads the whole body before it returns. -/
def wholeSink : PullSink (List UInt8) UInt8 Refusal where
  prepare t := .ok t
  room := env.asks
  put t items := .ok (t ++ items)

/-- `http_libsoup3_send` with the body that `soup_session_send_and_read` returns. -/
def libsoupFinish (bytes : List UInt8) : Download :=
  if env.response = false then ⟨[], [], .error ErrorCode.nomem.value⟩
  else if env.onChunk then
    if env.answer [bytes] ≠ 0 then ⟨[bytes], [], .error ecanceled⟩ else ⟨[bytes], [], .ok none⟩
  else if env.alloc (bytes.length + 1) then
    ⟨[], [⟨0, bytes.length, bytes.length + 1⟩, ⟨bytes.length, 1, bytes.length + 1⟩],
      .ok (some bytes)⟩
  else ⟨[], [], .error ErrorCode.nomem.value⟩

/-- `http_libsoup3_send` from the request on. -/
def libsoupDownload : Option Download :=
  (pull src (wholeSink env) fuel s []).map fun
    | (bytes, .finished) => libsoupFinish env bytes
    | (_, .failed rc) => ⟨[], [], .error (env.soupError rc).value⟩
    | (_, .refused e) => ⟨e.chunks, e.stores, .error e.code⟩

end Receive

/-- The transports whose body comes from a library of their platform. -/
inductive DownloadTransport where
  | fetch
  | winhttp
  | wininet
  | curl
  | libevent
  | libsoup
  deriving DecidableEq, Repr

def DownloadTransport.download {σ : Type*} (env : DownloadEnv) (src : NetworkBody σ) (fuel : ℕ)
    (s : σ) : DownloadTransport → Option Download
  | .fetch => fetchDownload env src fuel s
  | .winhttp => winhttpDownload env src fuel s
  | .wininet => wininetDownload env src fuel s
  | .curl => curlDownload env src fuel s
  | .libevent => libeventDownload env src fuel s
  | .libsoup => libsoupDownload env src fuel s

/-- There is memory, and `on_chunk` takes everything if it is set. -/
structure DownloadEnv.Smooth (env : DownloadEnv) : Prop where
  alloc : ∀ n, env.alloc n = true
  response : env.response = true
  readBuf : env.readBuf = true
  answer : env.onChunk = true → ∀ chunks, env.answer chunks = 0

/-- The callback takes all of the chunks but perhaps the last. -/
def TakesButLast (answer : List (List UInt8) → ℤ) (chunks : List (List UInt8)) : Prop :=
  ∀ k, 0 < k → k < chunks.length → answer (chunks.take k) = 0

/-- What a call leaves of a body, of which nothing is missing where the call `ends` well, and of
which nothing is left out where it is `steady`. -/
structure Downloads (env : DownloadEnv) (bytes : List UInt8) (ends steady : Prop) (d : Download) :
    Prop where
  inBounds : ∀ e ∈ d.stores, e.InBounds
  part : d.chunks.flatten.Sublist bytes
  begun : steady → d.chunks.flatten <+: bytes
  takes : steady → TakesButLast env.answer d.chunks
  streamed : env.onChunk = true → ∀ body, d.result = .ok body →
    ends ∧ body = none ∧ d.chunks.flatten = bytes
  buffered : env.onChunk = false → ∀ body, d.result = .ok body →
    ends ∧ d.chunks = [] ∧ body.getD [] = bytes
  succeeds : env.Smooth → ends → ∃ body, d.result = .ok body

section Receiving

variable {env : DownloadEnv} {bytes : List UInt8} {ends steady : Prop} {t : Receiving}

/-- What is so far handed on or gathered, and by which of the two. -/
structure Receives (env : DownloadEnv) (t : Receiving) : Prop where
  stored : ∀ e ∈ t.stores, e.InBounds
  taken : ∀ k, 0 < k → k ≤ t.chunks.length → env.answer (t.chunks.take k) = 0
  streamed : env.onChunk = true → t.bytes = []
  buffered : env.onChunk = false → t.chunks = []

/-- Both together. -/
def Receiving.view (t : Receiving) : List UInt8 := t.chunks.flatten ++ t.bytes

theorem receives_start (env : DownloadEnv) {stores : List Extent}
    (hstores : ∀ e ∈ stores, e.InBounds) : Receives env ⟨[], [], stores⟩ where
  stored := hstores
  taken k hpos hk := by
    simp only [List.length_nil] at hk
    omega
  streamed _ := rfl
  buffered _ := rfl

/-- Up to the last one, the chunks are those that were taken. -/
theorem Receives.takesButLast (h : Receives env t) (items : List UInt8) :
    TakesButLast env.answer (t.chunks ++ [items]) := by
  intro k hpos hk
  rw [List.length_append, List.length_singleton] at hk
  rw [List.take_append_of_le_length (by omega)]
  exact h.taken k hpos (by omega)

theorem Receives.passOn {t' : Receiving} (h : Receives env t) (hchunk : env.onChunk = true)
    {items : List UInt8} (hpass : passOn env t items = .ok t') :
    Receives env t' ∧ t'.view = t.view ++ items := by
  have hnil := h.streamed hchunk
  simp only [Transport.passOn] at hpass
  split_ifs at hpass with hzero
  cases hpass
  refine ⟨⟨h.stored, fun k hpos hk => ?_, h.streamed, fun hoff => ?_⟩, ?_⟩
  · rcases Nat.lt_or_ge k (t.chunks ++ [items]).length with hless | hmore
    · exact h.takesButLast items k hpos hless
    · rw [List.take_of_length_le hmore]
      exact not_not.mp hzero
  · rw [hchunk] at hoff
    cases hoff
  · simp [Receiving.view, hnil]

theorem Receives.gather {t' : Receiving} (h : Receives env t) (hoff : env.onChunk = false)
    {refusal : ErrorCode} {items : List UInt8}
    (hgather : gatherPiece env refusal t items = .ok t') :
    Receives env t' ∧ t'.view = t.view ++ items := by
  simp only [gatherPiece] at hgather
  split_ifs at hgather
  cases hgather
  refine ⟨⟨?_, h.taken, fun hchunk => ?_, h.buffered⟩, (List.append_assoc _ _ _).symm⟩
  · refine List.forall_mem_append.mpr ⟨h.stored, ?_⟩
    simp only [List.forall_mem_cons, Extent.inBounds_iff, List.not_mem_nil, false_implies,
      implies_true, and_true]
    omega
  · rw [hoff] at hchunk
    cases hchunk

theorem receiveSink_lawful (env : DownloadEnv) {asks : List UInt8 → ℕ} (hasks : ∀ b, 0 < asks b)
    (refusal : ErrorCode) :
    (receiveSink env asks refusal).Lawful (Receives env) Receiving.view where
  prepare := by
    rintro t t' ht ⟨⟩
    exact ⟨ht, rfl, hasks t.bytes⟩
  put := by
    intro t t' items ht _ hput
    simp only [receiveSink] at hput
    split_ifs at hput with hchunk
    · exact ht.passOn hchunk hput
    · exact ht.gather (by simpa using hchunk) hput

/-- A call that fails hands on no more than a part of the body. -/
theorem downloads_part {chunks : List (List UInt8)} {stores : List Extent} {rc : ℤ}
    (hstores : ∀ e ∈ stores, e.InBounds) (hpart : chunks.flatten.Sublist bytes)
    (hbegun : steady → chunks.flatten <+: bytes)
    (htakes : steady → TakesButLast env.answer chunks) (hrough : env.Smooth → ¬ ends) :
    Downloads env bytes ends steady ⟨chunks, stores, .error rc⟩ where
  inBounds := hstores
  part := hpart
  begun := hbegun
  takes := htakes
  streamed _ _ h := by cases h
  buffered _ _ h := by cases h
  succeeds hsmooth hends := absurd hends (hrough hsmooth)

theorem downloads_error {chunks : List (List UInt8)} {stores : List Extent} {rc : ℤ}
    (hstores : ∀ e ∈ stores, e.InBounds) (hbegun : chunks.flatten <+: bytes)
    (htakes : TakesButLast env.answer chunks) (hrough : env.Smooth → ¬ ends) :
    Downloads env bytes ends steady ⟨chunks, stores, .error rc⟩ :=
  downloads_part hstores hbegun.sublist (fun _ => hbegun) (fun _ => htakes) hrough

theorem Receives.takes (h : Receives env t) : TakesButLast env.answer t.chunks :=
  fun k hpos hk => h.taken k hpos hk.le

theorem Receives.begun (hview : t.view = bytes) : t.chunks.flatten <+: bytes :=
  hview ▸ List.prefix_append _ _

/-- The whole body has been handed on or gathered, and the response is made of it. -/
theorem Receives.finished (h : Receives env t) (hview : t.view = bytes) (hends : ends)
    {stores : List Extent} (hstores : ∀ e ∈ stores, e.InBounds) {body : Option (List UInt8)}
    (hnone : env.onChunk = true → body = none) (hbody : body.getD [] = t.bytes) :
    Downloads env bytes ends steady ⟨t.chunks, stores, .ok body⟩ where
  inBounds := hstores
  part := (Receives.begun hview).sublist
  begun _ := Receives.begun hview
  takes _ := h.takes
  streamed hchunk := by
    rintro _ ⟨⟩
    have hnil := h.streamed hchunk
    rw [Receiving.view, hnil, List.append_nil] at hview
    exact ⟨hends, hnone hchunk, hview⟩
  buffered hoff := by
    rintro _ ⟨⟩
    have hnil := h.buffered hoff
    rw [Receiving.view, hnil, List.flatten_nil, List.nil_append] at hview
    exact ⟨hends, hnil, hbody.trans hview⟩
  succeeds _ _ := ⟨_, rfl⟩

theorem Receives.held (h : Receives env t) :
    (env.onChunk = true → t.held = none) ∧ t.held.getD [] = t.bytes := by
  refine ⟨fun hchunk => if_pos (h.streamed hchunk), ?_⟩
  rw [Receiving.held]
  split_ifs with hnil
  · exact hnil.symm
  · rfl

theorem Receives.respond (h : Receives env t) (hview : t.view = bytes) (hends : ends)
    {body : Option (List UInt8)} (hbody : (env.onChunk = true → body = none) ∧
      body.getD [] = t.bytes) : Downloads env bytes ends steady (t.respond env body) := by
  rw [Receiving.respond]
  split_ifs with hresponse
  · exact h.finished hview hends h.stored hbody.1 hbody.2
  · exact downloads_error h.stored (Receives.begun hview) h.takes
      fun hsmooth => absurd hsmooth.response hresponse

/-- A piece that the callback refuses was still handed to it. -/
theorem Receives.passOn_refused (h : Receives env t) (hchunk : env.onChunk = true)
    {items : List UInt8} {e : Refusal} (hpass : Transport.passOn env t items = .error e)
    (hpiece : t.view ++ items <+: bytes) :
    Downloads env bytes ends steady ⟨e.chunks, e.stores, .error e.code⟩ := by
  have hnil := h.streamed hchunk
  rw [Receiving.view, hnil, List.append_nil] at hpiece
  simp only [Transport.passOn] at hpass
  split_ifs at hpass with hcode
  cases hpass
  refine downloads_error h.stored ?_ (h.takesButLast items)
    fun hsmooth => absurd (hsmooth.answer hchunk _) hcode
  rwa [List.flatten_append, List.flatten_singleton]

theorem receiveSink_refused {asks : List UInt8 → ℕ} {refusal : ErrorCode} (h : Receives env t)
    {e : Refusal} (hwhy : (receiveSink env asks refusal).Refuses Receiving.view bytes t e) :
    Downloads env bytes ends steady ⟨e.chunks, e.stores, .error e.code⟩ := by
  rcases hwhy with ⟨-, hready⟩ | ⟨items, hpiece, hput⟩
  · cases hready
  · simp only [receiveSink] at hput
    split_ifs at hput with hchunk
    · exact h.passOn_refused hchunk hput hpiece
    · simp only [gatherPiece] at hput
      split_ifs at hput with halloc
      cases hput
      have hbegun : t.chunks.flatten <+: bytes :=
        (List.prefix_append _ _).trans ((List.prefix_append _ _).trans hpiece)
      exact downloads_error h.stored hbegun h.takes
        fun hsmooth => absurd (hsmooth.alloc _) halloc

end Receiving

section Libevent

variable {env : DownloadEnv} {bytes : List UInt8} {ends : Prop} {t : LibeventReceiving}

/-- What libevent has received, of which nothing is left out while there is no error. -/
structure LibeventReceives (env : DownloadEnv) (t : LibeventReceiving) : Prop where
  stored : ∀ e ∈ t.stores, e.InBounds
  part : t.chunks.flatten.Sublist t.received
  going : t.errorCode = 0 → Receives env t.toReceiving ∧ t.view = t.received
  smooth : env.Smooth → t.errorCode = 0

/-- Every event ends with the piece for which it calls `http_chunked_cb`. -/
def DownloadEnv.Breaks (env : DownloadEnv) : Prop := ∀ received, env.eventEnds received = true

/-- Where every event ends so, there is no error while libevent goes on. -/
def LibeventReceives.Goes (env : DownloadEnv) (t : LibeventReceiving) : Prop :=
  LibeventReceives env t ∧ (env.Breaks → t.errorCode = 0)

theorem libeventReceives_start (env : DownloadEnv) :
    LibeventReceives.Goes env ⟨⟨[], [], []⟩, [], 0⟩ :=
  ⟨⟨by simp, .slnil, fun _ => ⟨receives_start env (by simp), rfl⟩, fun _ => rfl⟩, fun _ => rfl⟩

/-- The copy that is made of a piece has just its size. -/
theorem forall_inBounds_copy {stores : List Extent} (h : ∀ e ∈ stores, e.InBounds) (n : ℕ) :
    ∀ e ∈ stores ++ [⟨0, n, n⟩], e.InBounds := by
  refine List.forall_mem_append.mpr ⟨h, List.forall_mem_singleton.mpr ?_⟩
  rw [Extent.inBounds_iff]
  exact .inr (Nat.zero_add _).le

theorem Receives.copied {t : Receiving} (h : Receives env t) (n : ℕ) :
    Receives env { t with stores := t.stores ++ [⟨0, n, n⟩] } :=
  ⟨forall_inBounds_copy h.stored n, h.taken, h.streamed, h.buffered⟩

@[simp]
theorem chunkedCb_received (env : DownloadEnv) (t : LibeventReceiving) (items : List UInt8) :
    (chunkedCb env t items).received = t.received ++ items := by
  rw [chunkedCb]
  split_ifs <;> rfl

theorem LibeventReceives.chunkedCb (h : LibeventReceives env t) (hchunk : env.onChunk = true)
    (items : List UInt8) : LibeventReceives env (chunkedCb env t items) := by
  rw [Transport.chunkedCb]
  split_ifs with halloc
  · refine ⟨forall_inBounds_copy h.stored _, ?_, fun hcode => ?_, fun hsmooth => ?_⟩
    · simpa using h.part.append (List.Sublist.refl items)
    · dsimp only at hcode
      split_ifs at hcode with hanswer
      · exact absurd hcode hanswer
      · obtain ⟨ht, hview⟩ := h.going hcode
        have hpass : passOn env { t.toReceiving with
            stores := t.stores ++ [⟨0, items.length, items.length⟩] } items =
            .ok ⟨t.chunks ++ [items], t.bytes,
              t.stores ++ [⟨0, items.length, items.length⟩]⟩ := if_neg hanswer
        obtain ⟨ht', hview'⟩ := (ht.copied items.length).passOn hchunk hpass
        exact ⟨ht', hview'.trans (congrArg (· ++ items) hview)⟩
    · exact (if_neg (not_not.mpr (hsmooth.answer hchunk _))).trans (h.smooth hsmooth)
  · exact ⟨h.stored, h.part.trans (List.sublist_append_left _ _),
      fun hcode => absurd hcode (show ErrorCode.nomem.value ≠ 0 by decide),
      fun hsmooth => absurd (hsmooth.alloc _) halloc⟩

/-- The first call that fails is still for the next piece of the body. -/
theorem Receives.chunkedCb (h : Receives env t.toReceiving) (hview : t.view = t.received)
    (hchunk : env.onChunk = true) (items : List UInt8) :
    (chunkedCb env t items).chunks.flatten <+: t.received ++ items ∧
      TakesButLast env.answer (Transport.chunkedCb env t items).chunks := by
  have hnil := h.streamed hchunk
  rw [Receiving.view, hnil, List.append_nil] at hview
  rw [← hview, Transport.chunkedCb]
  split_ifs with halloc
  · exact ⟨by simp, h.takesButLast items⟩
  · exact ⟨List.prefix_append _ _, h.takes⟩

theorem libeventReceiveSink_lawful (hasks : ∀ b, 0 < env.asks b) :
    (libeventReceiveSink env).Lawful (LibeventReceives.Goes env) LibeventReceiving.received where
  prepare := by
    rintro t t' ht ⟨⟩
    exact ⟨ht, rfl, hasks t.received⟩
  put := by
    rintro t t' items ⟨ht, hbreaks⟩ _ hput
    simp only [libeventReceiveSink] at hput
    split_ifs at hput with hchunk hcode
    · cases hput
      refine ⟨⟨ht.chunkedCb hchunk items, fun hends => ?_⟩, chunkedCb_received env t items⟩
      exact not_not.mp fun hfail => hcode ⟨hfail, hends _⟩
    · cases hput
      refine ⟨⟨⟨ht.stored, ht.part.trans (List.sublist_append_left _ _), fun hzero => ?_,
        ht.smooth⟩, hbreaks⟩, rfl⟩
      obtain ⟨hreceives, hview⟩ := ht.going hzero
      refine ⟨⟨hreceives.stored, hreceives.taken, fun hon => absurd hon hchunk,
        hreceives.buffered⟩, ?_⟩
      rw [← hview]
      exact (List.append_assoc _ _ _).symm

/-- Once there has been an error, the call fails. -/
theorem LibeventReceives.Goes.failed (h : LibeventReceives.Goes env t)
    (hreceived : t.received = bytes) (hcode : t.errorCode ≠ 0) (rc : ℤ) :
    Downloads env bytes ends env.Breaks ⟨t.chunks, t.stores, .error rc⟩ :=
  downloads_part h.1.stored (hreceived ▸ h.1.part) (fun hbreaks => absurd (h.2 hbreaks) hcode)
    (fun hbreaks => absurd (h.2 hbreaks) hcode) fun hsmooth => absurd (h.1.smooth hsmooth) hcode

theorem LibeventReceives.Goes.finish (h : LibeventReceives.Goes env t)
    (hreceived : t.received = bytes) (hends : ends) :
    Downloads env bytes ends env.Breaks (libeventFinish env t) := by
  rw [libeventFinish]
  split_ifs with hcode hresponse hnil halloc
  · exact h.failed hreceived hcode _
  all_goals obtain ⟨ht, hview⟩ := h.1.going (not_not.mp hcode)
  all_goals rw [hreceived] at hview
  · exact downloads_error ht.stored (Receives.begun hview) ht.takes fun hsmooth => by
      simp [hsmooth.response] at hresponse
  · exact ht.finished hview hends ht.stored (fun _ => rfl) hnil.symm
  · refine ht.finished hview hends ?_ (fun hchunk => absurd (ht.streamed hchunk) hnil) rfl
    refine List.forall_mem_append.mpr ⟨ht.stored, ?_⟩
    simp only [List.forall_mem_cons, Extent.inBounds_iff, List.not_mem_nil, false_implies,
      implies_true, and_true]
    omega
  · exact downloads_error ht.stored (Receives.begun hview) ht.takes
      fun hsmooth => absurd (hsmooth.alloc _) halloc

theorem LibeventReceives.Goes.broken (h : LibeventReceives.Goes env t)
    (hreceived : t.received = bytes) (hrough : ¬ ends) (rc : ℤ) :
    Downloads env bytes ends env.Breaks ⟨t.chunks, t.stores, .error rc⟩ := by
  by_cases hcode : t.errorCode = 0
  · obtain ⟨ht, hview⟩ := h.1.going hcode
    rw [hreceived] at hview
    exact downloads_error ht.stored (Receives.begun hview) ht.takes fun _ => hrough
  · exact h.failed hreceived hcode rc

theorem libeventReceiveSink_refused (h : LibeventReceives.Goes env t) {e : LibeventReceiving}
    (hwhy : (libeventReceiveSink env).Refuses LibeventReceiving.received bytes t e) :
    Downloads env bytes ends env.Breaks ⟨e.chunks, e.stores, .error e.errorCode⟩ := by
  rcases hwhy with ⟨-, hready⟩ | ⟨items, hpiece, hput⟩
  · cases hready
  · simp only [libeventReceiveSink] at hput
    split_ifs at hput with hchunk hcode
    cases hput
    have hcb := h.1.chunkedCb hchunk items
    have hpart := hcb.part
    rw [chunkedCb_received] at hpart
    have hfirst (hbreaks : env.Breaks) :=
      let hgoing := h.1.going (h.2 hbreaks)
      hgoing.1.chunkedCb hgoing.2 hchunk items
    exact downloads_part hcb.stored (hpart.trans hpiece.sublist)
      (fun hbreaks => (hfirst hbreaks).1.trans hpiece) (fun hbreaks => (hfirst hbreaks).2)
      fun hsmooth => absurd (hcb.smooth hsmooth) hcode.1

end Libevent

section Agreement

variable {σ : Type*} {env : DownloadEnv} {src : NetworkBody σ} {code : ℤ} {s : σ}
  {bytes : List UInt8} {fuel : ℕ} {steady : Prop}

/-- A call comes to an end. -/
def Downloaded (env : DownloadEnv) (bytes : List UInt8) (ends steady : Prop)
    (r : Option Download) : Prop :=
  ∃ d, r = some d ∧ Downloads env bytes ends steady d

theorem downloaded_early {ends : Prop} {rc : ℤ} (hrough : env.Smooth → ¬ ends) :
    Downloaded env bytes ends steady (some ⟨[], [], .error rc⟩) :=
  ⟨_, rfl, downloads_error (by simp) List.nil_prefix (fun k _ hk => by simp at hk) hrough⟩

theorem Receives.downloaded_failed {t : Receiving} (h : Receives env t) (hview : t.view = bytes)
    (hcode : code ≠ 0) (rc : ℤ) :
    Downloaded env bytes (code = 0) steady (some ⟨t.chunks, t.stores, .error rc⟩) :=
  ⟨_, rfl, downloads_error h.stored (Receives.begun hview) h.takes fun _ => hcode⟩

theorem fetchDownload_downloaded (hsrc : src.Holds code s bytes) (hfuel : bytes.length < fuel) :
    Downloaded env bytes True steady (fetchDownload env src fuel s) := by
  rw [fetchDownload]
  split_ifs with hresponse
  · exact downloaded_early fun hsmooth => by simp [hsmooth.response] at hresponse
  · refine (pull_result (receiveSink_lawful env (fun _ => Nat.succ_pos 4095) .nomem) hsrc
      (receives_start env (by simp)) hfuel).map ?_ ?_ ?_
    · exact fun t _ ht hview => ⟨_, rfl, ht.respond hview trivial ht.held⟩
    · exact fun t _ ht hview => ⟨_, rfl, ht.respond hview trivial ht.held⟩
    · exact fun t e hwhy ht => ⟨_, rfl, receiveSink_refused ht hwhy⟩

theorem windowsDownload_downloaded {n : ℕ} (hn : 0 < n) (hsrc : src.Holds code s bytes)
    (hfuel : bytes.length < fuel) :
    Downloaded env bytes (code = 0) steady (windowsDownload env src fuel s n) := by
  rw [windowsDownload]
  split_ifs with hbuf
  · exact downloaded_early fun hsmooth => by simp [hsmooth.readBuf] at hbuf
  · refine (pull_result (receiveSink_lawful env (fun _ => hn) .nomem) hsrc
      (receives_start env (by simp)) hfuel).map ?_ ?_ ?_
    · exact fun t hcode ht hview => ⟨_, rfl, ht.respond hview hcode ht.held⟩
    · exact fun t hcode ht hview => ht.downloaded_failed hview hcode _
    · exact fun t e hwhy ht => ⟨_, rfl, receiveSink_refused ht hwhy⟩

theorem curlDownload_downloaded (hasks : ∀ b, 0 < env.asks b) (hsrc : src.Holds code s bytes)
    (hfuel : bytes.length < fuel) :
    Downloaded env bytes (code = 0) steady (curlDownload env src fuel s) := by
  rw [curlDownload]
  by_cases hblock : env.alloc 1 = false
  · rw [if_pos hblock]
    exact downloaded_early fun hsmooth => by simp [hsmooth.alloc] at hblock
  · rw [if_neg hblock]
    have hnul : ∀ e ∈ [(⟨0, 1, 1⟩ : Extent)], e.InBounds :=
      List.forall_mem_singleton.mpr ((Extent.inBounds_iff _).mpr (.inr le_rfl))
    refine (pull_result (receiveSink_lawful env hasks .io) hsrc (receives_start env hnul)
      hfuel).map ?_ ?_ ?_
    · refine fun t hcode ht hview =>
        ⟨_, rfl, ht.respond hview hcode ⟨fun hchunk => if_pos hchunk, ?_⟩⟩
      by_cases hchunk : env.onChunk = true
      · rw [if_pos hchunk, ht.streamed hchunk]
        rfl
      · rw [if_neg hchunk]
        rfl
    · exact fun t hcode ht hview => ht.downloaded_failed hview hcode _
    · exact fun t e hwhy ht => ⟨_, rfl, receiveSink_refused ht hwhy⟩

theorem libeventDownload_downloaded (hasks : ∀ b, 0 < env.asks b)
    (hsrc : src.Holds code s bytes) (hfuel : bytes.length < fuel) :
    Downloaded env bytes (code = 0) env.Breaks (libeventDownload env src fuel s) := by
  refine (pull_result (libeventReceiveSink_lawful hasks) hsrc (libeventReceives_start env)
    hfuel).map ?_ ?_ ?_
  · exact fun t hcode ht hview => ⟨_, rfl, ht.finish hview hcode⟩
  · exact fun t hcode ht hview => ⟨_, rfl, ht.broken hview hcode _⟩
  · exact fun t e hwhy ht => ⟨_, rfl, libeventReceiveSink_refused ht hwhy⟩

theorem wholeSink_lawful (hasks : ∀ b, 0 < env.asks b) :
    (wholeSink env).Lawful (fun _ => True) id where
  prepare := by
    rintro t t' - ⟨⟩
    exact ⟨trivial, rfl, hasks t⟩
  put := by
    rintro t t' items - - ⟨⟩
    exact ⟨trivial, rfl⟩

theorem wholeSink_granting (env : DownloadEnv) : (wholeSink env).Granting where
  prepare t e := by simp [wholeSink]
  put t items e := by simp [wholeSink]

theorem libsoupFinish_downloads {ends : Prop} (hends : ends) :
    Downloads env bytes ends steady (libsoupFinish env bytes) := by
  have hone : TakesButLast env.answer [bytes] := by
    intro k hpos hk
    rw [List.length_singleton] at hk
    omega
  rw [libsoupFinish]
  split_ifs with hresponse hchunk hanswer halloc
  · exact downloads_error (by simp) List.nil_prefix (fun k _ hk => by simp at hk)
      fun hsmooth => by simp [hsmooth.response] at hresponse
  · exact downloads_error (by simp) (by simp) hone
      fun hsmooth => absurd (hsmooth.answer hchunk _) hanswer
  · refine ⟨by simp, by simp, by simp, fun _ => hone, ?_, fun hoff => ?_, fun _ _ => ⟨_, rfl⟩⟩
    · rintro - _ ⟨⟩
      exact ⟨hends, rfl, by simp⟩
    · rw [hchunk] at hoff
      cases hoff
  · refine ⟨?_, List.nil_sublist _, fun _ => List.nil_prefix, fun _ k _ hk => by simp at hk,
      fun hon => absurd hon hchunk, ?_, fun _ _ => ⟨_, rfl⟩⟩
    · simp only [List.forall_mem_cons, Extent.inBounds_iff, List.not_mem_nil, false_implies,
        implies_true, and_true]
      omega
    · rintro - _ ⟨⟩
      exact ⟨hends, rfl, rfl⟩
  · exact downloads_error (by simp) List.nil_prefix (fun k _ hk => by simp at hk)
      fun hsmooth => absurd (hsmooth.alloc _) halloc

theorem libsoupDownload_downloaded (hasks : ∀ b, 0 < env.asks b) (hsrc : src.Holds code s bytes)
    (hfuel : bytes.length < fuel) :
    Downloaded env bytes (code = 0) steady (libsoupDownload env src fuel s) := by
  refine (pull_result (wholeSink_lawful hasks) hsrc (t := []) trivial hfuel).map ?_ ?_ ?_
  · rintro t hcode - hview
    obtain rfl : t = bytes := hview
    exact ⟨_, rfl, libsoupFinish_downloads hcode⟩
  · exact fun t hcode _ _ => downloaded_early fun _ => hcode
  · exact fun t e hwhy _ => absurd hwhy ((wholeSink_granting env).not_refuses e)

/-- A transport tells a body that breaks off from one that ends, except through `fread`. -/
def DownloadTransport.EndsWell (code : ℤ) (t : DownloadTransport) : Prop :=
  t = .fetch ∨ code = 0

/-- Nothing is handed on after an error, which libevent may still do in the same event. -/
def DownloadTransport.Steady (env : DownloadEnv) (t : DownloadTransport) : Prop :=
  t = .libevent → env.Breaks

theorem DownloadTransport.download_downloaded (hasks : ∀ b, 0 < env.asks b)
    (hsrc : src.Holds code s bytes) (hfuel : bytes.length < fuel) (t : DownloadTransport) :
    Downloaded env bytes (t.EndsWell code) (t.Steady env) (t.download env src fuel s) := by
  have hends (ht : t ≠ .fetch) : (code = 0) = t.EndsWell code := by
    rw [EndsWell, or_iff_right ht]
  cases t with
  | fetch =>
    have htrue : True = EndsWell code .fetch := propext (iff_of_true trivial (.inl rfl))
    rw [← htrue]
    exact fetchDownload_downloaded hsrc hfuel
  | winhttp =>
    rw [← hends (by decide)]
    exact windowsDownload_downloaded (Nat.succ_pos 8191) hsrc hfuel
  | wininet =>
    rw [← hends (by decide)]
    exact windowsDownload_downloaded (Nat.succ_pos 4095) hsrc hfuel
  | curl =>
    rw [← hends (by decide)]
    exact curlDownload_downloaded hasks hsrc hfuel
  | libevent =>
    have hsteady : env.Breaks = Steady env .libevent :=
      propext ⟨fun hbreaks _ => hbreaks, fun h => h rfl⟩
    rw [← hends (by decide), ← hsteady]
    exact libeventDownload_downloaded hasks hsrc hfuel
  | libsoup =>
    rw [← hends (by decide)]
    exact libsoupDownload_downloaded hasks hsrc hfuel

/-- A call succeeds exactly where the body ends well, if nothing else is in its way. -/
theorem Downloads.ok_iff {ends : Prop} {d : Download} (h : Downloads env bytes ends steady d)
    (hsmooth : env.Smooth) : (∃ body, d.result = .ok body) ↔ ends := by
  refine ⟨?_, h.succeeds hsmooth⟩
  rintro ⟨body, hbody⟩
  cases hchunk : env.onChunk with
  | true => exact (h.streamed hchunk body hbody).1
  | false => exact (h.buffered hchunk body hbody).1

/-- The call with `on_chunk` set or not. -/
def DownloadEnv.streaming (env : DownloadEnv) (onChunk : Bool) : DownloadEnv :=
  { env with onChunk }

/-- However the network cuts a body, and whether it ends or breaks off, every transport stores
inside its blocks and hands on a part of the body, the beginning of it up to the first error, and
succeeds only with all of it, as chunks or in the response. Where nothing but the network can fail,
`on_chunk` is given just the bytes that the response has without it. -/
theorem downloads_agree (hasks : ∀ b, 0 < env.asks b) (hsrc : src.Holds code s bytes)
    (hfuel : bytes.length < fuel) (t : DownloadTransport) :
    Downloaded env bytes (t.EndsWell code) (t.Steady env) (t.download env src fuel s) ∧
      ((env.streaming true).Smooth → ∃ streamed buffered,
        t.download (env.streaming true) src fuel s = some streamed ∧
        t.download (env.streaming false) src fuel s = some buffered ∧
        ((∃ body, streamed.result = .ok body) ↔ t.EndsWell code) ∧
        ((∃ body, buffered.result = .ok body) ↔ t.EndsWell code) ∧
        ∀ unused body, streamed.result = .ok unused → buffered.result = .ok body →
          unused = none ∧ streamed.chunks.flatten = body.getD []) := by
  refine ⟨t.download_downloaded hasks hsrc hfuel, fun hsmooth => ?_⟩
  have hplain : (env.streaming false).Smooth := ⟨hsmooth.alloc, hsmooth.response,
    hsmooth.readBuf, fun hon => absurd hon (by simp [DownloadEnv.streaming])⟩
  have hdownloaded (onChunk : Bool) : Downloaded (env.streaming onChunk) bytes (t.EndsWell code)
      (t.Steady (env.streaming onChunk)) (t.download (env.streaming onChunk) src fuel s) := by
    have hasks : ∀ b, 0 < (env.streaming onChunk).asks b := hasks
    exact t.download_downloaded hasks hsrc hfuel
  obtain ⟨streamed, hstreamed, hstream⟩ := hdownloaded true
  obtain ⟨buffered, hbuffered, hbuffer⟩ := hdownloaded false
  refine ⟨streamed, buffered, hstreamed, hbuffered, hstream.ok_iff hsmooth,
    hbuffer.ok_iff hplain, fun unused body hunused hbody => ?_⟩
  obtain ⟨-, hnone, hall⟩ := hstream.streamed rfl unused hunused
  obtain ⟨-, -, hbytes⟩ := hbuffer.buffered rfl body hbody
  exact ⟨hnone, hall.trans hbytes.symm⟩

end Agreement

/-- Memory without end, and a callback that answers with `rc`. -/
def calmEnv (rc : ℤ) : DownloadEnv where
  alloc _ := true
  response := true
  readBuf := true
  onChunk := true
  answer _ := rc
  asks _ := 7
  curlCode _ := .recvError
  soupError _ := .other
  eventEnds _ := false

/-- A body in three pieces. -/
theorem downloads_agree_pieces :
    ∃ streamed buffered,
      libeventDownload ((calmEnv 0).streaming true) (.pieces 3) 9 (asciiBytes "abcdefgh".toList) =
        some streamed ∧
      libeventDownload ((calmEnv 0).streaming false) (.pieces 3) 9
        (asciiBytes "abcdefgh".toList) = some buffered ∧
      ∃ body, buffered.result = .ok body := by
  have hasks : ∀ b, 0 < (calmEnv 0).asks b := fun _ => Nat.succ_pos 6
  have hsmooth : ((calmEnv 0).streaming true).Smooth :=
    ⟨fun _ => rfl, rfl, rfl, fun _ _ => rfl⟩
  have hsrc := PullSource.pieces_holds (Nat.succ_pos 2) (asciiBytes "abcdefgh".toList)
  have hfuel : (asciiBytes "abcdefgh".toList).length < 9 := by decide
  obtain ⟨streamed, buffered, hstreamed, hbuffered, -, hok, -⟩ :=
    (downloads_agree hasks hsrc hfuel .libevent).2 hsmooth
  exact ⟨streamed, buffered, hstreamed, hbuffered, hok.mpr (.inr rfl)⟩

-- `http_chunked_cb` does not look at the error of the call before.
example : (libeventDownload (calmEnv 1) (.pieces 3) 9 (asciiBytes "abcdefgh".toList)).map
    (fun d => d.chunks.length) = some 3 := by
  decide

end AbstractHttp.Transport
