import AbstractHttp.EventStream.Conformance
import AbstractHttp.Library.PullStream
import AbstractHttp.Transport.LibuvRequest
import AbstractHttp.Transport.LibuvResponse

/-!
# Streamed uploads

Nine transports pull the body of a request from `read_chunk`. Three gather it in a block of their
own, three hand it to an object of the platform, two write it to the connection and one is called
back by its library. What they make of a callback that fails differs too.
-/
namespace AbstractHttp.Transport
open Library Outcome Http EventStream

/-- Which requests of `malloc` and `realloc` are granted, by size. -/
abbrev UploadAlloc := ℕ → Bool

/-- The body gathered so far, the number that the code keeps as its capacity, and the stores. -/
structure UploadBlock where
  bytes : List UInt8
  capacity : ℕ
  stores : List Extent

/-- Bytes at the end, stored in a block of `size` bytes. -/
def UploadBlock.append (t : UploadBlock) (items : List UInt8) (size : ℕ) : UploadBlock :=
  { t with
    bytes := t.bytes ++ items
    stores := t.stores ++ [⟨t.bytes.length, items.length, size⟩] }

/-- What becomes of an upload: the stores, the bytes handed on as the body, and the code with which
the request is given up, or 0. -/
structure Upload where
  stores : List Extent
  handed : List UInt8
  code : ℤ

/-- The body that goes with the request, if it is not given up. -/
def Upload.sent (o : Upload) : Option (List UInt8) := if o.code = 0 then some o.handed else none

/-- An upload that is given up, with what was handed on before. -/
def Upload.givenUp (stores : List Extent) (handed : List UInt8) (e : ErrorCode) : Upload :=
  ⟨stores, handed, e.value⟩

/-- The callback `read_chunk`, with the state behind its user data. -/
abbrev ReadChunk (σ : Type*) := PullSource σ UInt8

/-! The loops, each with what its transport does before and after it. -/

section Loops

variable {σ : Type*} (alloc : UploadAlloc) (expected : ℕ) (src : ReadChunk σ) (fuel : ℕ) (s : σ)

/-- The loop of `http_fetch_send`; the block has a byte more than `cap`. -/
def fetchSink : PullSink UploadBlock UInt8 ErrorCode where
  prepare t := .ok t
  room _ := 1024
  put t items :=
    if t.bytes.length + items.length > t.capacity then
      let cap := (t.bytes.length + items.length) * 2
      if alloc (cap + 1) then .ok ({ t with capacity := cap }.append items (cap + 1))
      else .error .nomem
    else .ok (t.append items (t.capacity + 1))

/-- The initial capacity of two of the loops. -/
def expectedOr (n : ℕ) : ℕ := if expected > 0 then expected else n

/-- `http_fetch_send`, which hands on a C string. -/
def fetchUpload : Option Upload :=
  let cap := expectedOr expected 4096
  if alloc (cap + 1) = false then some (.givenUp [] [] .nomem)
  else
    (pull src (fetchSink alloc) fuel s ⟨[], cap, []⟩).map fun
      | (t, .finished) =>
        ⟨t.stores ++ [⟨t.bytes.length, 1, t.capacity + 1⟩], cString (t.bytes ++ [0]), 0⟩
      | (t, .failed rc) => ⟨t.stores, [], rc⟩
      | (t, .refused e) => .givenUp t.stores [] e

/-- The loop of `http_wasm_send`, which has `read_chunk` write into the block. -/
def wasmSink : PullSink UploadBlock UInt8 ErrorCode where
  prepare t :=
    if t.bytes.length = t.capacity then
      if alloc (t.capacity * 2) then .ok { t with capacity := t.capacity * 2 } else .error .nomem
    else .ok t
  room t := t.capacity - t.bytes.length
  put t items := .ok (t.append items t.capacity)

/-- `http_wasm_send`, with an error of its own for every failure of the callback. -/
def wasmUpload : Option Upload :=
  let cap := expectedOr expected 4096
  if alloc cap = false then some (.givenUp [] [] .nomem)
  else
    (pull src (wasmSink alloc) fuel s ⟨[], cap, []⟩).map fun
      | (t, .finished) => ⟨t.stores, t.bytes, 0⟩
      | (t, .failed _) => ⟨t.stores, [], ecanceled⟩
      | (t, .refused e) => .givenUp t.stores [] e

/-- The loops that ask for `n` bytes and pass each piece to a call that may fail. -/
def passSink (n : ℕ) (passes : List UInt8 → List UInt8 → Bool) :
    PullSink (List UInt8) UInt8 ErrorCode where
  prepare t := .ok t
  room _ := n
  put t items := if passes t items then .ok (t ++ items) else .error .io

/-- `http_apple_send`, with the data object that `CFDataAppendBytes` appends to. -/
def appleUpload : Option Upload :=
  (pull src (passSink 8192 fun _ _ => true) fuel s []).map fun
    | (t, .finished) => ⟨[], t, 0⟩
    | (_, .failed rc) => ⟨[], [], rc⟩
    | (_, .refused e) => .givenUp [] [] e

/-- `http_libsoup3_send`, with the byte array of GLib. -/
def libsoupUpload : Option Upload :=
  (pull src (passSink 4096 fun _ _ => true) fuel s []).map fun
    | (t, .finished) => ⟨[], t, 0⟩
    | (_, .failed _) => .givenUp [] [] .io
    | (_, .refused e) => .givenUp [] [] e

/-- `http_winhttp_send`, which begins the request first, with the expected length as a `DWORD`, and
writes every piece at once; `writes` is whether `WinHttpWriteData` succeeds, given what was written
before. -/
def winhttpUpload (begins : ℕ → Bool) (writes : List UInt8 → List UInt8 → Bool) : Option Upload :=
  if begins (expected % 2 ^ 32) = false then some (.givenUp [] [] .io)
  else
    (pull src (passSink 8192 writes) fuel s []).map fun
      | (t, .finished) => ⟨[], t, 0⟩
      | (t, .failed rc) => ⟨[], t, rc⟩
      | (t, .refused e) => .givenUp [] t e

/-- `http_wininet_send`, which also has to end the request. -/
def wininetUpload (begins : ℕ → Bool) (ends : Bool) (writes : List UInt8 → List UInt8 → Bool) :
    Option Upload :=
  if begins (expected % 2 ^ 32) = false then some (.givenUp [] [] .io)
  else
    (pull src (passSink 8192 writes) fuel s []).map fun
      | (t, .finished) => if ends then ⟨[], t, 0⟩ else .givenUp [] t .io
      | (t, .failed rc) => ⟨[], t, rc⟩
      | (t, .refused e) => .givenUp [] t e

/-- The loop of `http_libevent_send`, with the pieces that `evbuffer_add` is called for. -/
def libeventSink : PullSink (List (List UInt8)) UInt8 ErrorCode where
  prepare t := .ok t
  room _ := 4096
  put t items := .ok (t ++ [items])

/-- What `evbuffer_add` takes; a piece that it refuses is left out. -/
def addedPieces (adds : List UInt8 → List UInt8 → Bool) (pieces : List (List UInt8)) :
    List UInt8 :=
  pieces.foldl (fun taken piece => if adds taken piece then taken ++ piece else taken) []

/-- `http_libevent_send`, for which a callback that fails has nothing more to give. -/
def libeventUpload (adds : List UInt8 → List UInt8 → Bool) : Option Upload :=
  (pull src libeventSink fuel s []).map fun
    | (t, .refused e) => .givenUp [] (addedPieces adds t) e
    | (t, _) => ⟨[], addedPieces adds t, 0⟩

/-- What `http_libuv_send` does with a piece. -/
def libuvAddPiece (alloc : UploadAlloc) (items : List UInt8) (b : RequestBuf) : BufOutcome :=
  (if b.text.length + items.length > b.capacity then
      b.grow (fun _ => alloc) ((b.text.length + items.length) * 2)
    else done b).andThen (RequestBuf.store items 0)

/-- The loop of `http_libuv_send`, behind the head of the request text. -/
def libuvSink : PullSink (RequestBuf × List Extent) UInt8 ErrorCode where
  prepare t := .ok t
  room _ := 4096
  put t items :=
    let o := libuvAddPiece alloc items t.1
    match o.failure with
    | some e => .error e
    | none => .ok (o.state, t.2 ++ o.output)

/-- `http_libuv_send`, for which a callback that fails has nothing more to give. -/
def libuvUpload (head : RequestBuf) : Option Upload :=
  (pull src (libuvSink alloc) fuel s (head, [])).map fun
    | (t, .refused e) => .givenUp t.2 [] e
    | (t, _) => ⟨t.2, t.1.text.drop head.text.length, 0⟩

/-- What libcurl does with an upload, by `CURLOPT_INFILESIZE_LARGE` and what it has read: how many
bytes it asks `CURLOPT_READFUNCTION` for, 0 for asking no more, and whether it takes what it has
read, once there is no more, as the whole upload. -/
structure CurlLibrary where
  asks : ℤ → List UInt8 → ℕ
  takes : ℤ → List UInt8 → Bool

/-- The methods for which the request is set up with `math_curl_read_callback`. -/
def curlReads : HttpMethod → Bool
  | .put | .post | .patch | .query => true
  | _ => false

/-- `CURLOPT_INFILESIZE_LARGE`: -1, or the expected length as a `curl_off_t`. -/
def curlAnnounced (expected : ℕ) : ℤ := if expected > 0 then (expected : ℤ).bmod (2 ^ 64) else -1

/-- libcurl calls `math_curl_read_callback` as long as it asks for more. -/
def curlSink (asks : List UInt8 → ℕ) : PullSink (List UInt8) UInt8 Unit where
  prepare t := if asks t = 0 then .error () else .ok t
  room t := asks t
  put t items := .ok (t ++ items)

/-- `http_curl_send`, for which an abort or an upload that is not whole fails the transfer, and
`map_curl_error` makes either an error of the library. Other methods upload nothing. -/
def curlUpload (method : HttpMethod) (curl : CurlLibrary) : Option Upload :=
  if alloc 1 = false then some (.givenUp [] [] .nomem)
  else if curlReads method then
    let announced := curlAnnounced expected
    (pull src (curlSink (curl.asks announced)) fuel s []).map fun
      | (t, .failed _) => .givenUp [] t .io
      | (t, _) => if curl.takes announced t then ⟨[], t, 0⟩ else .givenUp [] t .io
  else some ⟨[], [], 0⟩

end Loops

/-! What each sink keeps. -/

section Sinks

variable {alloc : UploadAlloc} {passes : List UInt8 → List UInt8 → Bool}

/-- The bytes fit, and so did every store. -/
structure UploadBlock.Sound (t : UploadBlock) : Prop where
  fits : t.bytes.length ≤ t.capacity
  stored : ∀ e ∈ t.stores, e.InBounds

theorem UploadBlock.Sound.append {t : UploadBlock} (h : t.Sound) {items : List UInt8}
    {cap size : ℕ} (hcap : t.bytes.length + items.length ≤ cap) (hsize : cap ≤ size) :
    ({ t with capacity := cap }.append items size : UploadBlock).Sound where
  fits := by simpa [UploadBlock.append] using hcap
  stored := by
    refine List.forall_mem_append.mpr ⟨h.stored, List.forall_mem_singleton.mpr ?_⟩
    rw [Extent.inBounds_iff]
    exact .inr (hcap.trans hsize)

theorem fetchSink_lawful (alloc : UploadAlloc) :
    (fetchSink alloc).Lawful UploadBlock.Sound UploadBlock.bytes where
  prepare := by
    rintro t t' ht ⟨⟩
    exact ⟨ht, rfl, Nat.succ_pos 1023⟩
  put := by
    intro t t' items ht _ hput
    simp only [fetchSink] at hput
    split_ifs at hput with hneed hgranted
    · cases hput
      exact ⟨ht.append (by omega) (Nat.le_succ _), rfl⟩
    · cases hput
      exact ⟨ht.append (not_lt.mp hneed) (Nat.le_succ _), rfl⟩

theorem wasmSink_lawful (alloc : UploadAlloc) :
    (wasmSink alloc).Lawful (fun t => t.Sound ∧ 0 < t.capacity) UploadBlock.bytes where
  prepare := by
    rintro t t' ⟨ht, hpos⟩ hready
    have hfits := ht.fits
    simp only [wasmSink] at hready
    split_ifs at hready with hfull hgranted
    · cases hready
      refine ⟨⟨⟨?_, ht.stored⟩, ?_⟩, rfl, ?_⟩
      · dsimp only
        omega
      · dsimp only
        omega
      · simp only [wasmSink]
        omega
    · cases hready
      refine ⟨⟨ht, hpos⟩, rfl, ?_⟩
      simp only [wasmSink]
      omega
  put := by
    rintro t t' items ⟨ht, hpos⟩ hroom ⟨⟩
    have hfits := ht.fits
    simp only [wasmSink] at hroom
    have hcap : t.bytes.length + items.length ≤ t.capacity := by omega
    exact ⟨⟨ht.append hcap le_rfl, hpos⟩, rfl⟩

theorem passSink_lawful {n : ℕ} (hn : 0 < n) (passes : List UInt8 → List UInt8 → Bool) :
    (passSink n passes).Lawful (fun _ => True) id where
  prepare := by
    rintro t t' - ⟨⟩
    exact ⟨trivial, rfl, hn⟩
  put := by
    intro t t' items _ _ hput
    simp only [passSink] at hput
    split_ifs at hput
    cases hput
    exact ⟨trivial, rfl⟩

theorem curlSink_lawful (asks : List UInt8 → ℕ) :
    (curlSink asks).Lawful (fun _ => True) id where
  prepare := by
    intro t t' _ hready
    simp only [curlSink] at hready
    split_ifs at hready with hasks
    cases hready
    exact ⟨trivial, rfl, Nat.pos_of_ne_zero hasks⟩
  put := by
    rintro t t' items - - ⟨⟩
    exact ⟨trivial, rfl⟩

theorem libeventSink_lawful : libeventSink.Lawful (fun _ => True) List.flatten where
  prepare := by
    rintro t t' - ⟨⟩
    exact ⟨trivial, rfl, Nat.succ_pos 4095⟩
  put := by
    rintro t t' items - - ⟨⟩
    exact ⟨trivial, by simp⟩

/-- The text begins with the head, and fits, and so did every store. -/
structure LibuvGathers (head : RequestBuf) (t : RequestBuf × List Extent) : Prop where
  head : head.text.length ≤ t.1.text.length
  fits : t.1.text.length ≤ t.1.capacity
  stored : ∀ e ∈ t.2, e.InBounds

theorem libuvSink_lawful (alloc : UploadAlloc) (head : RequestBuf) :
    (libuvSink alloc).Lawful (LibuvGathers head) fun t => t.1.text.drop head.text.length where
  prepare := by
    rintro t t' ht ⟨⟩
    exact ⟨ht, rfl, Nat.succ_pos 4095⟩
  put := by
    intro t t' items ht _ hput
    have hstore : ∀ cap, t.1.text.length + items.length ≤ cap →
        LibuvGathers head (⟨t.1.text ++ items, cap⟩,
          t.2 ++ [⟨t.1.text.length, items.length, cap⟩]) := by
      intro cap hcap
      refine ⟨?_, by simpa using hcap, ?_⟩
      · exact ht.head.trans (by simp)
      · refine List.forall_mem_append.mpr ⟨ht.stored, List.forall_mem_singleton.mpr ?_⟩
        rw [Extent.inBounds_iff]
        exact .inr hcap
    simp only [libuvSink, libuvAddPiece, RequestBuf.grow] at hput
    split_ifs at hput with hneed hgranted
    · cases hput
      exact ⟨hstore ((t.1.text.length + items.length) * 2) (by omega),
        List.drop_append_of_le_length ht.head⟩
    · cases hput
    · cases hput
      exact ⟨hstore _ (not_lt.mp hneed), List.drop_append_of_le_length ht.head⟩

/-- The loop over `read_chunk` adds its pieces as the request text does when it is given them. -/
theorem pull_libuvSink {σ : Type*} {src : ReadChunk σ} {fuel : ℕ} {s : σ}
    {t t' : RequestBuf × List Extent} {e : PullEnd ErrorCode}
    (h : pull src (libuvSink alloc) fuel s t = some (t', e)) (he : ∀ r, e ≠ .refused r) :
    ∃ chunks out, addChunks (fun _ => alloc) chunks t.1 = ⟨t'.1, out, none⟩ ∧
      t'.2 = t.2 ++ out := by
  induction fuel generalizing s t with
  | zero => cases h
  | succ fuel ih =>
    have hstop : ∀ e', some (t, e') = some (t', e) → ∃ chunks out,
        addChunks (fun _ => alloc) chunks t.1 = ⟨t'.1, out, none⟩ ∧ t'.2 = t.2 ++ out := by
      rintro e' ⟨⟩
      exact ⟨[], [], rfl, (List.append_nil _).symm⟩
    have hprepare : (libuvSink alloc).prepare t = .ok t := rfl
    have hroom : (libuvSink alloc).room t = 4096 := rfl
    rw [pull, hprepare] at h
    dsimp only at h
    rw [hroom] at h
    split_ifs at h with hcode hitems
    · exact hstop _ h
    · exact hstop _ h
    · have hcons : ∀ chunks, addChunks (fun _ => alloc) ((src.read s 4096).items :: chunks) t.1 =
          (libuvAddPiece alloc (src.read s 4096).items t.1).andThen
            (addChunks (fun _ => alloc) chunks) := fun chunks => by
        rw [addChunks, if_neg hitems]
        rfl
      cases hpiece : libuvAddPiece alloc (src.read s 4096).items t.1 with
      | mk state output failure =>
        cases failure with
        | some r =>
          have hput : (libuvSink alloc).put t (src.read s 4096).items = .error r := by
            simp only [libuvSink, hpiece]
          rw [hput] at h
          cases h
          exact absurd rfl (he r)
        | none =>
          have hput : (libuvSink alloc).put t (src.read s 4096).items =
              .ok (state, t.2 ++ output) := by
            simp only [libuvSink, hpiece]
          rw [hput] at h
          obtain ⟨chunks, out, hadd, hstores⟩ := ih h
          refine ⟨(src.read s 4096).items :: chunks, output ++ out, ?_, ?_⟩
          · rw [hcons, hpiece, andThen_of_none rfl, hadd]
          · rw [hstores, List.append_assoc]

end Sinks

/-! The nine transports side by side. -/

/-- The transports that read a body from `read_chunk`. -/
inductive UploadTransport where
  | fetch
  | wasm
  | apple
  | libsoup
  | winhttp
  | wininet
  | libevent
  | libuv
  | curl
  deriving DecidableEq, Repr

/-- What an upload meets: the memory, the method and the expected length of the request, the head of
a request text, what the calls of the platforms give, and libcurl. -/
structure UploadEnv where
  alloc : UploadAlloc
  method : HttpMethod
  expected : ℕ
  head : RequestBuf
  begins : ℕ → Bool
  ends : Bool
  passes : List UInt8 → List UInt8 → Bool
  curl : CurlLibrary

/-- The head fits, the expected length is a `curl_off_t`, and libcurl asks for more until it has
what was announced, or, where nothing was, until there is no more. -/
structure UploadEnv.Proper (env : UploadEnv) : Prop where
  head : env.head.text.length ≤ env.head.capacity
  expected : env.expected < 2 ^ 63
  asks : ∀ n t, n = -1 ∨ (t.length : ℤ) < n → 0 < env.curl.asks n t

/-- Where the request expects a length, the callback gives no more than that, and no less unless it
fails. -/
def UploadEnv.Announces (env : UploadEnv) (code : ℤ) (bytes : List UInt8) : Prop :=
  0 < env.expected →
    bytes.length ≤ env.expected ∧ (code = 0 → bytes.length = env.expected)

/-- There is memory, no call of a platform fails, and libcurl takes an upload of the announced
length, or of any where none was announced. -/
structure UploadEnv.Smooth (env : UploadEnv) : Prop where
  alloc : ∀ n, env.alloc n = true
  begins : ∀ n, env.begins n = true
  ends : env.ends = true
  passes : ∀ t items, env.passes t items = true
  takes : ∀ n t, n = -1 ∨ n = (t.length : ℤ) → env.curl.takes n t = true

section Agreement

variable {σ : Type*}

def UploadTransport.upload (env : UploadEnv) (src : ReadChunk σ) (fuel : ℕ) (s : σ) :
    UploadTransport → Option Upload
  | .fetch => fetchUpload env.alloc env.expected src fuel s
  | .wasm => wasmUpload env.alloc env.expected src fuel s
  | .apple => appleUpload src fuel s
  | .libsoup => libsoupUpload src fuel s
  | .winhttp => winhttpUpload env.expected src fuel s env.begins env.passes
  | .wininet => wininetUpload env.expected src fuel s env.begins env.ends env.passes
  | .libevent => libeventUpload src fuel s env.passes
  | .libuv => libuvUpload env.alloc src fuel s env.head
  | .curl => curlUpload env.alloc env.expected src fuel s env.method env.curl

/-- A body, unless the callback fails. -/
def unlessFailed (code : ℤ) (body : List UInt8) : Option (List UInt8) :=
  if code = 0 then some body else none

/-- The body that a transport sends of these bytes, behind which the callback ends with `code`. A
libcurl that has what was announced may never come to that end. -/
def UploadTransport.sends (env : UploadEnv) (code : ℤ) (bytes : List UInt8) :
    UploadTransport → Option (List UInt8)
  | .fetch => unlessFailed code (cString bytes)
  | .libevent | .libuv => some bytes
  | .curl =>
    if curlReads env.method then
      if env.curl.asks (curlAnnounced env.expected) bytes = 0 then some bytes
      else unlessFailed code bytes
    else some []
  | _ => unlessFailed code bytes

/-- An upload comes to an end with its stores in bounds. It sends what it should, unless memory or a
platform fails; then it is given up, or pieces are missing. -/
def Uploads (smooth pieces : Prop) (should : Option (List UInt8)) (r : Option Upload) : Prop :=
  ∃ o, r = some o ∧ (∀ e ∈ o.stores, e.InBounds) ∧
    (o.sent = should ∨ ¬ smooth ∧ (o.sent = none ∨ pieces))

section Each

variable {env : UploadEnv} {src : ReadChunk σ} {code : ℤ} {fuel : ℕ} {s : σ} {bytes : List UInt8}

theorem Upload.sent_givenUp (stores : List Extent) (handed : List UInt8) (e : ErrorCode) :
    (Upload.givenUp stores handed e).sent = none := if_neg e.value_ne_zero

theorem uploads_givenUp {smooth pieces : Prop} {should : Option (List UInt8)}
    {stores : List Extent} {handed : List UInt8} {e : ErrorCode}
    (hstores : ∀ e ∈ stores, e.InBounds) (h : should = none ∨ ¬ smooth) :
    Uploads smooth pieces should (some (.givenUp stores handed e)) := by
  refine ⟨_, rfl, hstores, ?_⟩
  rw [Upload.sent_givenUp]
  rcases h with rfl | hrough
  · exact .inl rfl
  · exact .inr ⟨hrough, .inl rfl⟩

theorem uploads_failed {smooth pieces : Prop} {stores : List Extent}
    {handed : List UInt8} {rc : ℤ} (hrc : rc ≠ 0) (hstores : ∀ e ∈ stores, e.InBounds) :
    Uploads smooth pieces none (some ⟨stores, handed, rc⟩) :=
  ⟨_, rfl, hstores, .inl (if_neg hrc)⟩

theorem uploads_sent {smooth pieces : Prop} {stores : List Extent}
    {handed : List UInt8} (hstores : ∀ e ∈ stores, e.InBounds) :
    Uploads smooth pieces (some handed) (some ⟨stores, handed, 0⟩) :=
  ⟨_, rfl, hstores, .inl (if_pos rfl)⟩

theorem fetchSink_granting (h : env.Smooth) : (fetchSink env.alloc).Granting where
  prepare t e := by simp [fetchSink]
  put t items e := by
    simp only [fetchSink, h.alloc, if_true]
    split <;> simp

theorem wasmSink_granting (h : env.Smooth) : (wasmSink env.alloc).Granting where
  prepare t e := by
    simp only [wasmSink, h.alloc, if_true]
    split <;> simp
  put t items e := by simp [wasmSink]

theorem passSink_granting {passes : List UInt8 → List UInt8 → Bool}
    (h : ∀ t items, passes t items = true) (n : ℕ) : (passSink n passes).Granting where
  prepare t e := by simp [passSink]
  put t items e := by simp [passSink, h]

theorem libeventSink_granting : libeventSink.Granting where
  prepare t e := by simp [libeventSink]
  put t items e := by simp [libeventSink]

theorem libuvSink_granting (h : env.Smooth) : (libuvSink env.alloc).Granting where
  prepare t e := by simp [libuvSink]
  put t items e := by
    simp only [libuvSink, libuvAddPiece, RequestBuf.grow, h.alloc, if_true]
    split_ifs <;> simp [RequestBuf.store]

theorem cString_concat_nul (bytes : List UInt8) : cString (bytes ++ [0]) = cString bytes := by
  rw [cString, cString, List.takeWhile_append]
  split_ifs with hall
  · rw [List.takeWhile_cons_of_neg (by simp), List.append_nil]
    exact ((List.takeWhile_prefix _).eq_of_length hall).symm
  · rfl

theorem fetchUpload_uploads (hsrc : src.Holds code s bytes) (hfuel : bytes.length < fuel) :
    Uploads env.Smooth False (UploadTransport.fetch.sends env code bytes)
      (fetchUpload env.alloc env.expected src fuel s) := by
  rw [fetchUpload]
  split_ifs with hrefused
  · exact uploads_givenUp (by simp) (.inr fun h => by simp [h.alloc] at hrefused)
  · refine (pull_result (fetchSink_lawful env.alloc) hsrc
      (t := ⟨[], expectedOr env.expected 4096, []⟩) ⟨Nat.zero_le _, by simp⟩ hfuel).map ?_ ?_ ?_
    · intro t hcode ht hview
      have hnul : ∀ e ∈ t.stores ++ [⟨t.bytes.length, 1, t.capacity + 1⟩], e.InBounds := by
        refine List.forall_mem_append.mpr ⟨ht.stored, List.forall_mem_singleton.mpr ?_⟩
        rw [Extent.inBounds_iff]
        exact .inr (Nat.succ_le_succ ht.fits)
      have hbytes : t.bytes = bytes := hview
      rw [UploadTransport.sends, unlessFailed, if_pos hcode, ← hbytes, ← cString_concat_nul]
      exact uploads_sent hnul
    · intro t hcode ht hview
      rw [UploadTransport.sends, unlessFailed, if_neg hcode]
      exact uploads_failed hcode ht.stored
    · intro t e hwhy ht
      exact uploads_givenUp ht.stored (.inr fun h => (fetchSink_granting h).not_refuses e hwhy)

theorem wasmUpload_uploads (hsrc : src.Holds code s bytes) (hfuel : bytes.length < fuel) :
    Uploads env.Smooth False (UploadTransport.wasm.sends env code bytes)
      (wasmUpload env.alloc env.expected src fuel s) := by
  have hpos : 0 < expectedOr env.expected 4096 := by
    rw [expectedOr]
    split_ifs <;> omega
  change Uploads _ _ (unlessFailed code bytes) _
  rw [wasmUpload]
  split_ifs with hrefused
  · exact uploads_givenUp (by simp) (.inr fun h => by simp [h.alloc] at hrefused)
  · refine (pull_result (wasmSink_lawful env.alloc) hsrc
      (t := ⟨[], expectedOr env.expected 4096, []⟩) ⟨⟨Nat.zero_le _, by simp⟩, hpos⟩
      hfuel).map ?_ ?_ ?_
    · intro t hcode ht hview
      have hbytes : t.bytes = bytes := hview
      rw [unlessFailed, if_pos hcode, ← hbytes]
      exact uploads_sent ht.1.stored
    · intro t hcode ht hview
      rw [unlessFailed, if_neg hcode]
      exact uploads_failed (by decide) ht.1.stored
    · intro t e hwhy ht
      exact uploads_givenUp ht.1.stored (.inr fun h => (wasmSink_granting h).not_refuses e hwhy)

/-- The loops over an object of the platform, or a connection: the pieces that were passed on are
the body, and a failure gives the request up. -/
theorem passed_uploads {smooth : Prop} {passes : List UInt8 → List UInt8 → Bool}
    (hpasses : smooth → ∀ t items, passes t items = true) {n : ℕ} (hn : 0 < n)
    {f : List UInt8 × PullEnd ErrorCode → Upload}
    (hfinished : Uploads smooth False (some bytes) (some (f (bytes, .finished))))
    (hfailed : code ≠ 0 → Uploads smooth False none (some (f (bytes, .failed code))))
    (hrefused : ∀ t e, ¬ smooth →
      Uploads smooth False (unlessFailed code bytes) (some (f (t, .refused e))))
    (hsrc : src.Holds code s bytes) (hfuel : bytes.length < fuel) :
    Uploads smooth False (unlessFailed code bytes)
      ((pull src (passSink n passes) fuel s []).map f) := by
  refine (pull_result (passSink_lawful hn passes) hsrc (t := []) trivial hfuel).map ?_ ?_ ?_
  · intro t hcode ht hview
    obtain rfl : t = bytes := hview
    rw [unlessFailed, if_pos hcode]
    exact hfinished
  · intro t hcode ht hview
    obtain rfl : t = bytes := hview
    rw [unlessFailed, if_neg hcode]
    exact hfailed hcode
  · intro t e hwhy ht
    exact hrefused t e fun h => (passSink_granting (hpasses h) n).not_refuses e hwhy

theorem appleUpload_uploads (hsrc : src.Holds code s bytes) (hfuel : bytes.length < fuel) :
    Uploads env.Smooth False (UploadTransport.apple.sends env code bytes)
      (appleUpload src fuel s) :=
  passed_uploads (fun _ _ _ => rfl) (Nat.succ_pos 8191) (uploads_sent (by simp))
    (fun hcode => uploads_failed hcode (by simp))
    (fun _ _ hrough => uploads_givenUp (by simp) (.inr hrough)) hsrc hfuel

theorem libsoupUpload_uploads (hsrc : src.Holds code s bytes) (hfuel : bytes.length < fuel) :
    Uploads env.Smooth False (UploadTransport.libsoup.sends env code bytes)
      (libsoupUpload src fuel s) :=
  passed_uploads (fun _ _ _ => rfl) (Nat.succ_pos 4095) (uploads_sent (by simp))
    (fun _ => uploads_givenUp (by simp) (.inl rfl))
    (fun _ _ hrough => uploads_givenUp (by simp) (.inr hrough)) hsrc hfuel

theorem winhttpUpload_uploads (hsrc : src.Holds code s bytes) (hfuel : bytes.length < fuel) :
    Uploads env.Smooth False (UploadTransport.winhttp.sends env code bytes)
      (winhttpUpload env.expected src fuel s env.begins env.passes) := by
  rw [winhttpUpload]
  split_ifs with hbegins
  · exact uploads_givenUp (by simp) (.inr fun h => by simp [h.begins] at hbegins)
  · exact passed_uploads UploadEnv.Smooth.passes (Nat.succ_pos 8191)
      (uploads_sent (by simp)) (fun hcode => uploads_failed hcode (by simp))
      (fun _ _ hrough => uploads_givenUp (by simp) (.inr hrough)) hsrc hfuel

theorem wininetUpload_uploads (hsrc : src.Holds code s bytes) (hfuel : bytes.length < fuel) :
    Uploads env.Smooth False (UploadTransport.wininet.sends env code bytes)
      (wininetUpload env.expected src fuel s env.begins env.ends env.passes) := by
  rw [wininetUpload]
  by_cases hbegins : env.begins (env.expected % 2 ^ 32) = false
  · rw [if_pos hbegins]
    exact uploads_givenUp (by simp) (.inr fun h => by simp [h.begins] at hbegins)
  · rw [if_neg hbegins]
    refine passed_uploads UploadEnv.Smooth.passes (Nat.succ_pos 8191) ?_
      (fun hcode => uploads_failed hcode (by simp))
      (fun _ _ hrough => uploads_givenUp (by simp) (.inr hrough)) hsrc hfuel
    dsimp only
    split_ifs with hends
    · exact uploads_sent (by simp)
    · exact uploads_givenUp (by simp) (.inr fun h => hends h.ends)

theorem curlAnnounced_eq (hproper : env.Proper) :
    env.expected = 0 ∧ curlAnnounced env.expected = -1 ∨
      0 < env.expected ∧ curlAnnounced env.expected = (env.expected : ℤ) := by
  have hless := hproper.expected
  rcases Nat.eq_zero_or_pos env.expected with hzero | hpos
  · exact .inl ⟨hzero, by rw [hzero]; rfl⟩
  · refine .inr ⟨hpos, ?_⟩
    rw [curlAnnounced, if_pos hpos]
    exact Int.bmod_eq_of_le (by omega) (by omega)

/-- A libcurl that asks no more of a callback that keeps to the announced length has it all. -/
theorem whole_of_not_asked (hproper : env.Proper) (hannounces : env.Announces code bytes)
    {t : List UInt8} (ht : t <+: bytes)
    (hasks : env.curl.asks (curlAnnounced env.expected) t = 0) :
    t = bytes ∧ curlAnnounced env.expected = (t.length : ℤ) := by
  have hnot := mt (hproper.asks (curlAnnounced env.expected) t) (by omega)
  rw [not_or, not_lt] at hnot
  rcases curlAnnounced_eq hproper with ⟨-, hnone⟩ | ⟨hpos, hlength⟩
  · exact absurd hnone hnot.1
  · have hall := (hannounces hpos).1
    have hlong := hnot.2
    have hshort := ht.length_le
    rw [hlength] at hlong
    exact ⟨ht.eq_of_length_le (by omega), by omega⟩

/-- Of a callback that comes to its end as announced, libcurl has what was announced. -/
theorem whole_of_finished (hproper : env.Proper) (hannounces : env.Announces code bytes)
    (hcode : code = 0) :
    curlAnnounced env.expected = -1 ∨ curlAnnounced env.expected = (bytes.length : ℤ) := by
  rcases curlAnnounced_eq hproper with ⟨-, hnone⟩ | ⟨hpos, hlength⟩
  · exact .inl hnone
  · rw [hlength, (hannounces hpos).2 hcode]
    exact .inr rfl

theorem uploads_taken {n : ℤ} (hwhole : n = -1 ∨ n = (bytes.length : ℤ)) :
    Uploads env.Smooth False (some bytes)
      (some (if env.curl.takes n bytes then ⟨[], bytes, 0⟩ else .givenUp [] bytes .io)) := by
  split_ifs with htakes
  · exact uploads_sent (by simp)
  · exact uploads_givenUp (by simp) (.inr fun h => htakes (h.takes n bytes hwhole))

theorem curlPull_uploads (hproper : env.Proper) (hannounces : env.Announces code bytes)
    (hsrc : src.Holds code s bytes) (hfuel : bytes.length < fuel) :
    let n := curlAnnounced env.expected
    Uploads env.Smooth False
      (if env.curl.asks n bytes = 0 then some bytes else unlessFailed code bytes)
      ((pull src (curlSink (env.curl.asks n)) fuel s []).map fun
        | (t, .failed _) => .givenUp [] t .io
        | (t, _) => if env.curl.takes n t then ⟨[], t, 0⟩ else .givenUp [] t .io) := by
  intro n
  have hend := pull_result (curlSink_lawful (env.curl.asks n)) hsrc (t := []) trivial hfuel
  generalize hpull : pull src (curlSink (env.curl.asks n)) fuel s [] = r at hend ⊢
  cases hend with
  | @finished t hcode _ hview =>
    obtain rfl : t = bytes := hview
    rw [unlessFailed, if_pos hcode, ite_self]
    exact uploads_taken (whole_of_finished hproper hannounces hcode)
  | @failed t hcode _ hview =>
    obtain rfl : t = bytes := hview
    -- the callback was called for its end, so libcurl still asked
    obtain ⟨t', hready⟩ := pull_prepared hpull (by simp)
    have hasked : env.curl.asks n t ≠ 0 := by
      simp only [curlSink] at hready
      split_ifs at hready with hasks
      cases hready
      exact hasks
    rw [if_neg hasked, unlessFailed, if_neg hcode]
    exact uploads_givenUp (by simp) (.inl rfl)
  | @refused t _ _ hwhy =>
    have hstopped : t <+: bytes ∧ env.curl.asks n t = 0 := by
      simpa [PullSink.Refuses, curlSink] using hwhy
    obtain ⟨rfl, hlength⟩ := whole_of_not_asked hproper hannounces hstopped.1 hstopped.2
    rw [if_pos hstopped.2]
    exact uploads_taken (.inr hlength)

theorem curlUpload_uploads (hproper : env.Proper) (hannounces : env.Announces code bytes)
    (hsrc : src.Holds code s bytes) (hfuel : bytes.length < fuel) :
    Uploads env.Smooth False (UploadTransport.curl.sends env code bytes)
      (curlUpload env.alloc env.expected src fuel s env.method env.curl) := by
  rw [curlUpload, UploadTransport.sends]
  by_cases hrefused : env.alloc 1 = false
  · rw [if_pos hrefused]
    exact uploads_givenUp (by simp) (.inr fun h => by simp [h.alloc] at hrefused)
  · rw [if_neg hrefused]
    by_cases hreads : curlReads env.method
    · rw [if_pos hreads, if_pos hreads]
      exact curlPull_uploads hproper hannounces hsrc hfuel
    · rw [if_neg hreads, if_neg hreads]
      exact uploads_sent (by simp)

theorem addedPieces_eq {adds : List UInt8 → List UInt8 → Bool}
    (hadds : ∀ t items, adds t items = true) (pieces : List (List UInt8)) :
    addedPieces adds pieces = pieces.flatten := by
  have hfold : ∀ taken, pieces.foldl
      (fun taken piece => if adds taken piece then taken ++ piece else taken) taken =
        taken ++ pieces.flatten := by
    induction pieces with
    | nil => simp
    | cons piece pieces ih =>
      intro taken
      rw [List.foldl_cons, hadds, if_pos rfl, ih, List.flatten_cons, List.append_assoc]
  exact hfold []

theorem libeventUpload_uploads (hsrc : src.Holds code s bytes) (hfuel : bytes.length < fuel) :
    Uploads env.Smooth True (UploadTransport.libevent.sends env code bytes)
      (libeventUpload src fuel s env.passes) := by
  have hsent : ∀ t : List (List UInt8), t.flatten = bytes →
      Uploads env.Smooth True (some bytes) (some ⟨[], addedPieces env.passes t, 0⟩) := by
    intro t hview
    refine ⟨_, rfl, by simp, ?_⟩
    by_cases hsmooth : env.Smooth
    · rw [addedPieces_eq hsmooth.passes, hview]
      exact .inl (if_pos rfl)
    · exact .inr ⟨hsmooth, .inr trivial⟩
  refine (pull_result libeventSink_lawful hsrc (t := []) trivial hfuel).map ?_ ?_ ?_
  · exact fun t _ _ hview => hsent t hview
  · exact fun t _ _ hview => hsent t hview
  · exact fun t e hwhy _ => absurd hwhy (libeventSink_granting.not_refuses e)

theorem libuvUpload_uploads (hproper : env.Proper) (hsrc : src.Holds code s bytes)
    (hfuel : bytes.length < fuel) :
    Uploads env.Smooth False (UploadTransport.libuv.sends env code bytes)
      (libuvUpload env.alloc src fuel s env.head) := by
  have hsent : ∀ t : RequestBuf × List Extent, LibuvGathers env.head t →
      t.1.text.drop env.head.text.length = [] ++ bytes →
      Uploads env.Smooth False (some bytes)
        (some ⟨t.2, t.1.text.drop env.head.text.length, 0⟩) := by
    intro t ht hview
    rw [hview]
    exact uploads_sent ht.stored
  have hstart := pull_result (libuvSink_lawful env.alloc env.head) hsrc
    (t := (env.head, [])) ⟨le_rfl, hproper.head, by simp⟩ hfuel
  rw [List.drop_length] at hstart
  refine hstart.map ?_ ?_ ?_
  · exact fun t _ ht hview => hsent t ht hview
  · exact fun t _ ht hview => hsent t ht hview
  · exact fun t e hwhy ht => uploads_givenUp ht.stored
      (.inr fun h => (libuvSink_granting h).not_refuses e hwhy)

end Each

theorem Uploads.imp {smooth pieces pieces' : Prop} {should : Option (List UInt8)}
    {r : Option Upload} (h : Uploads smooth pieces should r) (hpieces : pieces → pieces') :
    Uploads smooth pieces' should r := by
  obtain ⟨o, hr, hstores, hsent⟩ := h
  exact ⟨o, hr, hstores, hsent.imp_right fun h => h.imp_right fun h => h.imp_right hpieces⟩

theorem Uploads.smooth {smooth pieces : Prop} {should : Option (List UInt8)}
    {r : Option Upload} (h : Uploads smooth pieces should r) (hsmooth : smooth) :
    r.map Upload.sent = some should := by
  obtain ⟨o, rfl, -, hsent⟩ := h
  exact congrArg some (hsent.resolve_right fun hrough => hrough.1 hsmooth)

/-- Every transport reads a callback to its end, and makes of it what `sends` says. -/
theorem upload_uploads {env : UploadEnv} (hproper : env.Proper) {src : ReadChunk σ} {code : ℤ}
    {s : σ} {bytes : List UInt8} (hannounces : env.Announces code bytes)
    (hsrc : src.Holds code s bytes) {fuel : ℕ} (hfuel : bytes.length < fuel)
    (t : UploadTransport) :
    Uploads env.Smooth (t = .libevent) (t.sends env code bytes) (t.upload env src fuel s) := by
  cases t with
  | fetch => exact (fetchUpload_uploads hsrc hfuel).imp False.elim
  | wasm => exact (wasmUpload_uploads hsrc hfuel).imp False.elim
  | apple => exact (appleUpload_uploads hsrc hfuel).imp False.elim
  | libsoup => exact (libsoupUpload_uploads hsrc hfuel).imp False.elim
  | winhttp => exact (winhttpUpload_uploads hsrc hfuel).imp False.elim
  | wininet => exact (wininetUpload_uploads hsrc hfuel).imp False.elim
  | libevent => exact (libeventUpload_uploads hsrc hfuel).imp fun _ => rfl
  | libuv => exact (libuvUpload_uploads hproper hsrc hfuel).imp False.elim
  | curl => exact (curlUpload_uploads hproper hannounces hsrc hfuel).imp False.elim

theorem sends_agree_iff (env : UploadEnv) (code : ℤ) (bytes : List UInt8) :
    (∃ body, ∀ t : UploadTransport, t.sends env code bytes = body) ↔
      code = 0 ∧ 0 ∉ bytes ∧ (curlReads env.method ∨ bytes = []) := by
  constructor
  · rintro ⟨body, hbody⟩
    have hfetch : unlessFailed code (cString bytes) = some bytes :=
      (hbody .fetch).trans (hbody .libuv).symm
    have hcurl : UploadTransport.curl.sends env code bytes = some bytes :=
      (hbody .curl).trans (hbody .libuv).symm
    rw [unlessFailed] at hfetch
    split_ifs at hfetch with hcode
    refine ⟨hcode, cString_eq_self_iff.mp (Option.some.inj hfetch), ?_⟩
    by_cases hreads : curlReads env.method
    · exact .inl hreads
    · rw [UploadTransport.sends, if_neg hreads] at hcurl
      exact .inr (Option.some.inj hcurl).symm
  · rintro ⟨rfl, hnul, hmethod⟩
    refine ⟨some bytes, fun t => ?_⟩
    cases t with
    | fetch => exact congrArg some (cString_eq_self_iff.mpr hnul)
    | curl =>
      rw [UploadTransport.sends, unlessFailed, if_pos rfl, ite_self]
      split_ifs with hreads
      · rfl
      · rw [hmethod.resolve_left hreads]
    | _ => rfl

/-- A `PUT` of 8 bytes with memory without end, a request text of its head `h` alone, and a libcurl
that asks for at most 7 bytes and for none beyond the announced length. -/
def smoothEnv : UploadEnv where
  alloc _ := true
  method := .put
  expected := 8
  head := ⟨asciiBytes ['h'], 4⟩
  begins _ := true
  ends := true
  passes _ _ := true
  curl :=
    { asks := fun n t => if n = -1 then 7 else min 7 (n - t.length).toNat
      takes := fun n t => n = -1 ∨ n = t.length }

theorem smoothEnv_proper : smoothEnv.Proper where
  head := by decide
  expected := by
    change 8 < 2 ^ 63
    norm_num
  asks n t h := by
    change 0 < if n = -1 then 7 else min 7 (n - t.length).toNat
    split_ifs with hnone
    · exact Nat.succ_pos 6
    · have hless := h.resolve_left hnone
      omega

theorem smoothEnv_smooth : smoothEnv.Smooth where
  alloc _ := rfl
  begins _ := rfl
  ends := rfl
  passes _ _ := rfl
  takes _ _ h := decide_eq_true h

end Agreement

end AbstractHttp.Transport
