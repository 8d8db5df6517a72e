import AbstractHttp.Transport.RawRequest

/-!
# The request text of the libuv transport

`http_libuv_send` prints the request line into 4096 bytes, grows the block before a
header line that would leave it and before a body or a streamed chunk, and prints the
length line and the empty line into what there is.
-/
namespace AbstractHttp.Transport
open Library Outcome Http EventStream

/-- `get_method_str`. -/
def getMethodStr : HttpMethod → Except ErrorCode (List UInt8)
  | .get => .ok (asciiBytes "GET".toList)
  | .post => .ok (asciiBytes "POST".toList)
  | .put => .ok (asciiBytes "PUT".toList)
  | .delete => .ok (asciiBytes "DELETE".toList)
  | .patch => .ok (asciiBytes "PATCH".toList)
  | .head => .ok (asciiBytes "HEAD".toList)
  | .options => .ok (asciiBytes "OPTIONS".toList)
  | .trace => .ok (asciiBytes "TRACE".toList)
  | .query => .ok (asciiBytes "QUERY".toList)
  | .connect => .ok (asciiBytes "CONNECT".toList)
  | .other _ _ => .error .inval

/-- `%d`. -/
def decimalInt (n : ℤ) : List UInt8 :=
  if n < 0 then 0x2D :: decimal n.natAbs else decimal n.natAbs

/-- `"%s %s HTTP/1.1\r\nHost: %s:%d\r\nConnection: close\r\n"`. -/
def libuvRequestLine (method : List UInt8) (url : UrlParts) : List UInt8 :=
  method ++ [space] ++ url.path ++ asciiBytes " HTTP/1.1".toList ++ crlf ++
    asciiBytes "Host: ".toList ++ url.host ++ [colon] ++ decimalInt url.port ++ crlf ++
      asciiBytes "Connection: close".toList ++ crlf

/-- The number in the length line, if there is such a line. -/
def libuvLength (req : HttpRequest) : Option ℕ :=
  if req.readChunk = true ∧ req.expectedBodyLen > 0 then some req.expectedBodyLen
  else if req.bodyLen > 0 then some req.bodyLen
  else none

/-- `"Content-Length: %lu\r\n"`. -/
def libuvLengthLine (n : ℕ) : List UInt8 :=
  asciiBytes "Content-Length: ".toList ++ decimal n ++ crlf

def libuvTooSmall (need capacity : ℕ) : Bool := need > capacity

/-- The length line and the empty line. -/
def libuvEndHead (req : HttpRequest) (b : RequestBuf) : BufOutcome :=
  (match libuvLength req with
    | some n => b.store (libuvLengthLine n) 1
    | none => done b).andThen (RequestBuf.store crlf 1)

/-- The loop over what successive successful calls of `read_chunk` return, up to an empty one. -/
def addChunks (alloc : RequestAlloc) : List (List UInt8) → RequestBuf → BufOutcome
  | [], b => done b
  | chunk :: chunks, b =>
    if chunk = [] then done b
    else
      ((if b.text.length + chunk.length > b.capacity then
          b.grow alloc ((b.text.length + chunk.length) * 2)
        else done b).andThen (RequestBuf.store chunk 0)).andThen (addChunks alloc chunks)

/-- The body, or else the streamed chunks. -/
def libuvAddBody (alloc : RequestAlloc) (req : HttpRequest) (chunks : List (List UInt8))
    (b : RequestBuf) : BufOutcome :=
  match sentBody req with
  | some body =>
    (if b.text.length + req.bodyLen > b.capacity then
        b.grow alloc (b.text.length + req.bodyLen + 1)
      else done b).andThen (RequestBuf.store body 0)
  | none => if req.readChunk then addChunks alloc chunks b else done b

def libuvCapacity : ℕ := 4096

def libuvBuild (alloc : RequestAlloc) (req : HttpRequest) (chunks : List (List UInt8))
    (method : List UInt8) (url : UrlParts) : BufOutcome :=
  ((startRequest libuvTooSmall alloc libuvCapacity (libuvRequestLine method url)
    req.headers.headers).andThen (libuvEndHead req)).andThen (libuvAddBody alloc req chunks)

/-- The request construction of `http_libuv_send`; `chunks` is what `read_chunk` returns while it
returns 0. -/
def libuvRequest (alloc : RequestAlloc) (req : HttpRequest) (chunks : List (List UInt8)) :
    BufOutcome :=
  if req.partsCount > 0 ∧ req.body = none then fail ⟨[], 0⟩ [] .inval
  else
    match libuvParseUrl alloc req.url with
    | .error _ => fail ⟨[], 0⟩ [] .inval
    | .ok url =>
      match getMethodStr req.method with
      | .error e => fail ⟨[], 0⟩ [] e
      | .ok method => libuvBuild alloc req chunks method url

/-- The request line, every header line and the end of the head fit, each with its NUL. -/
def LibuvFits (req : HttpRequest) (method : List UInt8) (url : UrlParts) : Prop :=
  let start := (libuvRequestLine method url).length
  let len := start + (headerLines req.headers.headers).length
  start + 1 ≤ libuvCapacity ∧ LinesFit libuvTooSmall libuvCapacity start req.headers.headers ∧
    len + (((libuvLength req).map libuvLengthLine).getD []).length + 3 ≤ roundUp libuvCapacity len

theorem libuvParseUrl_of_ok {alloc : RequestAlloc} {str : Option CString} {url : UrlParts}
    (h : libuvParseUrl alloc str = .ok url) : libuvParseUrl grantRequest str = .ok url := by
  cases str with
  | none => cases h
  | some s =>
    simp only [libuvParseUrl] at h ⊢
    cases hcut : cutScheme s.bytes with
    | none =>
      simp only [hcut] at h ⊢
      exact copyParts_cutShort h
    | some cut =>
      simp only [hcut] at h ⊢
      exact copyParts_cutShort h

section Bounds
variable {alloc : RequestAlloc} {req : HttpRequest} {chunks : List (List UInt8)}
  {method : List UInt8} {url : UrlParts}

theorem addChunks_cutShort (b : RequestBuf) :
    CutShort (addChunks alloc chunks b) (addChunks grantRequest chunks b) := by
  induction chunks generalizing b with
  | nil => exact .refl _
  | cons chunk chunks ih =>
    rw [addChunks, addChunks]
    split
    · exact .refl _
    · refine (CutShort.andThen ?_ fun b => .refl _).andThen ih
      split
      · exact grow_cutShort b _
      · exact .refl _

theorem libuvAddBody_cutShort (b : RequestBuf) :
    CutShort (libuvAddBody alloc req chunks b) (libuvAddBody grantRequest req chunks b) := by
  rw [libuvAddBody, libuvAddBody]
  cases sentBody req with
  | some body =>
    refine CutShort.andThen ?_ fun b => .refl _
    split
    · exact grow_cutShort b _
    · exact .refl _
  | none =>
    dsimp only
    split
    · exact addChunks_cutShort b
    · exact .refl _

theorem libuvBuild_cutShort :
    CutShort (libuvBuild alloc req chunks method url)
      (libuvBuild grantRequest req chunks method url) :=
  (startRequest_cutShort.andThen fun _ => .refl _).andThen fun b => libuvAddBody_cutShort b

/-- A store without NUL behind a check that grows the block. -/
theorem store_after_growth {piece : List UInt8} {need newCap : ℕ} (b : RequestBuf)
    (hneed : b.text.length + piece.length ≤ need) (hcap : need ≤ newCap) :
    StoresInBounds ((if need > b.capacity then b.grow grantRequest newCap else done b).andThen
      (RequestBuf.store piece 0)) := by
  intro e he
  rw [Extent.inBounds_iff]
  split at he
  · simp only [RequestBuf.grow, grantRequest, if_true, done_andThen, RequestBuf.store,
      List.mem_singleton] at he
    exact Or.inr (by rw [he]; dsimp only; omega)
  · simp only [done_andThen, RequestBuf.store, List.mem_singleton] at he
    exact Or.inr (by rw [he]; dsimp only; omega)

theorem addChunks_inBounds (b : RequestBuf) : StoresInBounds (addChunks grantRequest chunks b) := by
  induction chunks generalizing b with
  | nil => simp [StoresInBounds, addChunks, done]
  | cons chunk chunks ih =>
    rw [addChunks]
    split
    · simp [StoresInBounds, done]
    · intro e he
      rcases mem_andThen_output.mp he with he | ⟨-, he⟩
      · exact store_after_growth b le_rfl (by omega) e he
      · exact ih _ e he

theorem libuvAddBody_inBounds (b : RequestBuf) :
    StoresInBounds (libuvAddBody grantRequest req chunks b) := by
  rw [libuvAddBody]
  cases hbody : sentBody req with
  | some body =>
    have hlen := sentBody_length_le hbody
    exact store_after_growth b (by omega) (by omega)
  | none =>
    dsimp only
    split
    · exact addChunks_inBounds b
    · simp [StoresInBounds, done]

theorem libuvEndHead_failure (b : RequestBuf) : (libuvEndHead req b).failure = none := by
  rw [libuvEndHead, andThen_failure_none]
  cases libuvLength req <;> exact ⟨rfl, rfl⟩

theorem libuvEndHead_inBounds_iff (b : RequestBuf) :
    StoresInBounds (libuvEndHead req b) ↔
      b.text.length + (((libuvLength req).map libuvLengthLine).getD []).length + 3 ≤
        b.capacity := by
  have hcrlf : crlf.length = 2 := rfl
  rw [libuvEndHead]
  cases libuvLength req with
  | none =>
    rw [done_andThen, store_inBounds (by omega)]
    simp [hcrlf]
  | some n =>
    dsimp only
    rw [storesInBounds_andThen rfl, store_inBounds (by omega), store_inBounds (by omega)]
    simp only [RequestBuf.store, List.length_append, Option.map_some, Option.getD_some, hcrlf]
    omega

theorem libuvBuild_inBounds_iff :
    StoresInBounds (libuvBuild grantRequest req chunks method url) ↔ LibuvFits req method url := by
  have hsmall : ∀ need cap, libuvTooSmall need cap = true → cap ≤ need := by
    simp only [libuvTooSmall, decide_eq_true_eq]
    omega
  have hfirst : 0 < libuvCapacity := by decide
  obtain ⟨hiff, hsnug⟩ := startRequest_inBounds_iff (libuvRequestLine method url)
    req.headers.headers hfirst hsmall
  have hhead : ((startRequest libuvTooSmall grantRequest libuvCapacity (libuvRequestLine method url)
      req.headers.headers).andThen (libuvEndHead req)).failure = none :=
    andThen_failure_none.mpr ⟨startRequest_failure, libuvEndHead_failure _⟩
  rw [libuvBuild, storesInBounds_andThen hhead, and_iff_left (libuvAddBody_inBounds _),
    storesInBounds_andThen startRequest_failure, hiff, and_assoc]
  refine and_congr_right fun hfit => and_congr_right fun hlines => ?_
  rw [libuvEndHead_inBounds_iff, (hsnug hfit hlines).least, startRequest_text, List.length_append]

end Bounds

/-- Whatever memory is granted and whatever is streamed, every store of the request construction
stays in the block that is allocated at that moment, exactly when the call is refused or the head
of the request fits. -/
theorem libuvRequest_inBounds_iff (req : HttpRequest) :
    (∀ alloc chunks, StoresInBounds (libuvRequest alloc req chunks)) ↔
      ∀ url method, ¬ (req.partsCount > 0 ∧ req.body = none) →
        libuvParseUrl grantRequest req.url = .ok url → getMethodStr req.method = .ok method →
          LibuvFits req method url := by
  constructor
  · intro hall url method hparts hurl hmethod
    have hfull := hall grantRequest []
    rw [libuvRequest, if_neg hparts, hurl, hmethod] at hfull
    exact libuvBuild_inBounds_iff.mp hfull
  · intro hfits alloc chunks
    have hfailed : ∀ e, StoresInBounds (fail ⟨[], 0⟩ [] e) := by simp [StoresInBounds, fail]
    rw [libuvRequest]
    split
    next => exact hfailed _
    next hparts =>
      cases hurl : libuvParseUrl alloc req.url with
      | error e => exact hfailed _
      | ok url =>
        cases hmethod : getMethodStr req.method with
        | error e => exact hfailed _
        | ok method =>
          have hfit := hfits url method hparts (libuvParseUrl_of_ok hurl) hmethod
          exact libuvBuild_cutShort.output (libuvBuild_inBounds_iff.mpr hfit)

/-- One doubling makes 8192 bytes of the block, of which the request line takes 47. -/
theorem longValue_tooLong_libuv {n : ℕ} (hn : 8192 ≤ n) :
    ¬ StoresInBounds (libuvRequest grantRequest (longValue n) []) := by
  have hparts : ¬ ((longValue n).partsCount > 0 ∧ (longValue n).body = none) := fun h =>
    absurd h.1 (lt_irrefl 0)
  have hurl : libuvParseUrl grantRequest (longValue n).url =
      .ok ⟨asciiBytes ['h'], 80, asciiBytes ['/']⟩ := rfl
  have hmethod : getMethodStr (longValue n).method = .ok (asciiBytes ['G', 'E', 'T']) := rfl
  rw [libuvRequest, if_neg hparts, hurl, hmethod]
  intro hbuild
  obtain ⟨-, ⟨hline, -⟩, -⟩ := libuvBuild_inBounds_iff.mp hbuild
  have hstart : (libuvRequestLine (asciiBytes ['G', 'E', 'T'])
      ⟨asciiBytes ['h'], 80, asciiBytes ['/']⟩).length = 47 := rfl
  have hroom : roundUp libuvCapacity 47 = libuvCapacity := doubleUntil_of_le (by decide)
  rw [hstart, hroom, headerLine_repeated] at hline
  split at hline <;> simp only [libuvCapacity] at hline <;> omega

theorem longValue_overflows_libuv :
    ¬ ∀ alloc chunks, StoresInBounds (libuvRequest alloc (longValue 9000) chunks) := by
  intro hall
  have hlarge : 8192 ≤ 9000 := by omega
  exact longValue_tooLong_libuv hlarge (hall grantRequest [])

end AbstractHttp.Transport
