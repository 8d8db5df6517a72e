import AbstractHttp.Transport.RequestBuffer

/-!
# The request text of the raw transport

`http_raw_send` prints the request line into 1024 bytes, grows the block before a
header line that would fill it and before a body, and appends the last CRLF of a
request without body to what there is.
-/
namespace AbstractHttp.Transport
open Library Outcome Http EventStream

/-- The methods that the transport knows; all others are sent as GET. -/
def rawMethodStr : HttpMethod → List UInt8
  | .post => asciiBytes "POST".toList
  | .put => asciiBytes "PUT".toList
  | .delete => asciiBytes "DELETE".toList
  | .patch => asciiBytes "PATCH".toList
  | .head => asciiBytes "HEAD".toList
  | .options => asciiBytes "OPTIONS".toList
  | _ => asciiBytes "GET".toList

/-- `"%s %s HTTP/1.0\r\nHost: %s\r\nConnection: close\r\n"`. -/
def rawRequestLine (method : HttpMethod) (url : UrlParts) : List UInt8 :=
  rawMethodStr method ++ [space] ++ url.path ++ asciiBytes " HTTP/1.0".toList ++ crlf ++
    asciiBytes "Host: ".toList ++ url.host ++ crlf ++
      asciiBytes "Connection: close".toList ++ crlf

/-- `"Content-Length: %lu\r\n\r\n"`. -/
def rawLenBuf (bodyLen : ℕ) : List UInt8 :=
  asciiBytes "Content-Length: ".toList ++ decimal bodyLen ++ crlf ++ crlf

/-- The body to send, if there is one: `req->body && req->body_len > 0`. -/
def sentBody (req : HttpRequest) : Option (List UInt8) :=
  if req.bodyLen > 0 then req.body.map (List.take req.bodyLen) else none

theorem sentBody_length_le {req : HttpRequest} {body : List UInt8} (h : sentBody req = some body) :
    body.length ≤ req.bodyLen := by
  rw [sentBody] at h
  split at h
  · obtain ⟨bs, -, rfl⟩ := Option.map_eq_some_iff.mp h
    exact List.length_take_le _ _
  · cases h

def rawTooSmall (need capacity : ℕ) : Bool := need ≥ capacity

/-- The end of the text: the length line and the body, or the empty line. -/
def rawAddBody (alloc : RequestAlloc) (req : HttpRequest) (b : RequestBuf) : BufOutcome :=
  match sentBody req with
  | some body =>
    let need := b.text.length + (rawLenBuf req.bodyLen).length + req.bodyLen
    ((if need ≥ b.capacity then b.grow alloc (need + 1) else done b).andThen
      (RequestBuf.store (rawLenBuf req.bodyLen) 1)).andThen (RequestBuf.store body 0)
  | none => b.store crlf 1

def rawCapacity : ℕ := 1024

/-- The request construction of `http_raw_send`, once it has a connection. -/
def rawBuild (alloc : RequestAlloc) (req : HttpRequest) (url : UrlParts) : BufOutcome :=
  (startRequest rawTooSmall alloc rawCapacity (rawRequestLine req.method url)
    req.headers.headers).andThen (rawAddBody alloc req)

/-- `http_raw_send` up to the first byte it sends, with a peer that can be reached. -/
def rawRequest (alloc : RequestAlloc) (req : HttpRequest) : BufOutcome :=
  match rawParseUrl alloc req.url with
  | .ok url => rawBuild alloc req url
  | .error e => fail ⟨[], 0⟩ [] e

/-- The request line, every header line and the CRLF that ends a request without body fit, each
with its NUL. -/
def RawFits (req : HttpRequest) (url : UrlParts) : Prop :=
  let start := (rawRequestLine req.method url).length
  let len := start + (headerLines req.headers.headers).length
  start + 1 ≤ rawCapacity ∧ LinesFit rawTooSmall rawCapacity start req.headers.headers ∧
    (sentBody req = none → len + 3 ≤ roundUp rawCapacity len)

theorem copyParts_cutShort {alloc : RequestAlloc} {parts url : UrlParts}
    (h : copyParts alloc parts = .ok url) : copyParts grantRequest parts = .ok url := by
  rw [copyParts] at h
  split at h
  · cases h
  · split at h
    · cases h
    · exact h

/-- Less memory can only make `parse_url` fail. -/
theorem rawParseUrl_of_ok {alloc : RequestAlloc} {str : Option CString} {url : UrlParts}
    (h : rawParseUrl alloc str = .ok url) : rawParseUrl grantRequest str = .ok url := by
  cases str with
  | none => cases h
  | some s =>
    simp only [rawParseUrl] at h ⊢
    cases hcut : cutScheme s.bytes with
    | none => simp [hcut] at h
    | some cut =>
      simp only [hcut] at h ⊢
      exact copyParts_cutShort h

section Bounds
variable {alloc : RequestAlloc} {req : HttpRequest} {url : UrlParts}

theorem rawAddBody_cutShort (b : RequestBuf) :
    CutShort (rawAddBody alloc req b) (rawAddBody grantRequest req b) := by
  rw [rawAddBody, rawAddBody]
  split
  · refine (CutShort.andThen ?_ fun b => .refl _).andThen fun b => .refl _
    split
    · exact grow_cutShort b _
    · exact .refl _
  · exact .refl _

theorem rawBuild_cutShort :
    CutShort (rawBuild alloc req url) (rawBuild grantRequest req url) :=
  startRequest_cutShort.andThen fun b => rawAddBody_cutShort b

/-- A body always fits; without one there has to be room for three more bytes. -/
theorem rawAddBody_inBounds_iff (req : HttpRequest) {b : RequestBuf} (hb : Snug rawCapacity b) :
    StoresInBounds (rawAddBody grantRequest req b) ↔
      (sentBody req = none → b.text.length + 3 ≤ roundUp rawCapacity b.text.length) := by
  rw [rawAddBody]
  cases hbody : sentBody req with
  | none =>
    simp only [forall_const]
    rw [store_inBounds (by decide), hb.least]
    rfl
  | some body =>
    refine iff_of_true ?_ (by simp)
    have hlen := sentBody_length_le hbody
    have hgrown : ∃ cap, b.text.length + (rawLenBuf req.bodyLen).length + req.bodyLen + 1 ≤ cap ∧
        (if b.text.length + (rawLenBuf req.bodyLen).length + req.bodyLen ≥ b.capacity then
          b.grow grantRequest
            (b.text.length + (rawLenBuf req.bodyLen).length + req.bodyLen + 1)
        else done b) = done { b with capacity := cap } := by
      split
      · exact ⟨_, le_rfl, rfl⟩
      · exact ⟨b.capacity, by omega, rfl⟩
    obtain ⟨cap, hcap, hgrow⟩ := hgrown
    dsimp only
    rw [hgrow, done_andThen]
    intro e he
    rw [Extent.inBounds_iff]
    simp only [RequestBuf.store, andThen, List.singleton_append, List.mem_cons,
      List.not_mem_nil, or_false, List.length_append] at he
    rcases he with rfl | rfl
    · exact Or.inr (by dsimp only; omega)
    · exact Or.inr (by dsimp only; omega)

theorem rawBuild_inBounds_iff : StoresInBounds (rawBuild grantRequest req url) ↔ RawFits req url := by
  have hsmall : ∀ need cap, rawTooSmall need cap = true → cap ≤ need := by simp [rawTooSmall]
  have hfirst : 0 < rawCapacity := by decide
  obtain ⟨hiff, hsnug⟩ := startRequest_inBounds_iff (rawRequestLine req.method url)
    req.headers.headers hfirst hsmall
  rw [rawBuild, storesInBounds_andThen startRequest_failure, hiff, and_assoc]
  refine and_congr_right fun hfit => and_congr_right fun hlines => ?_
  rw [rawAddBody_inBounds_iff req (hsnug hfit hlines), startRequest_text, List.length_append]

end Bounds

/-- Whatever memory is granted, every store of the request construction stays in the block that is
allocated at that moment, exactly when the request fits. -/
theorem rawRequest_inBounds_iff (req : HttpRequest) :
    (∀ alloc, StoresInBounds (rawRequest alloc req)) ↔
      ∀ url, rawParseUrl grantRequest req.url = .ok url → RawFits req url := by
  constructor
  · intro hall url hurl
    have hfull := hall grantRequest
    rw [rawRequest, hurl] at hfull
    exact rawBuild_inBounds_iff.mp hfull
  · intro hfits alloc
    rw [rawRequest]
    cases hurl : rawParseUrl alloc req.url with
    | error e => simp [StoresInBounds, fail]
    | ok url =>
      exact rawBuild_cutShort.output (rawBuild_inBounds_iff.mpr (hfits url (rawParseUrl_of_ok hurl)))

/-- `n` times the letter `v`. -/
def repeated (n : ℕ) : CString :=
  ⟨List.replicate n 0x76, fun h => by simpa using List.eq_of_mem_replicate h⟩

theorem hostUrl_noNul : 0 ∉ asciiBytes "http://h/".toList := by decide

theorem keyByte_noNul : (0 : UInt8) ∉ [0x6B] := by decide

/-- `GET http://h/` with the header `k` and a value of `n` bytes. -/
def longValue (n : ℕ) : HttpRequest :=
  { HttpRequest.init with
    url := some ⟨asciiBytes "http://h/".toList, hostUrl_noNul⟩
    headers := ⟨[⟨some ⟨[0x6B], keyByte_noNul⟩, some (repeated n)⟩], 8⟩ }

theorem headerLine_repeated (n : ℕ) :
    (headerLine ⟨some ⟨[0x6B], by decide⟩, some (repeated n)⟩).length = n + 5 := by
  simp [headerLine, stringBytes, crlf, repeated]

/-- One doubling makes 2048 bytes of the block, of which the request line takes 44. -/
theorem longValue_tooLong {n : ℕ} (hn : 2000 ≤ n) :
    ¬ StoresInBounds (rawBuild grantRequest (longValue n)
      ⟨asciiBytes ['h'], 80, asciiBytes ['/']⟩) := by
  intro hbuild
  obtain ⟨-, ⟨hline, -⟩, -⟩ := rawBuild_inBounds_iff.mp hbuild
  have hstart : (rawRequestLine (longValue n).method
      ⟨asciiBytes ['h'], 80, asciiBytes ['/']⟩).length = 44 := rfl
  have hroom : roundUp rawCapacity 44 = rawCapacity := doubleUntil_of_le (by decide)
  rw [hstart, hroom, headerLine_repeated] at hline
  split at hline <;> simp only [rawCapacity] at hline <;> omega

theorem longValue_overflows : ¬ ∀ alloc, StoresInBounds (rawRequest alloc (longValue 3000)) :=
  fun hall => longValue_tooLong (by omega) (hall grantRequest)

end AbstractHttp.Transport
