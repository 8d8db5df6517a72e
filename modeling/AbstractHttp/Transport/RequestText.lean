import AbstractHttp.Http.RequestFormat
import AbstractHttp.Transport.RawRequest

/-!
# How the request text of the raw transport is understood

The transport puts path, host, names and values between its delimiters as they are.
-/
namespace AbstractHttp.Transport
open Library Outcome Http EventStream

/-- The request that the text stands for. -/
def rawSent (req : HttpRequest) (url : UrlParts) : RequestText where
  method := rawMethodStr req.method
  target := url.path
  headers :=
    (asciiBytes "Host".toList, url.host) ::
      (asciiBytes "Connection".toList, asciiBytes "close".toList) ::
        (req.headers.headers.map fun h => (stringBytes h.key, stringBytes h.value)) ++
          ((sentBody req).map fun _ =>
            (asciiBytes "Content-Length".toList, decimal req.bodyLen)).toList
  body := (sentBody req).getD []

/-- No part of the request holds a byte that delimits it. -/
structure FreeOfDelimiters (req : HttpRequest) (url : UrlParts) : Prop where
  path : ∀ b ∈ url.path, InLine b ∧ b ≠ space
  host : ∀ b ∈ url.host, InLine b
  names : ∀ h ∈ req.headers.headers, ∀ b ∈ stringBytes h.key, InLine b ∧ b ≠ colon
  values : ∀ h ∈ req.headers.headers, ∀ b ∈ stringBytes h.value, InLine b

theorem rawMethodStr_clean (method : HttpMethod) :
    ∀ b ∈ rawMethodStr method, InLine b ∧ b ≠ space := by
  cases method <;> simp only [rawMethodStr] <;> exact List.forall_iff_forall_mem.mp (by decide)

theorem decimal_clean (n : ℕ) : ∀ b ∈ decimal n, InLine b := by
  intro b hb
  obtain ⟨c, hc, rfl⟩ := List.mem_map.mp hb
  have hdigit := Nat.isDigit_of_mem_toDigits (by decide) (by decide) hc
  have hrange : 48 ≤ c.toNat ∧ c.toNat ≤ 57 := by
    simpa [Char.isDigit, UInt32.le_iff_toNat_le] using hdigit
  have hbyte : (UInt8.ofNat c.toNat).toNat = c.toNat := by
    rw [UInt8.toNat_ofNat', Nat.mod_eq_of_lt (by omega)]
  constructor
  · intro heq
    rw [heq] at hbyte
    change 13 = c.toNat at hbyte
    omega
  · intro heq
    rw [heq] at hbyte
    change 10 = c.toNat at hbyte
    omega

theorem rawSent_clean_iff {req : HttpRequest} {url : UrlParts} :
    (rawSent req url).Clean ↔ FreeOfDelimiters req url := by
  have hhost : ∀ b ∈ asciiBytes "Host".toList, InLine b ∧ b ≠ colon :=
    List.forall_iff_forall_mem.mp (by decide)
  have hconnection : ∀ b ∈ asciiBytes "Connection".toList, InLine b ∧ b ≠ colon :=
    List.forall_iff_forall_mem.mp (by decide)
  have hclose : ∀ b ∈ asciiBytes "close".toList, InLine b :=
    List.forall_iff_forall_mem.mp (by decide)
  have hlength : ∀ b ∈ asciiBytes "Content-Length".toList, InLine b ∧ b ≠ colon :=
    List.forall_iff_forall_mem.mp (by decide)
  have hheader : ∀ h ∈ req.headers.headers,
      (stringBytes h.key, stringBytes h.value) ∈ (rawSent req url).headers := by
    intro h hh
    simp only [rawSent, List.cons_append, List.mem_cons, List.mem_append]
    exact Or.inr (Or.inr (Or.inl (List.mem_map_of_mem hh)))
  constructor
  · intro h
    refine ⟨h.target, h.values (asciiBytes "Host".toList, url.host) (List.mem_cons_self ..), ?_, ?_⟩
    · exact fun header hh => h.names _ (hheader header hh)
    · exact fun header hh => h.values _ (hheader header hh)
  · intro h
    have hfields : ∀ field ∈ (rawSent req url).headers,
        (∀ b ∈ field.1, InLine b ∧ b ≠ colon) ∧ ∀ b ∈ field.2, InLine b := by
      simp only [rawSent, List.cons_append, List.mem_cons, List.mem_append, List.mem_map,
        Option.mem_toList, Option.map_eq_some_iff]
      rintro field (rfl | rfl | ⟨header, hh, rfl⟩ | ⟨body, -, rfl⟩)
      · exact ⟨hhost, h.host⟩
      · exact ⟨hconnection, hclose⟩
      · exact ⟨h.names header hh, h.values header hh⟩
      · exact ⟨hlength, decimal_clean _⟩
    exact ⟨rawMethodStr_clean _, h.path, fun field hf => (hfields field hf).1,
      fun field hf => (hfields field hf).2⟩

theorem endLines_headers (hs : List HttpHeader) :
    endLines ((hs.map fun h => (stringBytes h.key, stringBytes h.value)).map fieldLine) =
      headerLines hs := by
  induction hs with
  | nil => rfl
  | cons h hs ih =>
    simp only [endLines, headerLines, List.map_cons, List.flatMap_cons] at ih ⊢
    rw [ih]
    simp [fieldLine, headerLine, crlf]

/-- The end of the text, after any growth. -/
theorem rawAddBody_text (req : HttpRequest) (b : RequestBuf) :
    (rawAddBody grantRequest req b).state.text = b.text ++
      (match sentBody req with
      | some body => rawLenBuf req.bodyLen ++ body
      | none => crlf) := by
  rw [rawAddBody]
  cases sentBody req with
  | none => rfl
  | some body =>
    have hgrown : ∀ need, ∃ cap, (if need ≥ b.capacity then b.grow grantRequest (need + 1)
        else done b) = done { b with capacity := cap } := by
      intro need
      split
      · exact ⟨_, rfl⟩
      · exact ⟨_, rfl⟩
    obtain ⟨cap, hcap⟩ :=
      hgrown (b.text.length + (rawLenBuf req.bodyLen).length + req.bodyLen)
    dsimp only
    rw [hcap]
    simp [RequestBuf.store, andThen, done]

/-- The text that is built with enough memory. -/
theorem rawBuild_text (req : HttpRequest) (url : UrlParts) :
    (rawBuild grantRequest req url).state.text = (rawSent req url).text := by
  rw [rawBuild, andThen_of_none startRequest_failure, rawAddBody_text, startRequest_text]
  have hends := endLines_headers req.headers.headers
  simp only [endLines] at hends
  simp only [RequestText.text, rawSent, endLines, List.map_append, List.flatMap_append,
    List.map_cons, List.flatMap_cons, List.cons_append, hends]
  cases sentBody req with
  | none =>
    simp [rawRequestLine, startLine, fieldLine, httpVersion, crlf, asciiBytes,
      space, colon]
  | some body =>
    simp [rawRequestLine, rawLenBuf, startLine, fieldLine, httpVersion, crlf,
      asciiBytes, space, colon]

/-- A request that is built is built as with unlimited memory. -/
theorem rawRequest_eq {alloc : RequestAlloc} {req : HttpRequest} {url : UrlParts}
    (hurl : rawParseUrl alloc req.url = .ok url) (hsent : (rawRequest alloc req).failure = none) :
    rawRequest alloc req = rawBuild grantRequest req url := by
  rw [rawRequest, hurl] at hsent ⊢
  rcases rawBuild_cutShort with heq | ⟨hfail, -⟩
  · exact heq
  · exact absurd hsent hfail

/-- A request whose text stays in its block is understood as it was meant exactly when none of its
parts holds a byte that delimits it. -/
theorem rawRequest_read_back_iff {alloc : RequestAlloc} {req : HttpRequest} {url : UrlParts}
    (hurl : rawParseUrl alloc req.url = .ok url) (hsent : (rawRequest alloc req).failure = none)
    (_hbounds : StoresInBounds (rawRequest alloc req)) :
    readRequest (rawRequest alloc req).state.text = some (rawSent req url) ↔
      FreeOfDelimiters req url := by
  rw [rawRequest_eq hurl hsent, rawBuild_text, readRequest_text_iff, rawSent_clean_iff]

/-- `GET http://h/` with the header `k` and the given value. -/
def requestWith (value : CString) : HttpRequest :=
  { HttpRequest.init with
    url := some ⟨asciiBytes "http://h/".toList, hostUrl_noNul⟩
    headers := ⟨[⟨some ⟨[0x6B], keyByte_noNul⟩, some value⟩], 8⟩ }

/-- The value `v`. -/
def plainValue : CString := ⟨[0x76], by decide⟩

/-- The value `v`, CR, LF, `X: y`. -/
def splitValue : CString := ⟨asciiBytes "v\r\nX: y".toList, by decide⟩

def partsOfRequestWith : UrlParts := ⟨asciiBytes ['h'], 80, asciiBytes ['/']⟩

theorem rawRequest_read_back_iff_example :
    readRequest (rawRequest grantRequest (requestWith plainValue)).state.text =
      some (rawSent (requestWith plainValue) partsOfRequestWith) := by
  refine (rawRequest_read_back_iff rfl rfl ?_).mpr ?_
  · decide
  · exact ⟨List.forall_iff_forall_mem.mp (by decide), List.forall_iff_forall_mem.mp (by decide),
      List.forall_mem_singleton.mpr (List.forall_iff_forall_mem.mp (by decide)),
      List.forall_mem_singleton.mpr (List.forall_iff_forall_mem.mp (by decide))⟩

/-- The value is understood as two headers. -/
theorem splitValue_splits :
    StoresInBounds (rawRequest grantRequest (requestWith splitValue)) ∧
      readRequest (rawRequest grantRequest (requestWith splitValue)).state.text =
        some { rawSent (requestWith plainValue) partsOfRequestWith with
          headers := (rawSent (requestWith plainValue) partsOfRequestWith).headers ++
            [(asciiBytes ['X'], asciiBytes ['y'])] } ∧
      readRequest (rawRequest grantRequest (requestWith splitValue)).state.text ≠
        some (rawSent (requestWith splitValue) partsOfRequestWith) := by
  decide

end AbstractHttp.Transport
