import AbstractHttp.Crypto.Base64
import AbstractHttp.Http.FormRequests
import AbstractHttp.Transport.RequestText

/-!
# Authorization headers

Two setters put a scheme in front of a token, a third one makes the token of a name and a password.
The header then goes through the request text of the raw transport.
-/
namespace AbstractHttp.Transport
open Library Outcome Http EventStream

/-- What the setters allocate. -/
inductive AuthBlock where
  | raw
  | encoded
  | val
  | headers (block : HeadersBlock)
  deriving DecidableEq, Repr

/-- Which requests for memory are granted, by block and size. -/
abbrev AuthAlloc := AuthBlock → ℕ → Bool

/-- The request left, and the stores. -/
abbrev AuthOutcome := Outcome HttpRequest Extent ErrorCode

/-- What the setters for a token have in common: `val` gets `extra` bytes more than the token. -/
def setAuth (scheme : String) (extra : ℕ) (alloc : AuthAlloc) (req : HttpRequest)
    (token : Option CString) : AuthOutcome :=
  match token with
  | none => fail req [] .inval
  | some token =>
    let len := token.length + extra
    if alloc .val len = false then fail req [] .nomem
    else
      let val := asciiBytes scheme.toList ++ token.bytes
      let added := headersAdd (fun block => alloc (.headers block)) req.headers
        (some (literal "Authorization")) (some (.ofBytes val))
      ⟨{ req with headers := added.1 }, [⟨0, val.length + 1, len⟩], added.2⟩

/-- `http_request_set_auth_bearer`. -/
def setAuthBearer : AuthAlloc → HttpRequest → Option CString → AuthOutcome := setAuth "Bearer " 8

/-- `http_request_set_auth_basic`. -/
def setAuthBasic : AuthAlloc → HttpRequest → Option CString → AuthOutcome := setAuth "Basic " 7

/-- `http_request_set_auth_basic_userpwd`; `junk` is what the block of the encoder holds before. -/
def setAuthBasicUserpwd (alloc : AuthAlloc) (junk : Memory UInt8) (req : HttpRequest)
    (username password : Option CString) : AuthOutcome :=
  match username, password with
  | some username, some password =>
    let len := username.length + password.length + 2
    if alloc .raw len = false then fail req [] .nomem
    else
      let raw := username.bytes ++ colon :: (password.bytes ++ [0])
      match base64Encode (alloc .encoded) junk (raw.take (len - 1)) with
      | .error e => fail req [⟨0, raw.length, len⟩] e
      | .ok encoded =>
        (⟨req, ⟨0, raw.length, len⟩ :: base64Stores (raw.take (len - 1)), none⟩ :
          AuthOutcome).andThen fun req =>
          setAuthBasic alloc req
            (some (.ofBytes (encoded.read 0 (4 * ((len - 1 + 2) / 3) + 1))))
  | _, _ => fail req [] .inval

/-! What a server makes of the header. -/

/-- The value of the last header with this name. -/
def lastField (name : List UInt8) (received : RequestText) : Option (List UInt8) :=
  ((received.headers.filter fun field => field.1 = name).getLast?).map Prod.snd

/-- The name and the password of a request. -/
def basicCredentials (received : RequestText) : Option (List UInt8 × List UInt8) :=
  (lastField (asciiBytes "Authorization".toList) received).bind fun value =>
    if asciiBytes "Basic ".toList <+: value then
      (Base64.decode (value.drop (asciiBytes "Basic ".toList).length)).bind (cutAt colon)
    else none

/-- The stores fit, and a header is added, or the entries stay as they are; nothing else changes. -/
structure SetsAuth (req : HttpRequest) (value : CString) (o : AuthOutcome) : Prop where
  inBounds : ∀ e ∈ o.output, e.InBounds
  kept : { o.state with headers := req.headers } = req
  added : o.failure = none →
    o.state.headers.headers =
      req.headers.headers ++ [⟨some (literal "Authorization"), some value⟩]
  failed : o.failure ≠ none → o.state.headers.headers = req.headers.headers

section Setting

variable {alloc : AuthAlloc} {req : HttpRequest} {value : CString}

theorem setsAuth_fail (e : ErrorCode) {out : List Extent} (hout : ∀ e ∈ out, e.InBounds) :
    SetsAuth req value (fail req out e) :=
  ⟨hout, rfl, nofun, fun _ => rfl⟩

theorem SetsAuth.andThen {k : HttpRequest → AuthOutcome} {out : List Extent}
    (hout : ∀ e ∈ out, e.InBounds) (h : SetsAuth req value (k req)) :
    SetsAuth req value ((⟨req, out, none⟩ : AuthOutcome).andThen k) :=
  ⟨List.forall_mem_append.mpr ⟨hout, h.inBounds⟩, h.kept, h.added, h.failed⟩

theorem setAuth_setsAuth (scheme : String) (extra : ℕ)
    (hextra : (asciiBytes scheme.toList).length + 1 ≤ extra) (alloc : AuthAlloc)
    (req : HttpRequest) (token : CString) :
    SetsAuth req (.ofBytes (asciiBytes scheme.toList ++ token.bytes))
      (setAuth scheme extra alloc req token) := by
  rw [setAuth]
  dsimp only
  split_ifs
  · exact setsAuth_fail _ (by simp)
  · have hadded := headersAdd_headers (fun block => alloc (.headers block)) req.headers
      (literal "Authorization") (.ofBytes (asciiBytes scheme.toList ++ token.bytes))
    refine ⟨?_, rfl, fun hnone => ?_, fun hfailed => ?_⟩
    · rw [List.forall_mem_singleton, Extent.inBounds_iff]
      right
      simp only [List.length_append, CString.length]
      omega
    · rcases hadded with ⟨-, hentries⟩ | ⟨⟨e, he⟩, -⟩
      · exact hentries
      · exact absurd (he.symm.trans hnone) (by simp)
    · rcases hadded with ⟨hnone, -⟩ | ⟨-, hentries⟩
      · exact absurd hnone hfailed
      · exact hentries

/-- The octets of a name and a password. -/
def userPass (username password : CString) : List UInt8 :=
  username.bytes ++ colon :: password.bytes

/-- The value of the header. -/
def basicValue (username password : CString) : CString :=
  .ofBytes (asciiBytes "Basic ".toList ++ Base64.encode (userPass username password))

theorem encode_inLine (xs : List UInt8) : ∀ b ∈ Base64.encode xs, b ≠ 0 ∧ InLine b := by
  intro b hb
  have hall : ∀ i : Fin 64, Base64.digit i ≠ 0 ∧ InLine (Base64.digit i) := by decide
  rcases Base64.mem_encode hb with ⟨n, hn, rfl⟩ | rfl
  · exact hall ⟨n, hn⟩
  · decide

theorem basicValue_bytes (username password : CString) :
    (basicValue username password).bytes =
      asciiBytes "Basic ".toList ++ Base64.encode (userPass username password) := by
  refine CString.ofBytes_of_noNul ?_
  rw [List.mem_append, not_or]
  exact ⟨by decide, Base64.zero_not_mem_encode _⟩

/-- The header is made of the name and the password, and nothing happens without it. -/
theorem setAuthBasicUserpwd_setsAuth (alloc : AuthAlloc) (junk : Memory UInt8) (req : HttpRequest)
    (username password : CString) :
    SetsAuth req (basicValue username password)
      (setAuthBasicUserpwd alloc junk req username password) := by
  have hlen : username.length + password.length + 2 - 1 = (userPass username password).length := by
    simp only [userPass, CString.length, List.length_append, List.length_cons]
    omega
  have htake : (username.bytes ++ colon :: (password.bytes ++ [0])).take
      (userPass username password).length = userPass username password := by
    rw [← List.cons_append, ← List.append_assoc]
    exact List.take_left
  have hstore : (⟨0, (username.bytes ++ colon :: (password.bytes ++ [0])).length,
      username.length + password.length + 2⟩ : Extent).InBounds := by
    rw [Extent.inBounds_iff]
    right
    simp only [List.length_append, List.length_cons, List.length_nil, CString.length]
    omega
  rw [setAuthBasicUserpwd]
  dsimp only
  split_ifs with hraw
  · exact setsAuth_fail _ (by simp)
  · rw [hlen, htake, Crypto.http_base64Encode_eq]
    by_cases hencoded : alloc .encoded (4 * (((userPass username password).length + 2) / 3) + 1)
    · obtain ⟨out, hout, hread⟩ :=
        Crypto.base64Encode_spec junk (userPass username password) hencoded
      rw [hout]
      dsimp only [Except.map]
      have htoken := setAuth_setsAuth "Basic " 7 (by decide) alloc req
        (.ofBytes (Base64.encode (userPass username password) ++ [0]))
      rw [CString.ofBytes_append_nul (Base64.zero_not_mem_encode _)] at htoken
      refine SetsAuth.andThen (List.forall_mem_cons.mpr ⟨hstore, base64Stores_inBounds _⟩) ?_
      rw [hread]
      exact htoken
    · rw [Crypto.base64Encode, if_neg hencoded]
      exact setsAuth_fail _ (List.forall_mem_singleton.mpr hstore)

end Setting

section Sending

variable {req : HttpRequest} {url : UrlParts} {headers : HttpHeaders} {h : HttpHeader}

/-- The fields of a request up to its own headers. -/
def fieldsBefore (req : HttpRequest) (url : UrlParts) : List (List UInt8 × List UInt8) :=
  (asciiBytes "Host".toList, url.host) ::
    (asciiBytes "Connection".toList, asciiBytes "close".toList) ::
      req.headers.headers.map fun h => (stringBytes h.key, stringBytes h.value)

/-- The field behind them. -/
def fieldsBehind (req : HttpRequest) : List (List UInt8 × List UInt8) :=
  ((sentBody req).map fun _ => (asciiBytes "Content-Length".toList, decimal req.bodyLen)).toList

theorem rawSent_headers (req : HttpRequest) (url : UrlParts) :
    (rawSent req url).headers = fieldsBefore req url ++ fieldsBehind req := rfl

/-- One header more is one field more. -/
theorem rawSent_added (hadded : headers.headers = req.headers.headers ++ [h]) :
    rawSent { req with headers := headers } url =
      { rawSent req url with
        headers := fieldsBefore req url ++
          (stringBytes h.key, stringBytes h.value) :: fieldsBehind req } := by
  simp only [rawSent, hadded, fieldsBefore, fieldsBehind, sentBody, List.map_append, List.map_cons,
    List.map_nil, List.cons_append, List.append_assoc, List.nil_append]

theorem FreeOfDelimiters.added (hfree : FreeOfDelimiters req url)
    (hadded : headers.headers = req.headers.headers ++ [h])
    (hkey : ∀ b ∈ stringBytes h.key, InLine b ∧ b ≠ colon)
    (hvalue : ∀ b ∈ stringBytes h.value, InLine b) :
    FreeOfDelimiters { req with headers := headers } url := by
  refine ⟨hfree.path, hfree.host, ?_, ?_⟩
  · dsimp only
    rw [hadded]
    exact List.forall_mem_append.mpr ⟨hfree.names, List.forall_mem_singleton.mpr hkey⟩
  · dsimp only
    rw [hadded]
    exact List.forall_mem_append.mpr ⟨hfree.values, List.forall_mem_singleton.mpr hvalue⟩

/-- What a server reads once a header is set whose value keeps to its line. -/
theorem SetsAuth.received {value : CString} {sent : HttpRequest} {out : List Extent}
    (hset : SetsAuth req value ⟨sent, out, none⟩) (hvalue : ∀ b ∈ value.bytes, InLine b)
    {requestAlloc : RequestAlloc} (hurl : rawParseUrl requestAlloc req.url = .ok url)
    (hfree : FreeOfDelimiters req url) (hsent : (rawRequest requestAlloc sent).failure = none) :
    readRequest (rawRequest requestAlloc sent).state.text =
      some { rawSent req url with
        headers := fieldsBefore req url ++
          (asciiBytes "Authorization".toList, value.bytes) :: fieldsBehind req } := by
  have hadded := hset.added rfl
  have hstate : sent = { req with headers := sent.headers } := by
    have hkept : req = { sent with headers := req.headers } := hset.kept.symm
    rw [hkept]
  rw [hstate] at hsent ⊢
  have hkey : ∀ b ∈ asciiBytes "Authorization".toList, InLine b ∧ b ≠ colon :=
    List.forall_iff_forall_mem.mp (by decide)
  have hread := readRequest_text (rawSent_clean_iff.mpr (hfree.added hadded hkey hvalue))
  have hurl' : rawParseUrl requestAlloc { req with headers := sent.headers }.url = .ok url := hurl
  rw [← rawBuild_text, ← rawRequest_eq hurl' hsent, rawSent_added hadded] at hread
  exact hread

theorem basicCredentials_eq {received : RequestText}
    {before behind : List (List UInt8 × List UInt8)} {username : CString} (password : CString)
    (hheaders : received.headers = before ++
      (asciiBytes "Authorization".toList, (basicValue username password).bytes) :: behind)
    (hbehind : ∀ field ∈ behind, field.1 ≠ asciiBytes "Authorization".toList)
    (hname : colon ∉ username.bytes) :
    basicCredentials received = some (username.bytes, password.bytes) := by
  have hnone : behind.filter (fun field => field.1 = asciiBytes "Authorization".toList) = [] := by
    rw [List.filter_eq_nil_iff]
    intro field hfield
    rw [decide_eq_true_iff]
    exact hbehind field hfield
  have hfield : lastField (asciiBytes "Authorization".toList) received =
      some (basicValue username password).bytes := by
    rw [lastField, hheaders, List.filter_append, List.filter_cons, if_pos (decide_eq_true rfl),
      hnone, List.getLast?_concat]
    rfl
  rw [basicCredentials, hfield, Option.bind_some, basicValue_bytes, if_pos (List.prefix_append _ _),
    List.drop_left, Base64.decode_encode, Option.bind_some]
  exact cutAt_eq_some.mpr ⟨rfl, hname⟩

end Sending

/-- A bearer token without a line break arrives as it is. -/
theorem setAuthBearer_received {alloc : AuthAlloc} {req sent : HttpRequest} {token : CString}
    {out : List Extent} (hsets : setAuthBearer alloc req token = ⟨sent, out, none⟩)
    (htoken : ∀ b ∈ token.bytes, InLine b) {requestAlloc : RequestAlloc} {url : UrlParts}
    (hurl : rawParseUrl requestAlloc req.url = .ok url) (hfree : FreeOfDelimiters req url)
    (hsent : (rawRequest requestAlloc sent).failure = none) :
    ∃ received, readRequest (rawRequest requestAlloc sent).state.text = some received ∧
      (asciiBytes "Authorization".toList, asciiBytes "Bearer ".toList ++ token.bytes) ∈
        received.headers := by
  have hset := setAuth_setsAuth "Bearer " 8 (by decide) alloc req token
  change SetsAuth req _ (setAuthBearer alloc req token) at hset
  have hbytes : (CString.ofBytes (asciiBytes "Bearer ".toList ++ token.bytes)).bytes =
      asciiBytes "Bearer ".toList ++ token.bytes := by
    refine CString.ofBytes_of_noNul ?_
    rw [List.mem_append, not_or]
    exact ⟨by decide, token.noNul⟩
  rw [hsets] at hset
  have hvalue : ∀ b ∈ (CString.ofBytes (asciiBytes "Bearer ".toList ++ token.bytes)).bytes,
      InLine b := by
    rw [hbytes]
    exact List.forall_mem_append.mpr ⟨List.forall_iff_forall_mem.mp (by decide), htoken⟩
  refine ⟨_, hset.received hvalue hurl hfree hsent, ?_⟩
  rw [hbytes]
  exact List.mem_append_right _ List.mem_cons_self

/-- Where the setter fails, the request is what it was, but for the room in its list. With a name in
which no colon stands, the server gets the name and the password, in a request that has the header
more than before and is otherwise the same. -/
theorem basicAuth_received (alloc : AuthAlloc) (junk : Memory UInt8) (req : HttpRequest)
    (username password : CString) :
    SetsAuth req (basicValue username password)
        (setAuthBasicUserpwd alloc junk req username password) ∧
      ∀ {requestAlloc : RequestAlloc} {url : UrlParts} {sent : HttpRequest} {out : List Extent},
        colon ∉ username.bytes →
        setAuthBasicUserpwd alloc junk req username password = ⟨sent, out, none⟩ →
        rawParseUrl requestAlloc req.url = .ok url → FreeOfDelimiters req url →
        (rawRequest requestAlloc sent).failure = none →
        StoresInBounds (rawRequest requestAlloc sent) →
        ∃ received, readRequest (rawRequest requestAlloc sent).state.text = some received ∧
          basicCredentials received = some (username.bytes, password.bytes) ∧
          { received with headers := (rawSent req url).headers } = rawSent req url ∧
          ∃ before behind, (rawSent req url).headers = before ++ behind ∧
            received.headers = before ++ (asciiBytes "Authorization".toList,
              (basicValue username password).bytes) :: behind := by
  have hset := setAuthBasicUserpwd_setsAuth alloc junk req username password
  refine ⟨hset, fun {requestAlloc url sent out} hname hsets hurl hfree hsent _ => ?_⟩
  rw [hsets] at hset
  have hvalue : ∀ b ∈ (basicValue username password).bytes, InLine b := by
    rw [basicValue_bytes]
    exact List.forall_mem_append.mpr ⟨List.forall_iff_forall_mem.mp (by decide),
      fun b hb => (encode_inLine _ b hb).2⟩
  refine ⟨_, hset.received hvalue hurl hfree hsent, ?_, rfl, _, _, rawSent_headers req url, rfl⟩
  refine basicCredentials_eq password rfl (fun field hfield => ?_) hname
  obtain ⟨body, -, rfl⟩ := Option.map_eq_some_iff.mp (Option.mem_toList.mp hfield)
  dsimp only
  decide

/-- A name, and a password with a colon in it. -/
def authorizedSet : AuthOutcome :=
  setAuthBasicUserpwd (fun _ _ => true) (fun _ => 0) (requestWith plainValue) (literal "ann")
    (literal "p:w")

theorem basicAuth_received_authorized :
    ∃ received,
      readRequest (rawRequest grantRequest authorizedSet.state).state.text = some received ∧
        basicCredentials received = some ((literal "ann").bytes, (literal "p:w").bytes) := by
  obtain ⟨-, hsend⟩ := basicAuth_received (fun _ _ => true) (fun _ => 0) (requestWith plainValue)
    (literal "ann") (literal "p:w")
  obtain ⟨received, hread, hcredentials, -⟩ := @hsend grantRequest partsOfRequestWith
    authorizedSet.state authorizedSet.output (by decide) rfl rfl
    ⟨List.forall_iff_forall_mem.mp (by decide), List.forall_iff_forall_mem.mp (by decide),
      List.forall_mem_singleton.mpr (List.forall_iff_forall_mem.mp (by decide)),
      List.forall_mem_singleton.mpr (List.forall_iff_forall_mem.mp (by decide))⟩
    rfl (by decide +kernel)
  exact ⟨received, hread, hcredentials⟩

end AbstractHttp.Transport
