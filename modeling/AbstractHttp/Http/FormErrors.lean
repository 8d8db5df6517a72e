import AbstractHttp.Http.FormRequests

/-!
# Failed OAuth 2.0 requests

The builders write into the request as they go and take nothing back when memory
runs out, so an error tells how far they came.
-/
namespace AbstractHttp.Http

/-- A call of one of the nine builders, any of whose arguments may be NULL. -/
inductive Oauth2Call where
  | passwordGrant (url username password clientId clientSecret scope : Option CString)
  | refreshTokenGrant (url refreshToken clientId clientSecret scope : Option CString)
  | authorizationCodeGrant
      (url code redirectUri clientId clientSecret codeVerifier : Option CString)
  | clientCredentialsGrant (url clientId clientSecret scope : Option CString)
  | jwtBearerGrant (url assertion scope : Option CString)
  | deviceAuthorization (url clientId scope : Option CString)
  | deviceAccessToken (url clientId deviceCode : Option CString)
  | tokenRevocation (url token tokenTypeHint clientId clientSecret : Option CString)
  | tokenIntrospection (url token tokenTypeHint clientId clientSecret : Option CString)

namespace Oauth2Call

/-- The function that a call is of. -/
def init (alloc : FormAlloc) (req : HttpRequest) : Oauth2Call → HttpRequest × Option ErrorCode
  | passwordGrant url username password clientId clientSecret scope =>
    initOauth2PasswordGrant alloc req url username password clientId clientSecret scope
  | refreshTokenGrant url refreshToken clientId clientSecret scope =>
    initOauth2RefreshTokenGrant alloc req url refreshToken clientId clientSecret scope
  | authorizationCodeGrant url code redirectUri clientId clientSecret codeVerifier =>
    initOauth2AuthorizationCodeGrant alloc req url code redirectUri clientId clientSecret
      codeVerifier
  | clientCredentialsGrant url clientId clientSecret scope =>
    initOauth2ClientCredentialsGrant alloc req url clientId clientSecret scope
  | jwtBearerGrant url assertion scope => initOauth2JwtBearerGrant alloc req url assertion scope
  | deviceAuthorization url clientId scope =>
    initOauth2DeviceAuthorizationRequest alloc req url clientId scope
  | deviceAccessToken url clientId deviceCode =>
    initOauth2DeviceAccessTokenRequest alloc req url clientId deviceCode
  | tokenRevocation url token tokenTypeHint clientId clientSecret =>
    initOauth2TokenRevocation alloc req url token tokenTypeHint clientId clientSecret
  | tokenIntrospection url token tokenTypeHint clientId clientSecret =>
    initOauth2TokenIntrospection alloc req url token tokenTypeHint clientId clientSecret

/-- The endpoint, the first argument of every builder. -/
def url : Oauth2Call → Option CString
  | passwordGrant url .. => url
  | refreshTokenGrant url .. => url
  | authorizationCodeGrant url .. => url
  | clientCredentialsGrant url .. => url
  | jwtBearerGrant url .. => url
  | deviceAuthorization url .. => url
  | deviceAccessToken url .. => url
  | tokenRevocation url .. => url
  | tokenIntrospection url .. => url

end Oauth2Call

/-- The header that every builder adds. -/
def formContentType : HttpHeader :=
  ⟨some (literal "Content-Type"), some (literal "application/x-www-form-urlencoded")⟩

/-- What a builder that fails leaves of a request, by the step at which it fails. -/
inductive LeftByError (alloc : FormAlloc) (url : Option CString) (req : HttpRequest) :
    HttpRequest → ErrorCode → Prop where
  | argument : LeftByError alloc url req req .inval
  | urlCopy {u : CString} (hurl : url = some u) (halloc : alloc .url (u.length + 1) = false) :
      LeftByError alloc url req { req with url := none } .nomem
  | header {u : CString} {headers : HttpHeaders} {block : HeadersBlock} {size : ℕ}
      (hurl : url = some u) (halloc : alloc (.headers block) size = false)
      (hheaders : headers.headers = req.headers.headers) :
      LeftByError alloc url req
        { req with url := some u, method := .post, headers := headers } .nomem
  | body {u : CString} {headers : HttpHeaders} {size : ℕ}
      (hurl : url = some u) (halloc : alloc .body size = false)
      (hheaders : headers.headers = req.headers.headers ++ [formContentType]) :
      LeftByError alloc url req
        { req with url := some u, method := .post, headers := headers } .nomem

section Errors

variable {alloc : FormAlloc} {req after : HttpRequest} {url : Option CString} {e : ErrorCode}

/-- An addition of two strings fails for want of memory only. -/
theorem headersAdd_error {alloc : HeadersAlloc} {headers headers' : HttpHeaders}
    {key value : CString}
    (h : headersAdd alloc headers (some key) (some value) = (headers', some e)) :
    e = .nomem ∧ (∃ block size, alloc block size = false) ∧ headers'.headers = headers.headers := by
  have hentries : headers'.headers = headers.headers := by
    rcases headersAdd_headers alloc headers key value with ⟨hok, -⟩ | ⟨-, hkept⟩
    · rw [h] at hok
      contradiction
    · rwa [h] at hkept
  rw [headersAdd, headersGrow] at h
  have hrefused : ∃ block size, alloc block size = false := by
    by_contra hnone
    have hgrant : ∀ block size, alloc block size = true := by simpa using hnone
    simp only [hgrant, if_true, Bool.true_eq_false, if_false] at h
    split at h
    next heq =>
      split at heq
      · contradiction
      · contradiction
    next =>
      obtain ⟨-, hnone⟩ := Prod.mk.inj h
      contradiction
  refine ⟨?_, hrefused, hentries⟩
  split at h
  next => exact (Option.some.inj (Prod.mk.inj h).2).symm
  next =>
    split_ifs at h
    · exact (Option.some.inj (Prod.mk.inj h).2).symm
    · exact (Option.some.inj (Prod.mk.inj h).2).symm
    · exact absurd (Prod.mk.inj h).2 (by simp)

theorem initForm_error {fields : List FormField}
    (h : initForm alloc req url fields = (after, some e)) : LeftByError alloc url req after e := by
  cases url with
  | none =>
    obtain ⟨rfl, he⟩ := Prod.mk.inj h
    obtain rfl := Option.some.inj he
    exact .argument
  | some u =>
    simp only [initForm] at h
    split_ifs at h with hmissing hurl hheader hbody
    · obtain ⟨rfl, he⟩ := Prod.mk.inj h
      obtain rfl := Option.some.inj he
      exact .argument
    · obtain ⟨rfl, he⟩ := Prod.mk.inj h
      obtain rfl := Option.some.inj he
      exact .urlCopy rfl hurl
    · obtain ⟨rfl, he⟩ := Prod.mk.inj h
      obtain ⟨rfl, ⟨block, size, halloc⟩, hentries⟩ := headersAdd_error (Prod.ext rfl he)
      exact .header rfl halloc hentries
    · obtain ⟨rfl, he⟩ := Prod.mk.inj h
      obtain rfl := Option.some.inj he
      refine .body rfl hbody ?_
      rcases headersAdd_headers (fun block => alloc (.headers block)) req.headers
        (literal "Content-Type") (literal "application/x-www-form-urlencoded") with
        ⟨-, hadded⟩ | ⟨⟨e, hfailed⟩, -⟩
      · exact hadded
      · exact absurd (by rw [hfailed]; rfl) hheader
    · exact absurd (Prod.mk.inj h).2 (by simp)

/-- A builder that fails leaves the body and its length, and the rest of the request as far as it
had come: untouched when an argument is missing, with a NULL URL when that was not copied, with URL
and method but the same header entries when the header was not added, and with the header as well
when the body was not allocated. -/
theorem oauth2_left_by_error (call : Oauth2Call)
    (h : call.init alloc req = (after, some e)) :
    after.body = req.body ∧ after.bodyLen = req.bodyLen ∧
      LeftByError alloc call.url req after e := by
  have hleft : LeftByError alloc call.url req after e := by
    cases call <;> exact initForm_error h
  refine ⟨?_, ?_, hleft⟩
  · cases hleft <;> rfl
  · cases hleft <;> rfl

end Errors

/-- A call that asks for a device code, with no memory for the body. -/
theorem oauth2_left_by_error_device :
    let call := Oauth2Call.deviceAuthorization (literal "u") (literal "c") none
    let alloc : FormAlloc := fun block _ => block ≠ .body
    ∃ after, call.init alloc .init = (after, some .nomem) ∧ after.body = none ∧
      after.bodyLen = 0 ∧ LeftByError alloc (literal "u") .init after .nomem := by
  intro call alloc
  refine ⟨(call.init alloc .init).1, by decide +kernel, ?_⟩
  exact oauth2_left_by_error call (Prod.ext rfl (by decide +kernel))

/-- The URL and the method of a request are lost when there is no memory for the body. -/
theorem oauth2_error_changes_request :
    ¬ ∀ (call : Oauth2Call) (alloc : FormAlloc) (req after : HttpRequest) (e : ErrorCode),
      call.init alloc req = (after, some e) →
        after.url = req.url ∧ after.method = req.method ∧
          after.headers.headers = req.headers.headers ∧ after.body = req.body ∧
          after.bodyLen = req.bodyLen := by
  intro h
  let call := Oauth2Call.deviceAuthorization (literal "u") (literal "c") none
  let alloc : FormAlloc := fun block _ => block ≠ .body
  have hsame := h call alloc .init (call.init alloc .init).1 .nomem
    (Prod.ext rfl (by decide +kernel))
  exact absurd hsame.2.1 (by decide +kernel)

end AbstractHttp.Http
