import AbstractHttp.Http.Loopback

/-!
# The authorization code flow

`http_oauth2_build_authorization_url` writes the parameters of a request behind an endpoint. What
the server answers comes back through `http_oauth2_localhost_intercept`, and
`http_request_init_oauth2_authorization_code_grant` sends the code on.
-/
namespace AbstractHttp.Http
open EventStream

def numberSign : UInt8 := 0x23

/-- A block with a string in it. -/
structure UrlBlock where
  size : ℕ
  bytes : List UInt8
  deriving DecidableEq, Repr

/-- The parameters, each with the bytes that are counted and copied for its name. -/
def authorizationFields (clientId responseType redirectUri scope state codeChallenge
    codeChallengeMethod : Option CString) : List FormField :=
  [field "response_type=" 14 14 responseType,
    field "&client_id=" 11 11 clientId,
    fieldIf "&redirect_uri=" 14 14 redirectUri,
    fieldIf "&scope=" 7 7 scope,
    fieldIf "&state=" 7 7 state,
    fieldIf "&code_challenge=" 16 16 codeChallenge,
    fieldIf "&code_challenge_method=" 23 23 codeChallengeMethod]

/-- `http_oauth2_build_authorization_url`; `alloc` is which sizes `malloc` grants, and `outUrl`
whether that pointer is not NULL. -/
def buildAuthorizationUrl (alloc : ℕ → Bool) (outUrl : Bool)
    (authEndpoint clientId responseType redirectUri scope state codeChallenge
      codeChallengeMethod : Option CString) : Except ErrorCode UrlBlock :=
  match authEndpoint with
  | none => .error .inval
  | some endpoint =>
    if clientId = none ∨ responseType = none ∨ outUrl = false then .error .inval
    else
      let hasQuery := questionMark ∈ endpoint.bytes
      let fields := authorizationFields clientId responseType redirectUri scope state codeChallenge
        codeChallengeMethod
      let len := endpoint.length + 1 + formBodyLen fields
      if alloc (len + 1) = false then .error .nomem
      else
        .ok ⟨len + 1, endpoint.bytes ++
          (if hasQuery then ampersand else questionMark) :: formBody fields ++ [0]⟩

/-! What a server reads. -/

/-- What stands between the first `?` of a URL and its fragment. -/
def urlQuery (url : List UInt8) : Option (List UInt8) :=
  (cutAt questionMark (url.takeWhile (· ≠ numberSign))).map Prod.snd

/-- The parameters of a URL. -/
def urlParams (url : List UInt8) : Option (List (List UInt8 × CString)) :=
  (urlQuery url).elim (some []) readForm

/-- The parameters of a redirect: the code, and the state as it was read. -/
def authorizationResponse (code : CString) (read : List (List UInt8 × CString)) :
    List (List UInt8 × CString) :=
  Oauth2Request.param "code" code ::
    (optionalParam "state" (lastValue (asciiBytes "state".toList) read) ++ [])

/-- The arguments with which a URL can be built. -/
structure AuthorizationRequest where
  authEndpoint : CString
  clientId : CString
  responseType : CString
  redirectUri : Option CString
  scope : Option CString
  state : Option CString
  codeChallenge : Option CString
  codeChallengeMethod : Option CString

namespace AuthorizationRequest

def fields (request : AuthorizationRequest) : List FormField :=
  authorizationFields request.clientId request.responseType request.redirectUri request.scope
    request.state request.codeChallenge request.codeChallengeMethod

def buildUrl (request : AuthorizationRequest) (alloc : ℕ → Bool) : Except ErrorCode UrlBlock :=
  buildAuthorizationUrl alloc true request.authEndpoint request.clientId request.responseType
    request.redirectUri request.scope request.state request.codeChallenge
    request.codeChallengeMethod

/-- The parameters in front of the state. -/
def front (request : AuthorizationRequest) : List (List UInt8 × CString) :=
  Oauth2Request.param "response_type" request.responseType ::
    Oauth2Request.param "client_id" request.clientId ::
      (optionalParam "redirect_uri" request.redirectUri ++ optionalParam "scope" request.scope)

/-- The parameters behind it. -/
def back (request : AuthorizationRequest) : List (List UInt8 × CString) :=
  optionalParam "code_challenge" request.codeChallenge ++
    (optionalParam "code_challenge_method" request.codeChallengeMethod ++ [])

def params (request : AuthorizationRequest) : List (List UInt8 × CString) :=
  request.front ++ (optionalParam "state" request.state ++ request.back)

end AuthorizationRequest

section Query

variable {front query : List UInt8}

theorem urlQuery_eq_some (h : numberSign ∉ front ++ questionMark :: query)
    (hfront : questionMark ∉ front) : urlQuery (front ++ questionMark :: query) = some query := by
  have hwhole : (front ++ questionMark :: query).takeWhile (· ≠ numberSign) =
      front ++ questionMark :: query :=
    List.takeWhile_eq_self_iff.mpr fun b hb => decide_eq_true (ne_of_mem_of_not_mem hb h)
  rw [urlQuery, hwhole, cutAt_eq_some.mpr ⟨rfl, hfront⟩]
  rfl

theorem urlQuery_eq_none (hfront : questionMark ∉ front) : urlQuery front = none := by
  rw [urlQuery, Option.map_eq_none_iff, Option.eq_none_iff_forall_ne_some]
  rintro ⟨x, y⟩ hcut
  have hwhole := (cutAt_eq_some.mp hcut).1
  have hmem : questionMark ∈ front.takeWhile (· ≠ numberSign) := by
    rw [hwhole]
    exact List.mem_append_right x List.mem_cons_self
  exact hfront (List.takeWhile_subset _ hmem)

end Query

/-- A form behind another one. -/
theorem readForm_append (front back : List UInt8) :
    readForm (front ++ ampersand :: back) =
      (readForm front).bind fun before => (readForm back).map (before ++ ·) := by
  simp only [readForm, List.splitOn_eq_splitOnP]
  rw [List.splitOnP_append_cons (p := (· == ampersand)) _ _ (beq_self_eq_true ampersand),
    List.mapM_append]
  cases (List.splitOnP (· == ampersand) front).mapM readPair with
  | none => rfl
  | some before =>
    cases (List.splitOnP (· == ampersand) back).mapM readPair with
    | none => rfl
    | some behind => rfl

/-- What is written behind a URL is read behind what the URL has of its own. -/
theorem urlParams_append {url query : List UInt8} (hurl : numberSign ∉ url)
    (hquery : numberSign ∉ query) {params : List (List UInt8 × CString)}
    (hread : readForm query = some params) :
    urlParams (url ++ (if questionMark ∈ url then ampersand else questionMark) :: query) =
      (urlParams url).map (· ++ params) := by
  by_cases hmark : questionMark ∈ url
  · obtain ⟨front, own, rfl, hfront⟩ := List.eq_append_cons_of_mem hmark
    have hwhole : numberSign ∉ front ++ questionMark :: (own ++ ampersand :: query) := by
      simp only [List.mem_append, List.mem_cons, not_or] at hurl ⊢
      exact ⟨hurl.1, hurl.2.1, hurl.2.2, by decide, hquery⟩
    rw [if_pos hmark, List.append_assoc, List.cons_append, urlParams, urlParams,
      urlQuery_eq_some hwhole hfront, urlQuery_eq_some hurl hfront, Option.elim_some,
      Option.elim_some, readForm_append, hread, Option.map_eq_bind]
    rfl
  · have hwhole : numberSign ∉ url ++ questionMark :: query := by
      simp only [List.mem_append, List.mem_cons, not_or]
      exact ⟨hurl, by decide, hquery⟩
    rw [if_neg hmark, urlParams, urlParams, urlQuery_eq_some hwhole hmark, urlQuery_eq_none hmark,
      Option.elim_some, hread]
    rfl

/-- A byte that no name has and no value is encoded with. -/
theorem Writes.not_mem {sep : List UInt8} {fields : List FormField}
    {params : List (List UInt8 × CString)} (h : Writes sep fields params) {b : UInt8}
    (hreserved : urlUnreserved b = false) (hb : b ∉ [plus, percent, ampersand, equalsSign])
    (hkeys : ∀ param ∈ params, b ∉ param.1) (hsep : b ∉ sep) : b ∉ formBody fields := by
  simp only [List.mem_cons, List.not_mem_nil, or_false, not_or] at hb
  obtain ⟨hplus, hpercent, hampersand, hequals⟩ := hb
  have hand : b ∉ [ampersand] := by simpa using hampersand
  induction h with
  | done => exact List.not_mem_nil
  | param hnames hargument _ ih =>
    obtain ⟨hkey, hkeys⟩ := List.forall_mem_cons.mp hkeys
    rw [formBody_some hargument, hnames.copied, List.take_length, hnames.text]
    simp only [List.mem_append, List.mem_singleton, not_or]
    exact ⟨⟨⟨hsep, hkey, hequals⟩, not_mem_urlencodeAppend hreserved hplus hpercent _⟩,
      ih hkeys hand⟩
  | absent hargument _ _ ih =>
    rw [formBody_none hargument]
    exact ih hkeys hsep

namespace AuthorizationRequest

variable (request : AuthorizationRequest)

/-- The fields of the builder write the parameters. -/
theorem writes : Writes [] request.fields request.params := by
  rw [fields, authorizationFields, params, front, back, List.cons_append, List.cons_append,
    List.append_assoc]
  refine .param ⟨rfl, rfl, rfl, by decide⟩ rfl (.param ⟨rfl, rfl, rfl, by decide⟩ rfl ?_)
  refine .optional ⟨rfl, rfl, rfl, by decide⟩ rfl (.optional ⟨rfl, rfl, rfl, by decide⟩ rfl ?_)
  refine .optional ⟨rfl, rfl, rfl, by decide⟩ rfl (.optional ⟨rfl, rfl, rfl, by decide⟩ rfl ?_)
  exact .optional ⟨rfl, rfl, rfl, by decide⟩ rfl .done

theorem params_ne_nil : request.params ≠ [] := List.cons_ne_nil _ _

theorem keys_numberSign : ∀ param ∈ request.params, numberSign ∉ param.1 := by
  intro param hparam
  simp only [params, front, back, optionalParam, Oauth2Request.param, List.append_nil,
    List.mem_append, List.mem_cons, List.mem_map] at hparam
  rcases hparam with (rfl | rfl | ⟨value, -, rfl⟩ | ⟨value, -, rfl⟩) | ⟨value, -, rfl⟩ |
    ⟨value, -, rfl⟩ | ⟨value, -, rfl⟩ <;> dsimp only <;> decide

/-- The state is the last parameter with its key, whatever the endpoint has of its own. -/
theorem lastValue_state {state : CString} (hstate : request.state = some state)
    (own : List (List UInt8 × CString)) :
    lastValue (asciiBytes "state".toList) (own ++ request.params) = some state := by
  have hback : request.back.filter (fun param => param.1 = asciiBytes "state".toList) = [] := by
    rw [List.filter_eq_nil_iff]
    intro param hparam
    simp only [back, optionalParam, List.append_nil, List.mem_append, List.mem_map] at hparam
    rw [decide_eq_true_iff]
    rcases hparam with ⟨value, -, rfl⟩ | ⟨value, -, rfl⟩ <;> dsimp only <;> decide
  have hone : optionalParam "state" request.state = [(asciiBytes "state".toList, state)] := by
    rw [optionalParam, hstate]
    rfl
  rw [lastValue, params, hone, List.filter_append, List.filter_append, List.filter_append, hback,
    List.append_nil, ← List.append_assoc, List.filter_singleton, decide_eq_true rfl, cond_true,
    List.getLast?_concat]
  rfl

/-- With memory at hand, a URL comes out of which a server reads the parameters. -/
theorem buildUrl_reads {alloc : ℕ → Bool} (hgrant : ∀ n, alloc n = true)
    (hfragment : numberSign ∉ request.authEndpoint.bytes) :
    ∃ url : CString, request.buildUrl alloc = .ok ⟨url.length + 1, url.bytes ++ [0]⟩ ∧
      urlParams url.bytes = (urlParams request.authEndpoint.bytes).map (· ++ request.params) := by
  have hbody := request.writes.body request.params_ne_nil
  rw [List.nil_append] at hbody
  have hread := readForm_intercalate request.writes.keys request.params_ne_nil
  rw [← hbody] at hread
  have hnumber : numberSign ∉ formBody request.fields :=
    request.writes.not_mem (by decide) (by decide) request.keys_numberSign List.not_mem_nil
  let sep := if questionMark ∈ request.authEndpoint.bytes then ampersand else questionMark
  have hsep : 0 ≠ sep := by
    dsimp only [sep]
    split_ifs <;> decide
  have hnoNul : 0 ∉ request.authEndpoint.bytes ++ sep :: formBody request.fields := by
    rw [List.mem_append, List.mem_cons, not_or, not_or]
    exact ⟨request.authEndpoint.noNul, hsep, request.writes.noNul List.not_mem_nil⟩
  refine ⟨⟨_, hnoNul⟩, ?_, urlParams_append hfragment hnumber hread⟩
  have hlength : CString.length ⟨_, hnoNul⟩ =
      request.authEndpoint.length + 1 + formBodyLen request.fields := by
    rw [CString.length, List.length_append, List.length_cons, request.writes.length,
      CString.length]
    omega
  rw [hlength, buildUrl, buildAuthorizationUrl]
  simp only [hgrant, reduceCtorEq, or_self, if_false, sep]
  rfl

end AuthorizationRequest

section Response

variable (code : CString) {read : List (List UInt8 × CString)}

theorem authorizationResponse_keys :
    ∀ param ∈ authorizationResponse code read, RedirectKey param.1 := by
  intro param hparam
  simp only [authorizationResponse, optionalParam, Oauth2Request.param, List.append_nil,
    List.mem_cons, List.mem_map] at hparam
  rcases hparam with rfl | ⟨value, -, rfl⟩ <;> dsimp only <;> decide

theorem lastValue_response (before : List (List UInt8 × CString)) {state : CString}
    (hread : lastValue (asciiBytes "state".toList) read = some state) :
    lastValue (asciiBytes "code".toList) (before ++ authorizationResponse code read) =
        some code ∧
      lastValue (asciiBytes "state".toList) (before ++ authorizationResponse code read) =
        some state := by
  have htwo : before ++ authorizationResponse code read =
      before ++ [(asciiBytes "code".toList, code)] ++ [(asciiBytes "state".toList, state)] := by
    rw [authorizationResponse, hread, List.append_assoc]
    rfl
  rw [htwo]
  refine ⟨?_, ?_⟩
  · rw [lastValue_concat, if_neg (by dsimp only; decide), lastValue_concat, if_pos rfl]
  · rw [lastValue_concat, if_pos rfl]

end Response

/-- A redirect is read by its last values. -/
theorem localhostIntercept_redirectText {alloc : ℕ → Bool} (hgrant : ∀ n, alloc n = true)
    {path rest : List UInt8} (hpath : RedirectPath path) {params : List (List UInt8 × CString)}
    (hkeys : ∀ param ∈ params, RedirectKey param.1)
    (hfits : (redirectText path params rest).length ≤ 4095) :
    localhostIntercept alloc (fun _ => true) (some (redirectText path params rest)) =
      (expectedOuts (fun _ => true) params, none) := by
  obtain ⟨c, text, htext⟩ := List.exists_cons_of_ne_nil
    (show redirectText path params rest ≠ [] from List.cons_ne_nil _ _)
  rw [htext, localhostIntercept, ← htext, List.take_of_length_le hfits,
    redirectText_cut hpath hkeys rest, readRedirect_redirectText hgrant _ hpath hkeys]

/-- The token request with a code. -/
theorem initOauth2AuthorizationCodeGrant_carriesForm {alloc : FormAlloc}
    (hgrant : ∀ block n, alloc block n = true) (req : HttpRequest) (url code : CString)
    (redirectUri clientId clientSecret codeVerifier : Option CString) :
    ∃ built, initOauth2AuthorizationCodeGrant alloc req url code redirectUri clientId clientSecret
        codeVerifier = (built, none) ∧
      CarriesForm built (Oauth2Request.authorizationCodeGrant code redirectUri clientId clientSecret
        codeVerifier).params := by
  refine initForm_carriesForm hgrant req url (.param ⟨rfl, rfl, rfl, by decide⟩ rfl ?_)
  refine .param ⟨rfl, rfl, rfl, by decide⟩ rfl (.optional ⟨rfl, rfl, rfl, by decide⟩ rfl ?_)
  refine writes_client clientId clientSecret ?_
  exact .optional ⟨rfl, rfl, rfl, by decide⟩ rfl .done

/-- A server that reads the URL finds every parameter behind those that the endpoint has of its
own. Where it redirects with a code and the state that it has read, behind whatever parameters the
redirect URI has, the client gets back the code and its own state, and the token request carries
them. -/
theorem authorizationCode_roundTrip (request : AuthorizationRequest) {alloc : ℕ → Bool}
    (hgrant : ∀ n, alloc n = true) {formAlloc : FormAlloc}
    (hform : ∀ block n, formAlloc block n = true)
    (hfragment : numberSign ∉ request.authEndpoint.bytes) {state : CString}
    (hstate : request.state = some state) {own : List (List UInt8 × CString)}
    (hown : urlParams request.authEndpoint.bytes = some own) :
    ∃ url : CString, request.buildUrl alloc = .ok ⟨url.length + 1, url.bytes ++ [0]⟩ ∧
      urlParams url.bytes = some (own ++ request.params) ∧
      ∀ (code : CString) (path rest : List UInt8) (before : List (List UInt8 × CString)),
        RedirectPath path → (∀ param ∈ before, RedirectKey param.1) →
        (redirectText path (before ++ authorizationResponse code (own ++ request.params))
          rest).length ≤ 4095 →
        ∃ outs, localhostIntercept alloc (fun _ => true) (some (redirectText path
            (before ++ authorizationResponse code (own ++ request.params)) rest)) = (outs, none) ∧
          outs .state = some state ∧ outs .code = some code ∧
          ∀ (req : HttpRequest) (tokenUrl : CString) (clientSecret codeVerifier : Option CString),
            ∃ built, initOauth2AuthorizationCodeGrant formAlloc req tokenUrl (outs .code)
                request.redirectUri request.clientId clientSecret codeVerifier = (built, none) ∧
              CarriesForm built (Oauth2Request.authorizationCodeGrant code request.redirectUri
                request.clientId clientSecret codeVerifier).params := by
  obtain ⟨url, hbuilt, hread⟩ := request.buildUrl_reads hgrant hfragment
  rw [hown, Option.map_some] at hread
  refine ⟨url, hbuilt, hread, fun code path rest before hpath hbefore hfits => ?_⟩
  have hkeys : ∀ param ∈ before ++ authorizationResponse code (own ++ request.params),
      RedirectKey param.1 :=
    List.forall_mem_append.mpr ⟨hbefore, authorizationResponse_keys code⟩
  obtain ⟨hcode, hstate⟩ := lastValue_response code before (request.lastValue_state hstate own)
  have hcode' : expectedOuts (fun _ => true)
      (before ++ authorizationResponse code (own ++ request.params)) .code = some code := hcode
  refine ⟨_, localhostIntercept_redirectText hgrant hpath hkeys hfits, hstate, hcode', ?_⟩
  intro req tokenUrl clientSecret codeVerifier
  rw [hcode']
  exact initOauth2AuthorizationCodeGrant_carriesForm hform req tokenUrl code request.redirectUri
    request.clientId clientSecret codeVerifier

/-- A request to an endpoint with a query of its own, in which a state stands too. -/
def reservedState : AuthorizationRequest where
  authEndpoint := literal "https://h/auth?state=x"
  clientId := literal "id"
  responseType := literal "code"
  redirectUri := some (literal "http://localhost:8/cb")
  scope := none
  state := some (literal "a&code=#b")
  codeChallenge := none
  codeChallengeMethod := none

theorem authorizationCode_roundTrip_reservedState :
    ∃ url : CString, reservedState.buildUrl (fun _ => true) =
        .ok ⟨url.length + 1, url.bytes ++ [0]⟩ ∧
      urlParams url.bytes = some ((asciiBytes "state".toList, literal "x") ::
        reservedState.params) ∧
      ∃ outs, localhostIntercept (fun _ => true) (fun _ => true)
          (some (redirectText (asciiBytes "/cb".toList) (authorizationResponse (literal "c")
            ((asciiBytes "state".toList, literal "x") :: reservedState.params)) [])) =
          (outs, none) ∧
        outs .state = some (literal "a&code=#b") ∧ outs .code = some (literal "c") := by
  obtain ⟨url, hbuilt, hread, hflow⟩ := @authorizationCode_roundTrip reservedState (fun _ => true)
    (fun _ => rfl) (fun _ _ => true) (fun _ _ => rfl) (by decide) _ rfl
    [(asciiBytes "state".toList, literal "x")] (by decide +kernel)
  obtain ⟨outs, houts, hstate, hcode, -⟩ := hflow (literal "c") (asciiBytes "/cb".toList) [] []
    (by decide) (by simp) (by decide)
  exact ⟨url, hbuilt, hread, outs, houts, hstate, hcode⟩

end AbstractHttp.Http
