import AbstractHttp.Http.FormEncoding
import AbstractHttp.Http.RequestFormat

/-!
# The OAuth 2.0 requests

Nine functions of `http_types.c` build a form body each: a first pass counts its bytes, with the
lengths of the parameter names written out, and a second one writes them. They differ in their
parameters only.
-/
namespace AbstractHttp.Http
open EventStream

/-- What the builders allocate. -/
inductive FormBlock where
  | url
  | headers (block : HeadersBlock)
  | body
  deriving DecidableEq, Repr

/-- Which requests for memory are granted, by block and size. -/
abbrev FormAlloc := FormBlock → ℕ → Bool

/-- A parameter as a builder has it: the text in front of its value, how many bytes the length
pass counts and `memcpy` copies for that, and the argument, which may be NULL where the builder
asks before it writes. -/
structure FormField where
  text : List UInt8
  counted : ℕ
  copied : ℕ
  argument : Option CString
  optional : Bool

/-- A string literal. -/
def literal (s : String) : CString := .ofBytes (asciiBytes s.toList)

/-- "Calculate length". -/
def formBodyLen (fields : List FormField) : ℕ :=
  (fields.map fun field =>
    field.argument.elim 0 fun value => field.counted + mathUrlencodeLen value.bytes).sum

/-- The bytes that the second pass writes. -/
def formBody (fields : List FormField) : List UInt8 :=
  fields.flatMap fun field => field.argument.elim [] fun value =>
    field.text.take field.copied ++ urlencodeAppend value.bytes

/-- What the builders have in common. -/
def initForm (alloc : FormAlloc) (req : HttpRequest) (url : Option CString)
    (fields : List FormField) : HttpRequest × Option ErrorCode :=
  match url with
  | none => (req, some .inval)
  | some url =>
    if fields.any fun field => ¬ field.optional ∧ field.argument = none then (req, some .inval)
    else if alloc .url (url.length + 1) = false then ({ req with url := none }, some .nomem)
    else
      let added := headersAdd (fun block => alloc (.headers block)) req.headers
        (some (literal "Content-Type")) (some (literal "application/x-www-form-urlencoded"))
      let req := { req with url := some url, method := .post, headers := added.1 }
      if added.2.isSome then (req, added.2)
      else if alloc .body (formBodyLen fields + 1) = false then (req, some .nomem)
      else
        ({ req with body := some (formBody fields ++ [0]), bodyLen := formBodyLen fields }, none)

/-- A parameter that must be there. -/
def field (text : String) (counted copied : ℕ) (argument : Option CString) : FormField :=
  ⟨asciiBytes text.toList, counted, copied, argument, false⟩

/-- A parameter that may be NULL. -/
def fieldIf (text : String) (counted copied : ℕ) (argument : Option CString) : FormField :=
  ⟨asciiBytes text.toList, counted, copied, argument, true⟩

section Builders

variable (alloc : FormAlloc) (req : HttpRequest)

/-- `http_request_init_oauth2_password_grant`. -/
def initOauth2PasswordGrant
    (tokenEndpointUrl username password clientId clientSecret scope : Option CString) :
    HttpRequest × Option ErrorCode :=
  initForm alloc req tokenEndpointUrl
    [field "grant_type=" 11 11 (some (literal "password")),
      field "&username=" 10 10 username,
      field "&password=" 10 10 password,
      fieldIf "&client_id=" 11 11 clientId,
      fieldIf "&client_secret=" 15 15 clientSecret,
      fieldIf "&scope=" 7 7 scope]

/-- `http_request_init_oauth2_refresh_token_grant`. -/
def initOauth2RefreshTokenGrant
    (tokenEndpointUrl refreshToken clientId clientSecret scope : Option CString) :
    HttpRequest × Option ErrorCode :=
  initForm alloc req tokenEndpointUrl
    [field "grant_type=" 11 11 (some (literal "refresh_token")),
      field "&refresh_token=" 15 15 refreshToken,
      fieldIf "&client_id=" 11 11 clientId,
      fieldIf "&client_secret=" 15 15 clientSecret,
      fieldIf "&scope=" 7 7 scope]

/-- `http_request_init_oauth2_authorization_code_grant`. -/
def initOauth2AuthorizationCodeGrant
    (tokenEndpointUrl code redirectUri clientId clientSecret codeVerifier : Option CString) :
    HttpRequest × Option ErrorCode :=
  initForm alloc req tokenEndpointUrl
    [field "grant_type=" 11 11 (some (literal "authorization_code")),
      field "&code=" 6 6 code,
      fieldIf "&redirect_uri=" 14 14 redirectUri,
      fieldIf "&client_id=" 11 11 clientId,
      fieldIf "&client_secret=" 15 15 clientSecret,
      fieldIf "&code_verifier=" 15 15 codeVerifier]

/-- `http_request_init_oauth2_client_credentials_grant`. -/
def initOauth2ClientCredentialsGrant
    (tokenEndpointUrl clientId clientSecret scope : Option CString) :
    HttpRequest × Option ErrorCode :=
  initForm alloc req tokenEndpointUrl
    [field "grant_type=" 11 11 (some (literal "client_credentials")),
      fieldIf "&client_id=" 11 11 clientId,
      fieldIf "&client_secret=" 15 15 clientSecret,
      fieldIf "&scope=" 7 7 scope]

/-- `http_request_init_oauth2_jwt_bearer_grant`. -/
def initOauth2JwtBearerGrant (tokenEndpointUrl assertion scope : Option CString) :
    HttpRequest × Option ErrorCode :=
  initForm alloc req tokenEndpointUrl
    [field "grant_type=" 11 11 (some (literal "urn:ietf:params:oauth:grant-type:jwt-bearer")),
      field "&assertion=" 11 11 assertion,
      fieldIf "&scope=" 7 7 scope]

/-- `http_request_init_oauth2_device_authorization_request`. -/
def initOauth2DeviceAuthorizationRequest (deviceEndpointUrl clientId scope : Option CString) :
    HttpRequest × Option ErrorCode :=
  initForm alloc req deviceEndpointUrl
    [field "client_id=" 10 10 clientId,
      fieldIf "&scope=" 7 7 scope]

/-- `http_request_init_oauth2_device_access_token_request`. -/
def initOauth2DeviceAccessTokenRequest (tokenEndpointUrl clientId deviceCode : Option CString) :
    HttpRequest × Option ErrorCode :=
  initForm alloc req tokenEndpointUrl
    [field "grant_type=" 11 11 (some (literal "urn:ietf:params:oauth:grant-type:device_code")),
      field "&client_id=" 11 11 clientId,
      field "&device_code=" 13 13 deviceCode]

/-- `http_request_init_oauth2_token_revocation`. -/
def initOauth2TokenRevocation
    (revocationEndpointUrl token tokenTypeHint clientId clientSecret : Option CString) :
    HttpRequest × Option ErrorCode :=
  initForm alloc req revocationEndpointUrl
    [field "token=" 6 6 token,
      fieldIf "&token_type_hint=" 17 17 tokenTypeHint,
      fieldIf "&client_id=" 11 11 clientId,
      fieldIf "&client_secret=" 15 15 clientSecret]

/-- `http_request_init_oauth2_token_introspection`. -/
def initOauth2TokenIntrospection
    (introspectionEndpointUrl token tokenTypeHint clientId clientSecret : Option CString) :
    HttpRequest × Option ErrorCode :=
  initForm alloc req introspectionEndpointUrl
    [field "token=" 6 6 token,
      fieldIf "&token_type_hint=" 17 17 tokenTypeHint,
      fieldIf "&client_id=" 11 11 clientId,
      fieldIf "&client_secret=" 15 15 clientSecret]

end Builders

/-! How a form is read. -/

/-- A key and the value behind the first `=`, decoded. -/
def readPair (piece : List UInt8) : Option (List UInt8 × CString) :=
  (cutAt equalsSign piece).bind fun x =>
    (urldecodeAlloc x.2 true).toOption.map fun value => (x.1, value)

/-- The pairs between the `&`. -/
def readForm (text : List UInt8) : Option (List (List UInt8 × CString)) :=
  (text.splitOn ampersand).mapM readPair

/-- A pair as a form has it. -/
def formPiece (param : List UInt8 × CString) : List UInt8 :=
  param.1 ++ equalsSign :: urlencodeAppend param.2.bytes

/-- A key that leaves the form readable. -/
def FormKey (key : List UInt8) : Prop := ampersand ∉ key ∧ equalsSign ∉ key ∧ 0 ∉ key

instance (key : List UInt8) : Decidable (FormKey key) := inferInstanceAs (Decidable (_ ∧ _ ∧ _))

section Reading

variable {params : List (List UInt8 × CString)}

theorem readPair_formPiece {param : List UInt8 × CString} (hkey : FormKey param.1) :
    readPair (formPiece param) = some param := by
  have hcut : cutAt equalsSign (formPiece param) = some (param.1, urlencodeAppend param.2.bytes) :=
    cutAt_eq_some.mpr ⟨rfl, hkey.2.1⟩
  rw [readPair, hcut, Option.bind_some, urldecodeAlloc_urlencodeAppend]
  rfl

theorem ampersand_not_mem_formPiece {param : List UInt8 × CString} (hkey : FormKey param.1) :
    ampersand ∉ formPiece param := by
  rw [formPiece, List.mem_append, List.mem_cons, not_or, not_or]
  exact ⟨hkey.1, by decide, not_mem_urlencodeAppend (by decide) (by decide) (by decide) _⟩

theorem mapM_readPair (hkeys : ∀ param ∈ params, FormKey param.1) :
    (params.map formPiece).mapM readPair = some params := by
  induction params with
  | nil => rfl
  | cons param params ih =>
    obtain ⟨hkey, hkeys⟩ := List.forall_mem_cons.mp hkeys
    rw [List.map_cons, List.mapM_cons, readPair_formPiece hkey, ih hkeys]
    rfl

/-- A form with at least one parameter reads back. -/
theorem readForm_intercalate (hkeys : ∀ param ∈ params, FormKey param.1) (hne : params ≠ []) :
    readForm ([ampersand].intercalate (params.map formPiece)) = some params := by
  have hpieces : ∀ piece ∈ params.map formPiece, ampersand ∉ piece := by
    intro piece hpiece
    obtain ⟨param, hparam, rfl⟩ := List.mem_map.mp hpiece
    exact ampersand_not_mem_formPiece (hkeys param hparam)
  rw [readForm, List.splitOn_intercalate ampersand hpieces (by simpa using hne), mapM_readPair hkeys]

end Reading

/-! What the builders write. -/

/-- A parameter that may be absent. -/
def optionalParam (key : String) (argument : Option CString) : List (List UInt8 × CString) :=
  argument.toList.map fun value => (asciiBytes key.toList, value)

/-- The text in front of the value has the key, and its bytes are counted right. -/
structure FormField.Names (field : FormField) (sep key : List UInt8) : Prop where
  text : field.text = sep ++ (key ++ [equalsSign])
  counted : field.counted = field.text.length
  copied : field.copied = field.text.length
  key : FormKey key

/-- The fields of a builder write these parameters; `sep` is what stands in front of the first. -/
inductive Writes : List UInt8 → List FormField → List (List UInt8 × CString) → Prop where
  | done : Writes [ampersand] [] []
  | param {sep key : List UInt8} {field : FormField} {value : CString} {fields : List FormField}
      {params : List (List UInt8 × CString)} : field.Names sep key → field.argument = some value →
      Writes [ampersand] fields params → Writes sep (field :: fields) ((key, value) :: params)
  | absent {field : FormField} {fields : List FormField}
      {params : List (List UInt8 × CString)} : field.argument = none → field.optional = true →
      Writes [ampersand] fields params → Writes [ampersand] (field :: fields) params

section Passes

variable {field : FormField} {value : CString}

theorem formBody_some (h : field.argument = some value) (fields : List FormField) :
    formBody (field :: fields) =
      field.text.take field.copied ++ urlencodeAppend value.bytes ++ formBody fields := by
  rw [formBody, List.flatMap_cons, h]
  rfl

theorem formBody_none (h : field.argument = none) (fields : List FormField) :
    formBody (field :: fields) = formBody fields := by
  rw [formBody, List.flatMap_cons, h]
  rfl

theorem formBodyLen_some (h : field.argument = some value) (fields : List FormField) :
    formBodyLen (field :: fields) =
      field.counted + mathUrlencodeLen value.bytes + formBodyLen fields := by
  rw [formBodyLen, List.map_cons, List.sum_cons, h]
  rfl

theorem formBodyLen_none (h : field.argument = none) (fields : List FormField) :
    formBodyLen (field :: fields) = formBodyLen fields := by
  rw [formBodyLen, List.map_cons, List.sum_cons, h]
  exact Nat.zero_add _

end Passes

namespace Writes

variable {sep : List UInt8} {fields : List FormField} {params : List (List UInt8 × CString)}

theorem optional {key : String} {field : FormField}
    (hnames : field.Names [ampersand] (asciiBytes key.toList)) (hoptional : field.optional = true)
    (h : Writes [ampersand] fields params) :
    Writes [ampersand] (field :: fields) (optionalParam key field.argument ++ params) := by
  cases hargument : field.argument with
  | none => exact .absent hargument hoptional h
  | some value => exact .param hnames hargument h

theorem keys (h : Writes sep fields params) : ∀ param ∈ params, FormKey param.1 := by
  induction h with
  | done => exact fun param hparam => absurd hparam List.not_mem_nil
  | param hnames _ _ ih => exact List.forall_mem_cons.mpr ⟨hnames.key, ih⟩
  | absent _ _ _ ih => exact ih

theorem required (h : Writes sep fields params) :
    (fields.any fun field => ¬ field.optional ∧ field.argument = none) = false := by
  induction h with
  | done => rfl
  | param _ hargument _ ih => simp [hargument] at ih ⊢; exact ih
  | absent _ hoptional _ ih => simp [hoptional] at ih ⊢; exact ih

/-- Both passes agree on the number of bytes. -/
theorem length (h : Writes sep fields params) : (formBody fields).length = formBodyLen fields := by
  induction h with
  | done => rfl
  | param hnames hargument _ ih =>
    rw [formBody_some hargument, formBodyLen_some hargument, hnames.counted, hnames.copied,
      List.take_length, List.length_append, List.length_append, urlencodeAppend_length, ih]
  | absent hargument _ _ ih => rw [formBody_none hargument, formBodyLen_none hargument, ih]

theorem body_nil (h : Writes sep fields []) : formBody fields = [] := by
  generalize hparams : ([] : List (List UInt8 × CString)) = params at h
  induction h with
  | done => rfl
  | param => cases hparams
  | absent hargument _ _ ih => rw [formBody_none hargument, ih hparams]

/-- The second pass writes the pairs with an `&` between them. -/
theorem body (h : Writes sep fields params) (hne : params ≠ []) :
    formBody fields = sep ++ [ampersand].intercalate (params.map formPiece) := by
  induction h with
  | done => exact absurd rfl hne
  | @param sep key field value fields params hnames hargument hrest ih =>
    have hpiece : field.text ++ urlencodeAppend value.bytes = sep ++ formPiece (key, value) := by
      rw [hnames.text, formPiece]
      simp
    rw [formBody_some hargument, hnames.copied, List.take_length, hpiece, List.map_cons]
    by_cases hlast : params = []
    · subst hlast
      rw [hrest.body_nil, List.map_nil, List.intercalate_singleton, List.append_nil]
    · rw [ih hlast, List.intercalate_cons_of_ne_nil (by simpa using hlast)]
      simp
  | absent hargument _ _ ih => rw [formBody_none hargument, ih hne]

theorem noNul (h : Writes sep fields params) (hsep : 0 ∉ sep) : 0 ∉ formBody fields := by
  induction h with
  | done => exact List.not_mem_nil
  | param hnames hargument _ ih =>
    have hvalue := not_mem_urlencodeAppend (b := 0) (by decide) (by decide) (by decide)
    rw [formBody_some hargument, hnames.copied, List.take_length, hnames.text]
    simp only [List.mem_append, List.mem_singleton, not_or]
    exact ⟨⟨⟨hsep, hnames.key.2.2, by decide⟩, hvalue _⟩, ih (by decide)⟩
  | absent hargument _ _ ih =>
    rw [formBody_none hargument]
    exact ih hsep

end Writes

/-- A request that carries a form: its body is a C string of `bodyLen` bytes, which reads as these
parameters. -/
structure CarriesForm (req : HttpRequest) (params : List (List UInt8 × CString)) : Prop where
  ends : ∃ text : CString, req.body = some (text.bytes ++ [0]) ∧ text.length = req.bodyLen ∧
    readForm text.bytes = some params

theorem initForm_carriesForm {alloc : FormAlloc} (hgrant : ∀ block n, alloc block n = true)
    (req : HttpRequest) (url : CString) {fields : List FormField}
    {params : List (List UInt8 × CString)} (hwrites : Writes [] fields params) :
    ∃ built, initForm alloc req (some url) fields = (built, none) ∧ CarriesForm built params := by
  obtain ⟨headers, hadded, -⟩ := headersAdd_of_granted (fun block => hgrant (.headers block))
    req.headers (literal "Content-Type") (literal "application/x-www-form-urlencoded")
  have hne : params ≠ [] := by
    generalize hsep : ([] : List UInt8) = sep at hwrites
    cases hwrites with
    | done => cases hsep
    | param => exact List.cons_ne_nil _ _
    | absent => cases hsep
  have htext : readForm (formBody fields) = some params := by
    rw [hwrites.body hne, List.nil_append]
    exact readForm_intercalate hwrites.keys hne
  let built : HttpRequest :=
    { req with
      url := some url
      method := .post
      headers := headers
      body := some (formBody fields ++ [0])
      bodyLen := formBodyLen fields }
  refine ⟨built, ?_, ⟨⟨formBody fields, hwrites.noNul List.not_mem_nil⟩, rfl, hwrites.length, htext⟩⟩
  simp only [initForm, hwrites.required, hgrant, hadded, Bool.false_eq_true, Bool.true_eq_false,
    if_false, Option.isSome_none, built]

/-- The nine requests, with their arguments. -/
inductive Oauth2Request where
  | passwordGrant (username password : CString) (clientId clientSecret scope : Option CString)
  | refreshTokenGrant (refreshToken : CString) (clientId clientSecret scope : Option CString)
  | authorizationCodeGrant (code : CString)
      (redirectUri clientId clientSecret codeVerifier : Option CString)
  | clientCredentialsGrant (clientId clientSecret scope : Option CString)
  | jwtBearerGrant (assertion : CString) (scope : Option CString)
  | deviceAuthorization (clientId : CString) (scope : Option CString)
  | deviceAccessToken (clientId deviceCode : CString)
  | tokenRevocation (token : CString) (tokenTypeHint clientId clientSecret : Option CString)
  | tokenIntrospection (token : CString) (tokenTypeHint clientId clientSecret : Option CString)

namespace Oauth2Request

/-- The call that builds a request. -/
def init (alloc : FormAlloc) (req : HttpRequest) (url : CString) :
    Oauth2Request → HttpRequest × Option ErrorCode
  | passwordGrant username password clientId clientSecret scope =>
    initOauth2PasswordGrant alloc req url username password clientId clientSecret scope
  | refreshTokenGrant refreshToken clientId clientSecret scope =>
    initOauth2RefreshTokenGrant alloc req url refreshToken clientId clientSecret scope
  | authorizationCodeGrant code redirectUri clientId clientSecret codeVerifier =>
    initOauth2AuthorizationCodeGrant alloc req url code redirectUri clientId clientSecret
      codeVerifier
  | clientCredentialsGrant clientId clientSecret scope =>
    initOauth2ClientCredentialsGrant alloc req url clientId clientSecret scope
  | jwtBearerGrant assertion scope => initOauth2JwtBearerGrant alloc req url assertion scope
  | deviceAuthorization clientId scope =>
    initOauth2DeviceAuthorizationRequest alloc req url clientId scope
  | deviceAccessToken clientId deviceCode =>
    initOauth2DeviceAccessTokenRequest alloc req url clientId deviceCode
  | tokenRevocation token tokenTypeHint clientId clientSecret =>
    initOauth2TokenRevocation alloc req url token tokenTypeHint clientId clientSecret
  | tokenIntrospection token tokenTypeHint clientId clientSecret =>
    initOauth2TokenIntrospection alloc req url token tokenTypeHint clientId clientSecret

/-- A parameter that is there. -/
def param (key : String) (value : CString) : List UInt8 × CString := (asciiBytes key.toList, value)

/-- The parameters of a request. -/
def params : Oauth2Request → List (List UInt8 × CString)
  | passwordGrant username password clientId clientSecret scope =>
    param "grant_type" (literal "password") :: param "username" username ::
      param "password" password :: (optionalParam "client_id" clientId ++
        (optionalParam "client_secret" clientSecret ++ (optionalParam "scope" scope ++ [])))
  | refreshTokenGrant refreshToken clientId clientSecret scope =>
    param "grant_type" (literal "refresh_token") :: param "refresh_token" refreshToken ::
      (optionalParam "client_id" clientId ++ (optionalParam "client_secret" clientSecret ++
        (optionalParam "scope" scope ++ [])))
  | authorizationCodeGrant code redirectUri clientId clientSecret codeVerifier =>
    param "grant_type" (literal "authorization_code") :: param "code" code ::
      (optionalParam "redirect_uri" redirectUri ++ (optionalParam "client_id" clientId ++
        (optionalParam "client_secret" clientSecret ++
          (optionalParam "code_verifier" codeVerifier ++ []))))
  | clientCredentialsGrant clientId clientSecret scope =>
    param "grant_type" (literal "client_credentials") ::
      (optionalParam "client_id" clientId ++ (optionalParam "client_secret" clientSecret ++
        (optionalParam "scope" scope ++ [])))
  | jwtBearerGrant assertion scope =>
    param "grant_type" (literal "urn:ietf:params:oauth:grant-type:jwt-bearer") ::
      param "assertion" assertion :: (optionalParam "scope" scope ++ [])
  | deviceAuthorization clientId scope =>
    param "client_id" clientId :: (optionalParam "scope" scope ++ [])
  | deviceAccessToken clientId deviceCode =>
    [param "grant_type" (literal "urn:ietf:params:oauth:grant-type:device_code"),
      param "client_id" clientId, param "device_code" deviceCode]
  | tokenRevocation token tokenTypeHint clientId clientSecret =>
    param "token" token :: (optionalParam "token_type_hint" tokenTypeHint ++
      (optionalParam "client_id" clientId ++ (optionalParam "client_secret" clientSecret ++ [])))
  | tokenIntrospection token tokenTypeHint clientId clientSecret =>
    param "token" token :: (optionalParam "token_type_hint" tokenTypeHint ++
      (optionalParam "client_id" clientId ++ (optionalParam "client_secret" clientSecret ++ [])))

end Oauth2Request

/-! The parameters that several builders end with. -/

theorem writes_scope (scope : Option CString) :
    Writes [ampersand] [fieldIf "&scope=" 7 7 scope] (optionalParam "scope" scope ++ []) :=
  .optional ⟨rfl, rfl, rfl, by decide⟩ rfl .done

theorem writes_client {fields : List FormField} {params : List (List UInt8 × CString)}
    (clientId clientSecret : Option CString) (h : Writes [ampersand] fields params) :
    Writes [ampersand]
      (fieldIf "&client_id=" 11 11 clientId :: fieldIf "&client_secret=" 15 15 clientSecret ::
        fields)
      (optionalParam "client_id" clientId ++
        (optionalParam "client_secret" clientSecret ++ params)) :=
  .optional ⟨rfl, rfl, rfl, by decide⟩ rfl (.optional ⟨rfl, rfl, rfl, by decide⟩ rfl h)

/-- Each of the nine requests carries its parameters, in order and with the strings it was given,
in as many bytes as were counted. -/
theorem oauth2_carriesForm (request : Oauth2Request) {alloc : FormAlloc}
    (hgrant : ∀ block n, alloc block n = true) (req : HttpRequest) (url : CString) :
    ∃ built, request.init alloc req url = (built, none) ∧ CarriesForm built request.params := by
  cases request with
  | passwordGrant username password clientId clientSecret scope =>
    dsimp only [Oauth2Request.init, Oauth2Request.params, initOauth2PasswordGrant]
    refine initForm_carriesForm hgrant req url (.param ⟨rfl, rfl, rfl, by decide⟩ rfl ?_)
    refine .param ⟨rfl, rfl, rfl, by decide⟩ rfl (.param ⟨rfl, rfl, rfl, by decide⟩ rfl ?_)
    exact writes_client clientId clientSecret (writes_scope scope)
  | refreshTokenGrant refreshToken clientId clientSecret scope =>
    dsimp only [Oauth2Request.init, Oauth2Request.params, initOauth2RefreshTokenGrant]
    refine initForm_carriesForm hgrant req url (.param ⟨rfl, rfl, rfl, by decide⟩ rfl ?_)
    refine .param ⟨rfl, rfl, rfl, by decide⟩ rfl ?_
    exact writes_client clientId clientSecret (writes_scope scope)
  | authorizationCodeGrant code redirectUri clientId clientSecret codeVerifier =>
    dsimp only [Oauth2Request.init, Oauth2Request.params, initOauth2AuthorizationCodeGrant]
    refine initForm_carriesForm hgrant req url (.param ⟨rfl, rfl, rfl, by decide⟩ rfl ?_)
    refine .param ⟨rfl, rfl, rfl, by decide⟩ rfl (.optional ⟨rfl, rfl, rfl, by decide⟩ rfl ?_)
    refine writes_client clientId clientSecret ?_
    exact .optional ⟨rfl, rfl, rfl, by decide⟩ rfl .done
  | clientCredentialsGrant clientId clientSecret scope =>
    dsimp only [Oauth2Request.init, Oauth2Request.params, initOauth2ClientCredentialsGrant]
    refine initForm_carriesForm hgrant req url (.param ⟨rfl, rfl, rfl, by decide⟩ rfl ?_)
    exact writes_client clientId clientSecret (writes_scope scope)
  | jwtBearerGrant assertion scope =>
    dsimp only [Oauth2Request.init, Oauth2Request.params, initOauth2JwtBearerGrant]
    refine initForm_carriesForm hgrant req url (.param ⟨rfl, rfl, rfl, by decide⟩ rfl ?_)
    exact .param ⟨rfl, rfl, rfl, by decide⟩ rfl (writes_scope scope)
  | deviceAuthorization clientId scope =>
    dsimp only [Oauth2Request.init, Oauth2Request.params, initOauth2DeviceAuthorizationRequest]
    refine initForm_carriesForm hgrant req url (.param ⟨rfl, rfl, rfl, by decide⟩ rfl ?_)
    exact writes_scope scope
  | deviceAccessToken clientId deviceCode =>
    dsimp only [Oauth2Request.init, Oauth2Request.params, initOauth2DeviceAccessTokenRequest]
    refine initForm_carriesForm hgrant req url (.param ⟨rfl, rfl, rfl, by decide⟩ rfl ?_)
    refine .param ⟨rfl, rfl, rfl, by decide⟩ rfl (.param ⟨rfl, rfl, rfl, by decide⟩ rfl ?_)
    exact .done
  | tokenRevocation token tokenTypeHint clientId clientSecret =>
    dsimp only [Oauth2Request.init, Oauth2Request.params, initOauth2TokenRevocation]
    refine initForm_carriesForm hgrant req url (.param ⟨rfl, rfl, rfl, by decide⟩ rfl ?_)
    refine .optional ⟨rfl, rfl, rfl, by decide⟩ rfl ?_
    exact writes_client clientId clientSecret .done
  | tokenIntrospection token tokenTypeHint clientId clientSecret =>
    dsimp only [Oauth2Request.init, Oauth2Request.params, initOauth2TokenIntrospection]
    refine initForm_carriesForm hgrant req url (.param ⟨rfl, rfl, rfl, by decide⟩ rfl ?_)
    refine .optional ⟨rfl, rfl, rfl, by decide⟩ rfl ?_
    exact writes_client clientId clientSecret .done

theorem oauth2_carriesForm_passwordGrant :
    ∃ built, (Oauth2Request.passwordGrant (literal "a b") (literal "p&=%") none none
        (some (literal "x+y"))).init (fun _ _ => true) .init (literal "http://h/") = (built, none) ∧
      CarriesForm built
        [(asciiBytes "grant_type".toList, literal "password"),
          (asciiBytes "username".toList, literal "a b"),
          (asciiBytes "password".toList, literal "p&=%"),
          (asciiBytes "scope".toList, literal "x+y")] :=
  oauth2_carriesForm (.passwordGrant (literal "a b") (literal "p&=%") none none
    (some (literal "x+y"))) (fun _ _ => rfl) .init (literal "http://h/")

end AbstractHttp.Http
