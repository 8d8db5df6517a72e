import AbstractHttp.EventStream.Numbers
import AbstractHttp.Transport.Response

/-!
# URLs as four transports split them

The msh3 transport has its own `parse_url`, and `http_libevent_send` splits the URL in place. All
four look for the first colon and the first slash behind the scheme.
-/
namespace AbstractHttp.Transport
open Library Http EventStream

/-- What `parse_url` of the msh3 transport fills in; the port is a text. -/
structure Msh3Url where
  scheme : List UInt8
  host : List UInt8
  port : List UInt8
  path : List UInt8
  deriving DecidableEq, Repr

/-- What it allocates. -/
inductive Msh3Block where
  | scheme
  | host
  | port
  | path
  deriving DecidableEq, Repr

/-- `parse_url` of the msh3 transport. -/
def msh3ParseUrl (alloc : Msh3Block → ℕ → Bool) (url : CString) : Except ErrorCode Msh3Url :=
  match strstr url.bytes (asciiBytes "://".toList) with
  | none => .error .inval
  | some schemeLen =>
    let scheme := url.bytes.take schemeLen
    let h := url.bytes.drop (schemeLen + 3)
    let slashAt := strchr h slash
    let colonAt := (strchr h colon).filter fun i => slashAt.all fun j => decide (i < j)
    let host := h.take ((colonAt.or slashAt).getD h.length)
    let port := match colonAt with
      | some i => (h.take (slashAt.getD h.length)).drop (i + 1)
      | none =>
        if scheme = asciiBytes "https".toList then asciiBytes "443".toList
        else asciiBytes "80".toList
    let path := (slashAt.map h.drop).getD [slash]
    if alloc .scheme (scheme.length + 1) = false then .error .nomem
    else if alloc .host (host.length + 1) = false then .error .nomem
    else if alloc .port (port.length + 1) = false then .error .nomem
    else if alloc .path (path.length + 1) = false then .error .nomem
    else .ok { scheme, host, port, path }

/-- The size of the host buffer in `http_libevent_send`. -/
def libeventHostSize : ℕ := 256

/-- The splitting in `http_libevent_send`; a host that does not fit stays empty. -/
def libeventSplit (url : CString) : UrlParts :=
  let p := if schemeHttp <+: url.bytes then url.bytes.drop 7 else url.bytes
  let slashAt := strchr p slash
  let colonAt := (strchr p colon).filter fun i => slashAt.all fun j => decide (i < j)
  let len := (colonAt.or slashAt).getD p.length
  { host := if len < libeventHostSize then p.take len else []
    port := (colonAt.map fun i => atoi (p.drop (i + 1))).getD 80
    path := (slashAt.map p.drop).getD [slash] }

/-! The URLs and their components. -/

inductive UrlScheme where
  | http
  | https
  deriving DecidableEq, Repr

namespace UrlScheme

def text : UrlScheme → List UInt8
  | http => asciiBytes "http".toList
  | https => asciiBytes "https".toList

def port : UrlScheme → ℕ
  | http => 80
  | https => 443

end UrlScheme

/-- The bytes of a host. -/
def HostByte (b : UInt8) : Prop := b ≠ 0 ∧ b ∉ [colon, slash, 0x3F, 0x23]

instance (b : UInt8) : Decidable (HostByte b) := inferInstanceAs (Decidable (_ ∧ _))

/-- A URL with its components; a port is at most 65535, and a path begins with a slash. -/
structure HttpUrl where
  scheme : UrlScheme
  host : List UInt8
  port : Option (List UInt8)
  path : Option (List UInt8)
  named : host ≠ []
  hostBytes : ∀ b ∈ host, HostByte b
  short : host.length < 256
  portDigits : ∀ digits ∈ port, ∀ b ∈ digits, isDigitByte b = true
  portRange : ∀ digits ∈ port, 1 ≤ decimalValue digits ∧ decimalValue digits ≤ 65535
  rooted : ∀ p ∈ path, p.head? = some slash
  pathBytes : ∀ p ∈ path, 0 ∉ p

namespace HttpUrl

/-- What stands behind the scheme. -/
def behind (url : HttpUrl) : List UInt8 :=
  url.host ++ (url.port.elim [] (colon :: ·) ++ url.path.getD [])

def bytes (url : HttpUrl) : List UInt8 := url.scheme.text ++ (asciiBytes "://".toList ++ url.behind)

/-- The components, with the defaults for those that are absent. -/
def parts (url : HttpUrl) : UrlParts where
  host := url.host
  port := (url.port.map decimalValue).getD url.scheme.port
  path := url.path.getD [slash]

variable {url : HttpUrl}

theorem digit_ne {b : UInt8} (h : isDigitByte b = true) : b ≠ 0 ∧ b ≠ slash := by
  have hrange := digit_range h
  simp [slash, ← UInt8.toNat_inj]
  omega

theorem bytes_noNul (url : HttpUrl) : 0 ∉ url.bytes := by
  have hscheme : 0 ∉ url.scheme.text := by cases url.scheme <;> decide
  have hport : 0 ∉ url.port.elim [] (colon :: ·) := by
    cases hport : url.port with
    | none => exact List.not_mem_nil
    | some digits =>
      rw [Option.elim, List.mem_cons, not_or]
      exact ⟨by decide, fun hmem => (digit_ne (url.portDigits digits hport 0 hmem)).1 rfl⟩
  have hpath : 0 ∉ url.path.getD [] := by
    cases hpath : url.path with
    | none => exact List.not_mem_nil
    | some path => exact url.pathBytes path hpath
  simp only [bytes, behind, List.mem_append, not_or]
  exact ⟨hscheme, by decide, fun hmem => (url.hostBytes 0 hmem).1 rfl, hport, hpath⟩

/-- The URL as a caller passes it. -/
def text (url : HttpUrl) : CString := ⟨url.bytes, url.bytes_noNul⟩

/-- How many bytes stand between host and path. -/
def portLen (url : HttpUrl) : ℕ := url.port.elim 0 fun digits => digits.length + 1

theorem colon_not_mem_host (url : HttpUrl) : colon ∉ url.host := fun hmem =>
  (url.hostBytes colon hmem).2 (by simp)

theorem slash_not_mem_host (url : HttpUrl) : slash ∉ url.host := fun hmem =>
  (url.hostBytes slash hmem).2 (by simp)

theorem slash_not_mem_port (url : HttpUrl) : slash ∉ url.port.elim [] (colon :: ·) := by
  cases hport : url.port with
  | none => exact List.not_mem_nil
  | some digits =>
    rw [Option.elim, List.mem_cons, not_or]
    exact ⟨by decide, fun hmem => (digit_ne (url.portDigits digits hport slash hmem)).2 rfl⟩

theorem path_cons {path : List UInt8} (h : url.path = some path) : ∃ rest, path = slash :: rest := by
  have hrooted := url.rooted path h
  cases path with
  | nil => cases hrooted
  | cons c rest =>
    obtain rfl := Option.some.inj hrooted
    exact ⟨rest, rfl⟩

theorem authority_length (url : HttpUrl) :
    (url.host ++ url.port.elim [] (colon :: ·)).length = url.host.length + url.portLen := by
  rw [List.length_append, portLen]
  cases url.port <;> rfl

/-- The first slash begins the path. -/
theorem strchr_slash (url : HttpUrl) :
    strchr url.behind slash = url.path.map fun _ => url.host.length + url.portLen := by
  have hfront : slash ∉ url.host ++ url.port.elim [] (colon :: ·) := by
    rw [List.mem_append, not_or]
    exact ⟨url.slash_not_mem_host, url.slash_not_mem_port⟩
  rw [behind, ← List.append_assoc]
  cases hpath : url.path with
  | none =>
    rw [Option.getD_none, List.append_nil]
    exact List.idxOf?_eq_none_iff.mpr hfront
  | some path =>
    obtain ⟨rest, rfl⟩ := path_cons hpath
    rw [Option.getD_some, strchr_first _ hfront, authority_length]
    rfl

/-- The first colon counts when it begins the port, and not when it stands behind a slash. -/
theorem strchr_colon (url : HttpUrl) (before : ℕ → ℕ → Bool)
    (hbefore : ∀ i j, i < j → before i j = true) (hbehind : ∀ i j, j < i → before i j = false) :
    ((strchr url.behind colon).filter fun i =>
      (url.path.map fun _ => url.host.length + url.portLen).all (before i)) =
        url.port.map fun _ => url.host.length := by
  cases hport : url.port with
  | some digits =>
    have hcolon : strchr url.behind colon = some url.host.length := by
      rw [behind, hport]
      exact strchr_first _ url.colon_not_mem_host
    have hearlier : (url.path.map fun _ => url.host.length + url.portLen).all
        (before url.host.length) = true := by
      cases url.path with
      | none => rfl
      | some path => exact hbefore _ _ (by simp [portLen, hport])
    rw [hcolon, Option.filter_some, hearlier, if_pos rfl]
    rfl
  | none =>
    have hplain : url.behind = url.host ++ url.path.getD [] := by
      rw [behind, hport]
      rfl
    cases hpath : url.path with
    | none =>
      have hnone : strchr url.behind colon = none := by
        rw [hplain, hpath, Option.getD_none, List.append_nil]
        exact List.idxOf?_eq_none_iff.mpr url.colon_not_mem_host
      rw [hnone]
      rfl
    | some path =>
      obtain ⟨rest, rfl⟩ := path_cons hpath
      cases hcolon : strchr url.behind colon with
      | none => rfl
      | some i =>
        obtain ⟨hi, hat, -⟩ := List.idxOf?_eq_some_iff.mp hcolon
        have hbyte : (url.host ++ slash :: rest)[i]? = some colon := by
          rw [← List.getElem?_eq_some_iff.mpr ⟨hi, hat⟩, hplain, hpath, Option.getD_some]
        have hlate : url.host.length + url.portLen < i := by
          rw [portLen, hport, Option.elim, Nat.add_zero]
          rcases lt_trichotomy i url.host.length with hlt | rfl | hgt
          · rw [List.getElem?_append_left hlt] at hbyte
            exact absurd (List.mem_of_getElem? hbyte) url.colon_not_mem_host
          · rw [List.getElem?_append_right le_rfl, Nat.sub_self, List.getElem?_cons_zero] at hbyte
            exact absurd (Option.some.inj hbyte) (by decide)
          · exact hgt
        simp [hbehind _ _ hlate]

/-- Where the host ends. -/
theorem hostLen_eq (url : HttpUrl) :
    ((url.port.map fun _ => url.host.length).or
      (url.path.map fun _ => url.host.length + url.portLen)).getD url.behind.length =
        url.host.length := by
  cases hport : url.port with
  | some digits => rfl
  | none =>
    cases hpath : url.path with
    | none => simp [behind, hport, hpath]
    | some path => simp [portLen, hport]

theorem take_host (url : HttpUrl) : url.behind.take url.host.length = url.host := by
  rw [behind, List.take_left']
  rfl

theorem drop_path {path : List UInt8} (h : url.path = some path) :
    url.behind.drop (url.host.length + url.portLen) = path := by
  rw [behind, ← List.append_assoc, ← authority_length, List.drop_left, h]
  rfl

/-- What stands in front of the path. -/
theorem take_authority (url : HttpUrl) :
    url.behind.take ((url.path.map fun _ => url.host.length + url.portLen).getD url.behind.length) =
      url.host ++ url.port.elim [] (colon :: ·) := by
  cases hpath : url.path with
  | none => rw [Option.map_none, Option.getD_none, List.take_length, behind, hpath,
      Option.getD_none, List.append_nil]
  | some path =>
    rw [Option.map_some, Option.getD_some, behind, ← List.append_assoc, ← authority_length,
      List.take_left']
    rfl

/-- The digits behind the colon are the port. -/
theorem atoi_port {digits : List UInt8} (h : url.port = some digits) :
    atoi (url.behind.drop (url.host.length + 1)) = decimalValue digits := by
  have hrange := url.portRange digits h
  have hne : digits ≠ [] := by
    rintro rfl
    exact absurd hrange.1 (by decide)
  have hdrop : url.behind.drop (url.host.length + 1) = digits ++ url.path.getD [] := by
    rw [behind, h, Option.elim, ← List.drop_drop, List.drop_left]
    rfl
  have hrest : ∀ b ∈ (url.path.getD []).head?, isDigitByte b = false := by
    cases hpath : url.path with
    | none => exact fun b hb => by cases hb
    | some path =>
      obtain ⟨rest, rfl⟩ := path_cons hpath
      rintro b ⟨⟩
      decide
  rw [hdrop, atoi_numeral (url.portDigits digits h) hne hrest]
  exact Nat.lt_of_le_of_lt hrange.2 (by decide)

/-- Host, port and path as cut at the first colon and slash. -/
theorem splitUrl_behind (url : HttpUrl) (defaultPort : ℤ) :
    splitUrl url.behind defaultPort =
      { host := url.host
        port := (url.port.map fun digits => (decimalValue digits : ℤ)).getD defaultPort
        path := url.path.getD [slash] } := by
  have hcolon := url.strchr_colon (fun i j => decide (i ≤ j))
    (fun i j h => decide_eq_true h.le) fun i j h => decide_eq_false (Nat.not_le.mpr h)
  simp only [splitUrl, strchr_slash, hcolon, hostLen_eq, take_host, UrlParts.mk.injEq, true_and]
  constructor
  · cases hport : url.port with
    | none => rfl
    | some digits => exact atoi_port hport
  · cases hpath : url.path with
    | none => rfl
    | some path => exact drop_path hpath

theorem splitUrl_parts (url : HttpUrl) : splitUrl url.behind url.scheme.port = url.parts := by
  rw [splitUrl_behind, parts]
  cases url.port <;> rfl

theorem not_schemeHttp (s : List UInt8) : ¬ schemeHttp <+: schemeHttps ++ s := by
  rw [List.isPrefix_append_of_length (by decide)]
  decide

/-- Both schemes are cut off by the transports that know them. -/
theorem cutScheme_append (scheme : UrlScheme) (s : List UInt8) :
    cutScheme (scheme.text ++ (asciiBytes "://".toList ++ s)) = some (s, (scheme.port : ℤ)) := by
  cases scheme with
  | http =>
    have htext : UrlScheme.http.text ++ (asciiBytes "://".toList ++ s) = schemeHttp ++ s := rfl
    rw [cutScheme, htext, if_pos (List.prefix_append _ _)]
    rfl
  | https =>
    have htext : UrlScheme.https.text ++ (asciiBytes "://".toList ++ s) = schemeHttps ++ s := rfl
    rw [cutScheme, htext, if_neg (not_schemeHttp _), if_pos (List.prefix_append _ _)]
    rfl

theorem cutScheme_text (url : HttpUrl) :
    cutScheme url.text.bytes = some (url.behind, (url.scheme.port : ℤ)) :=
  cutScheme_append url.scheme url.behind

theorem copyParts_granted (parts : UrlParts) : copyParts grantRequest parts = .ok parts := rfl

theorem rawParseUrl_text (url : HttpUrl) :
    rawParseUrl grantRequest (some url.text) = .ok url.parts := by
  rw [rawParseUrl, cutScheme_text]
  dsimp only
  rw [splitUrl_parts, copyParts_granted]

theorem libuvParseUrl_text (url : HttpUrl) :
    libuvParseUrl grantRequest (some url.text) = .ok url.parts := by
  rw [libuvParseUrl, cutScheme_text]
  dsimp only
  rw [splitUrl_parts, copyParts_granted]

/-- The msh3 transport keeps the port as it is written. -/
theorem msh3ParseUrl_text (url : HttpUrl) :
    ∃ msh3, msh3ParseUrl (fun _ _ => true) url.text = .ok msh3 ∧ msh3.host = url.parts.host ∧
      (decimalValue msh3.port : ℤ) = url.parts.port ∧ msh3.path = url.parts.path := by
  have htext : url.text.bytes = url.scheme.text ++ (asciiBytes "://".toList ++ url.behind) := rfl
  have hsearch : strstr url.text.bytes (asciiBytes "://".toList) =
      some url.scheme.text.length := by
    have hcolon : colon ∉ url.scheme.text := by cases url.scheme <;> decide
    have hfound : search (colon :: asciiBytes "//".toList) (asciiBytes "://".toList ++ url.behind) =
        some 0 := search_at_start (List.prefix_append _ _)
    rw [strstr, htext]
    change search (colon :: asciiBytes "//".toList) _ = _
    rw [search_skip _ _ hcolon, hfound, Option.map_some, Nat.zero_add]
  have hdrop : url.text.bytes.drop (url.scheme.text.length + 3) = url.behind := by
    rw [htext, ← List.drop_drop, List.drop_left]
    rfl
  have htake : url.text.bytes.take url.scheme.text.length = url.scheme.text := by
    rw [htext, List.take_left']
    rfl
  have hcolon := url.strchr_colon (fun i j => decide (i < j))
    (fun i j h => decide_eq_true h) fun i j h => decide_eq_false (Nat.lt_asymm h)
  rw [msh3ParseUrl, hsearch]
  simp only [htake, hdrop, strchr_slash, hcolon, hostLen_eq, take_host, take_authority,
    Bool.true_eq_false, if_false]
  refine ⟨_, rfl, rfl, ?_, ?_⟩
  · cases hport : url.port with
    | none =>
      rw [parts, hport]
      cases url.scheme <;> rfl
    | some digits =>
      have hdigits : (url.host ++ colon :: digits).drop (url.host.length + 1) = digits := by
        rw [← List.drop_drop, List.drop_left]
        rfl
      simp only [Option.map_some, Option.elim]
      rw [hdigits, parts, hport]
      rfl
  · cases hpath : url.path with
    | none => simp [parts, hpath]
    | some path => simpa [parts, hpath] using drop_path hpath

end HttpUrl

/-- All four give the components of a URL. -/
def SplittersAgree (url : HttpUrl) : Prop :=
  rawParseUrl grantRequest (some url.text) = .ok url.parts ∧
    libuvParseUrl grantRequest (some url.text) = .ok url.parts ∧
    (∃ msh3, msh3ParseUrl (fun _ _ => true) url.text = .ok msh3 ∧ msh3.host = url.parts.host ∧
      (decimalValue msh3.port : ℤ) = url.parts.port ∧ msh3.path = url.parts.path) ∧
    libeventSplit url.text = url.parts

theorem libeventSplit_http {url : HttpUrl} (hscheme : url.scheme = .http) :
    libeventSplit url.text = url.parts := by
  have htext : url.text.bytes = schemeHttp ++ url.behind := by
    change url.bytes = _
    rw [HttpUrl.bytes, hscheme]
    rfl
  have hdrop : (schemeHttp ++ url.behind).drop 7 = url.behind := rfl
  have hcolon := url.strchr_colon (fun i j => decide (i < j))
    (fun i j h => decide_eq_true h) fun i j h => decide_eq_false (Nat.lt_asymm h)
  have hshort : url.host.length < libeventHostSize := url.short
  rw [libeventSplit, htext, if_pos (List.prefix_append _ _), hdrop]
  simp only [HttpUrl.strchr_slash, hcolon, HttpUrl.hostLen_eq, HttpUrl.take_host, if_pos hshort]
  rw [HttpUrl.parts, hscheme, UrlParts.mk.injEq]
  refine ⟨rfl, ?_, ?_⟩
  · cases hport : url.port with
    | none => rfl
    | some digits => exact HttpUrl.atoi_port hport
  · cases hpath : url.path with
    | none => rfl
    | some path => exact HttpUrl.drop_path hpath

/-- Of another scheme, libevent takes the name for the host, and finds no port behind it. -/
theorem libeventSplit_https {url : HttpUrl} (hscheme : url.scheme = .https) :
    (libeventSplit url.text).port = 0 := by
  let rest := slash :: slash :: url.behind
  have htext : url.text.bytes = asciiBytes "https".toList ++ colon :: rest := by
    change url.bytes = _
    rw [HttpUrl.bytes, hscheme]
    rfl
  have hnot : ¬ schemeHttp <+: asciiBytes "https".toList ++ colon :: rest :=
    HttpUrl.not_schemeHttp url.behind
  have hcolon : strchr (asciiBytes "https".toList ++ colon :: rest) colon = some 5 :=
    strchr_first _ (by decide)
  have hslash : strchr (asciiBytes "https".toList ++ colon :: rest) slash = some 6 :=
    strchr_first (s := asciiBytes "https:".toList) _ (by decide)
  have hport : atoi rest = 0 := by
    rw [atoi, List.dropWhile_cons_of_neg (by decide)]
    rfl
  rw [libeventSplit, htext, if_neg hnot]
  simp only [hcolon, hslash]
  exact hport

theorem HttpUrl.parts_port_pos (url : HttpUrl) : 0 < url.parts.port := by
  refine Int.natCast_pos.mpr ?_
  cases hport : url.port with
  | none => cases url.scheme <;> decide
  | some digits => exact (url.portRange digits hport).1

/-- They do so exactly for plain HTTP, as libevent's splitting takes no other scheme off. -/
theorem splittersAgree_iff (url : HttpUrl) : SplittersAgree url ↔ url.scheme = .http := by
  constructor
  · rintro ⟨-, -, -, hlibevent⟩
    cases hscheme : url.scheme with
    | http => rfl
    | https =>
      have hport := libeventSplit_https hscheme
      rw [hlibevent] at hport
      exact absurd hport url.parts_port_pos.ne'
  · intro hscheme
    exact ⟨url.rawParseUrl_text, url.libuvParseUrl_text, url.msh3ParseUrl_text,
      libeventSplit_http hscheme⟩

/-- A URL whose path has the delimiters in it once more. -/
def secureUrl : HttpUrl where
  scheme := .https
  host := asciiBytes "example.com".toList
  port := some (asciiBytes "8443".toList)
  path := some (asciiBytes "/a:b/c?d://e".toList)
  named := by decide
  hostBytes := List.forall_iff_forall_mem.mp (by decide)
  short := by decide
  portDigits := by
    intro digits hport
    obtain rfl := Option.some.inj hport
    exact List.forall_iff_forall_mem.mp (by decide)
  portRange := by decide
  rooted := by decide
  pathBytes := by decide

/-- Here libevent connects to the host "https" at port 0. -/
theorem secureUrl_disagrees :
    ¬ SplittersAgree secureUrl ∧ (libeventSplit secureUrl.text).host = asciiBytes "https".toList ∧
      (libeventSplit secureUrl.text).port = 0 := by
  refine ⟨fun h => ?_, by decide +kernel, by decide +kernel⟩
  exact absurd (congrArg UrlParts.host h.2.2.2) (by decide +kernel)

end AbstractHttp.Transport
