import AbstractHttp.Library.UriText
import AbstractHttp.Transport.UrlSplitters

/-!
# URLs of RFC 3986

The URLs of the `http` and `https` schemes with all components that the grammar
gives them, and what `parse_url` of the raw and the libuv transport makes of them.
-/
namespace AbstractHttp.Transport
open Library Http EventStream

def atSign : UInt8 := 0x40
def questionMark : UInt8 := 0x3F

/-- A URL without a fragment. An IPv4 address has the form of a registered name; a port is at least 1
and at most 65535. -/
structure RfcUrl where
  scheme : UrlScheme
  userinfo : Option (List UInt8)
  host : List UInt8
  port : Option (List UInt8)
  path : List UInt8
  query : Option (List UInt8)
  userinfoText : ∀ text ∈ userinfo, isUriText UriText.userinfo text = true
  hostText : isUriText UriText.regName host = true
  portDigits : ∀ digits ∈ port, ∀ b ∈ digits, isDigitByte b = true
  portRange : ∀ digits ∈ port, 1 ≤ decimalValue digits ∧ decimalValue digits ≤ 65535
  pathText : isUriText UriText.path path = true
  rooted : path = [] ∨ path.head? = some slash
  queryText : ∀ text ∈ query, isUriText UriText.query text = true

namespace RfcUrl

/-- What stands between the slashes and the path. -/
def authority (url : RfcUrl) : List UInt8 :=
  url.userinfo.elim [] (fun text => text ++ [atSign]) ++
    (url.host ++ url.port.elim [] (colon :: ·))

/-- What stands behind the authority. -/
def tail (url : RfcUrl) : List UInt8 := url.path ++ url.query.elim [] (questionMark :: ·)

def bytes (url : RfcUrl) : List UInt8 :=
  url.scheme.text ++ (asciiBytes "://".toList ++ (url.authority ++ url.tail))

/-- Host and port of the authority, and the target: the path, a slash for an empty one, with the
query. -/
def parts (url : RfcUrl) : UrlParts where
  host := url.host
  port := (url.port.map decimalValue).getD url.scheme.port
  path := (if url.path = [] then [slash] else url.path) ++
    url.query.elim [] (questionMark :: ·)

variable {url : RfcUrl}

theorem not_mem_host (url : RfcUrl) {b : UInt8}
    (hb : (UriText.regName b || b == 0x25 || UriText.hexdig b) = false) : b ∉ url.host :=
  not_mem_of_isUriText url.hostText hb

theorem not_mem_userinfo (url : RfcUrl) {b : UInt8}
    (hb : (UriText.userinfo b || b == 0x25 || UriText.hexdig b) = false) :
    ∀ text ∈ url.userinfo, b ∉ text := fun text htext =>
  not_mem_of_isUriText (url.userinfoText text htext) hb

theorem not_mem_port (url : RfcUrl) {b : UInt8} (hb : isDigitByte b = false) (hcolon : b ≠ colon) :
    b ∉ url.port.elim [] (colon :: ·) := by
  cases hport : url.port with
  | none => exact List.not_mem_nil
  | some digits =>
    rw [Option.elim, List.mem_cons, not_or]
    exact ⟨hcolon, fun hmem => Bool.false_ne_true
      (hb.symm.trans (url.portDigits digits hport b hmem))⟩

/-- Neither a NUL nor a slash stands in an authority. -/
theorem not_mem_authority (url : RfcUrl) {b : UInt8} (h : b = 0 ∨ b = slash) :
    b ∉ url.authority := by
  have hclass : (UriText.userinfo b || b == 0x25 || UriText.hexdig b) = false ∧
      (UriText.regName b || b == 0x25 || UriText.hexdig b) = false ∧ isDigitByte b = false ∧
      b ≠ colon ∧ b ≠ atSign := by
    rcases h with rfl | rfl <;> decide
  obtain ⟨huserinfo, hhost, hdigit, hcolon, hat⟩ := hclass
  rw [authority, List.mem_append, List.mem_append, not_or, not_or]
  refine ⟨?_, url.not_mem_host hhost, url.not_mem_port hdigit hcolon⟩
  cases hinfo : url.userinfo with
  | none => exact List.not_mem_nil
  | some text =>
    rw [Option.elim, List.mem_append, List.mem_singleton, not_or]
    exact ⟨url.not_mem_userinfo huserinfo text hinfo, hat⟩

theorem bytes_noNul (url : RfcUrl) : 0 ∉ url.bytes := by
  have hscheme : 0 ∉ url.scheme.text := by cases url.scheme <;> decide
  have hpath : 0 ∉ url.path := not_mem_of_isUriText url.pathText (by decide)
  have hquery : 0 ∉ url.query.elim [] (questionMark :: ·) := by
    cases hquery : url.query with
    | none => exact List.not_mem_nil
    | some text =>
      rw [Option.elim, List.mem_cons, not_or]
      exact ⟨by decide, not_mem_of_isUriText (url.queryText text hquery) (by decide)⟩
  simp only [bytes, tail, List.mem_append, not_or]
  exact ⟨hscheme, by decide, url.not_mem_authority (Or.inl rfl), hpath, hquery⟩

/-- The URL as a caller passes it. -/
def text (url : RfcUrl) : CString := ⟨url.bytes, url.bytes_noNul⟩

end RfcUrl

section Cuts

variable {front rest : List UInt8} {c : UInt8}

/-- What the front does not hold is found behind it. -/
theorem strchr_behind (rest : List UInt8) (h : c ∉ front) :
    strchr (front ++ rest) c = (strchr rest c).map (· + front.length) := by
  induction front with
  | nil => simp [strchr]
  | cons b front ih =>
    obtain ⟨hb, hfront⟩ := List.ne_and_not_mem_of_not_mem_cons h
    have hnext := ih hfront
    rw [strchr] at hnext ⊢
    rw [List.cons_append, List.idxOf?_cons, if_neg (by simpa using hb.symm), hnext]
    cases strchr rest c <;> simp [Nat.add_assoc]

/-- Where a text of an authority and a path is cut at the slash. -/
theorem strchr_slash_cut (hfront : slash ∉ front) (hrest : rest = [] ∨ rest.head? = some slash) :
    strchr (front ++ rest) slash = if rest = [] then none else some front.length := by
  rw [strchr_behind rest hfront]
  cases rest with
  | nil => rfl
  | cons b rest =>
    obtain hnil | hhead := hrest
    · cases hnil
    · obtain rfl := Option.some.inj hhead
      simp [strchr, List.idxOf?_cons]

/-- Without a colon in the authority, all of it is the host. -/
theorem splitUrl_plain (hfront : slash ∉ front) (hcolon : colon ∉ front)
    (hrest : rest = [] ∨ rest.head? = some slash) (defaultPort : ℤ) :
    splitUrl (front ++ rest) defaultPort =
      { host := front, port := defaultPort, path := if rest = [] then [slash] else rest } := by
  have hslash := strchr_slash_cut hfront hrest
  have hport := strchr_behind rest hcolon
  cases rest with
  | nil =>
    have hnone : strchr (front ++ []) slash = none ∧ strchr (front ++ []) colon = none :=
      ⟨hslash, hport⟩
    rw [List.append_nil] at hnone ⊢
    simp [splitUrl, hnone.1, hnone.2]
  | cons b rest =>
    have hlate : ((strchr (front ++ b :: rest) colon).filter fun i =>
        decide (i ≤ front.length)) = none := by
      obtain hnil | hhead := hrest
      · cases hnil
      · obtain rfl := Option.some.inj hhead
        have hne : (slash == colon) = false := by decide
        rw [hport, strchr, List.idxOf?_cons, if_neg (by rw [hne]; exact Bool.false_ne_true)]
        cases rest.idxOf? colon <;> simp
    rw [if_neg (List.cons_ne_nil b rest)] at hslash ⊢
    simp only [splitUrl, hslash, Option.all_some, hlate]
    simp

/-- The first colon of the authority ends the host and begins the port. -/
theorem splitUrl_colon {host : List UInt8} (more : List UInt8)
    (hfront : slash ∉ host ++ colon :: more)
    (hcolon : colon ∉ host) (hrest : rest = [] ∨ rest.head? = some slash) (defaultPort : ℤ) :
    splitUrl (host ++ colon :: more ++ rest) defaultPort =
      { host := host, port := atoi (more ++ rest), path := if rest = [] then [slash] else rest } := by
  have hslash := strchr_slash_cut hfront hrest
  have hport : strchr (host ++ colon :: more ++ rest) colon = some host.length := by
    rw [List.append_assoc]
    exact strchr_first _ hcolon
  have hbefore : (if rest = [] then none else some (host ++ colon :: more).length).all
      (fun j => decide (host.length ≤ j)) = true := by
    split_ifs
    · rfl
    · simp
  have htake : (host ++ colon :: more ++ rest).take host.length = host := by
    rw [List.append_assoc, List.take_left' rfl]
  have hdrop : (host ++ colon :: more ++ rest).drop (host.length + 1) = more ++ rest := by
    rw [List.append_assoc, ← List.drop_drop, List.drop_left]
    rfl
  have hpath : ((if rest = [] then none else some (host ++ colon :: more).length).map
      (host ++ colon :: more ++ rest).drop).getD [slash] = if rest = [] then [slash] else rest := by
    split_ifs
    · rfl
    · rw [Option.map_some, Option.getD_some, List.drop_left' rfl]
  simp only [splitUrl, hslash, hport, Option.filter_some, hbefore, if_true, Option.map_some,
    Option.some_or, Option.getD_some, htake, hdrop, hpath]

/-- A path found in what follows an authority is no longer than it. -/
theorem splitUrl_path_length (rest : List UInt8) (hfront : slash ∉ front) (defaultPort : ℤ) :
    (splitUrl (front ++ rest) defaultPort).path.length ≤ max 1 rest.length := by
  have hslash := strchr_behind rest hfront
  rw [splitUrl]
  dsimp only
  rw [hslash]
  cases strchr rest slash with
  | none => exact Nat.le_max_left _ _
  | some i =>
    simp only [Option.map_some, Option.getD_some, List.length_drop, List.length_append]
    omega

/-- A text is cut at its first colon in one way only. -/
theorem cut_colon_inj {a a' w w' : List UInt8} (ha : colon ∉ a) (ha' : colon ∉ a')
    (h : a ++ colon :: w = a' ++ colon :: w') : a = a' ∧ w = w' := by
  have hlen : a.length = a'.length := by
    have hfirst := strchr_first w ha
    rw [h, strchr_first w' ha'] at hfirst
    exact (Option.some.inj hfirst).symm
  obtain ⟨hfront, hback⟩ := List.append_inj h hlen
  exact ⟨hfront, (List.cons.inj hback).2⟩

end Cuts

namespace RfcUrl

/-- The condition for a right result: there is a path or no query, and no user information, unless
this is the host again, a colon, and what `atoi` takes for the port. -/
def SplitsRight (url : RfcUrl) : Prop :=
  (url.path ≠ [] ∨ url.query = none) ∧
    ∀ text ∈ url.userinfo, ∃ more, text = url.host ++ colon :: more ∧ atoi more = url.parts.port

variable {url : RfcUrl}

/-- Where a slash can only stand in the path or behind it, the tail is what is asked for. -/
theorem tail_eq (h : url.path ≠ [] ∨ url.query = none) :
    (url.tail = [] ∨ url.tail.head? = some slash) ∧
      (if url.tail = [] then [slash] else url.tail) = url.parts.path := by
  by_cases hpath : url.path = []
  · have hquery : url.query = none := h.resolve_left (not_not.mpr hpath)
    have htail : url.tail = [] := by simp [tail, hpath, hquery]
    exact ⟨Or.inl htail, by simp [htail, parts, hpath, hquery]⟩
  · have hhead := url.rooted.resolve_left hpath
    obtain ⟨b, rest, hcons⟩ := List.exists_cons_of_ne_nil hpath
    have htail : url.tail = b :: (rest ++ url.query.elim [] (questionMark :: ·)) := by
      rw [tail, hcons]
      rfl
    rw [hcons] at hhead
    refine ⟨Or.inr (htail ▸ hhead), ?_⟩
    rw [if_neg (htail ▸ List.cons_ne_nil _ _), parts, if_neg hpath]
    rfl

/-- An authority without user information is cut where host and port meet. -/
theorem splitUrl_of_no_userinfo (hinfo : url.userinfo = none)
    (h : url.path ≠ [] ∨ url.query = none) :
    splitUrl (url.authority ++ url.tail) url.scheme.port = url.parts := by
  obtain ⟨htail, htarget⟩ := tail_eq h
  have hslash := url.not_mem_authority (Or.inr rfl)
  have hcolon : colon ∉ url.host := url.not_mem_host (by decide)
  rw [authority, hinfo, Option.elim, List.nil_append] at hslash ⊢
  cases hport : url.port with
  | none =>
    rw [hport] at hslash
    simp only [Option.elim, List.append_nil] at hslash ⊢
    rw [splitUrl_plain hslash hcolon htail, htarget, parts, hport]
    rfl
  | some digits =>
    have hrange := url.portRange digits hport
    have hne : digits ≠ [] := by
      rintro rfl
      exact absurd hrange.1 (by decide)
    have hrest : ∀ b ∈ url.tail.head?, isDigitByte b = false := by
      rintro b hb
      rcases htail with hnil | hhead
      · rw [hnil] at hb
        cases hb
      · rw [hhead] at hb
        obtain rfl := Option.some.inj hb
        decide
    rw [hport] at hslash
    simp only [Option.elim] at hslash ⊢
    rw [splitUrl_colon _ hslash hcolon htail, htarget,
      atoi_numeral (url.portDigits digits hport) hne hrest (by omega), parts, hport]
    rfl

/-- User information is taken for a host, and what follows its first colon for a port. -/
theorem splitUrl_of_userinfo {text : List UInt8} (hinfo : url.userinfo = some text)
    (h : url.path ≠ [] ∨ url.query = none) :
    splitUrl (url.authority ++ url.tail) url.scheme.port = url.parts ↔
      ∃ more, text = url.host ++ colon :: more ∧ atoi more = url.parts.port := by
  obtain ⟨htail, htarget⟩ := tail_eq h
  have hslash := url.not_mem_authority (Or.inr rfl)
  have hcolon : colon ∉ url.host := url.not_mem_host (by decide)
  have hat : atSign ∉ url.host := url.not_mem_host (by decide)
  rw [authority, hinfo, Option.elim] at hslash ⊢
  by_cases hfirst : colon ∈ text
  · obtain ⟨a, w, rfl, ha⟩ := List.eq_append_cons_of_mem hfirst
    have hcut : a ++ colon :: w ++ [atSign] ++ (url.host ++ url.port.elim [] (colon :: ·)) =
        a ++ colon :: (w ++ atSign :: (url.host ++ url.port.elim [] (colon :: ·))) := by simp
    rw [hcut] at hslash ⊢
    rw [splitUrl_colon _ hslash ha htail, htarget, List.append_assoc, List.cons_append,
      atoi_stop _ _ (by decide) (by decide) (by decide)]
    change UrlParts.mk a (atoi w) url.parts.path =
      UrlParts.mk url.host url.parts.port url.parts.path ↔ _
    rw [UrlParts.mk.injEq]
    constructor
    · rintro ⟨rfl, hport, -⟩
      exact ⟨w, rfl, hport⟩
    · rintro ⟨more, hsame, hport⟩
      obtain ⟨rfl, rfl⟩ := cut_colon_inj ha hcolon hsame
      exact ⟨rfl, hport, rfl⟩
  · refine iff_of_false (fun hparts => ?_) ?_
    · -- the text up to the port is the host, with the at sign in it
      have hfront : colon ∉ text ++ [atSign] ++ url.host := by
        rw [List.mem_append, List.mem_append, not_or, not_or]
        exact ⟨⟨hfirst, by decide⟩, hcolon⟩
      have hhost : url.host = text ++ [atSign] ++ url.host := by
        have hsplit := congrArg UrlParts.host hparts
        rw [← List.append_assoc] at hslash hsplit
        cases hport : url.port with
        | none =>
          rw [hport] at hslash hsplit
          simp only [Option.elim, List.append_nil] at hslash hsplit
          rw [splitUrl_plain hslash hfront htail] at hsplit
          exact hsplit.symm
        | some digits =>
          rw [hport] at hslash hsplit
          simp only [Option.elim] at hslash hsplit
          rw [splitUrl_colon _ hslash hfront htail] at hsplit
          exact hsplit.symm
      apply hat
      rw [hhost]
      simp
    · rintro ⟨more, rfl, -⟩
      exact hfirst (by simp)

/-- Both transports split a URL right exactly when it has a path or no query, and no user
information that is not its host and port once more. -/
theorem parseUrl_iff (url : RfcUrl) :
    (rawParseUrl grantRequest (some url.text) = .ok url.parts ∧
      libuvParseUrl grantRequest (some url.text) = .ok url.parts) ↔ url.SplitsRight := by
  have hscheme : cutScheme url.text.bytes =
      some (url.authority ++ url.tail, (url.scheme.port : ℤ)) := HttpUrl.cutScheme_append _ _
  have hboth : (rawParseUrl grantRequest (some url.text) = .ok url.parts ∧
      libuvParseUrl grantRequest (some url.text) = .ok url.parts) ↔
      splitUrl (url.authority ++ url.tail) url.scheme.port = url.parts := by
    simp only [rawParseUrl, libuvParseUrl, hscheme, HttpUrl.copyParts_granted, Except.ok.injEq,
      and_self]
  rw [hboth, SplitsRight]
  by_cases h : url.path ≠ [] ∨ url.query = none
  · cases hinfo : url.userinfo with
    | none =>
      refine iff_of_true (splitUrl_of_no_userinfo hinfo h) ⟨h, fun text htext => ?_⟩
      cases htext
    | some text =>
      rw [splitUrl_of_userinfo hinfo h]
      simp [h]
  · refine iff_of_false (fun hparts => ?_) fun hright => h hright.1
    obtain ⟨hpath, hquery⟩ := not_or.mp h
    obtain ⟨query, hquery⟩ := Option.ne_none_iff_exists'.mp hquery
    have hpath : url.path = [] := not_not.mp hpath
    have hslash : slash ∉ url.authority ++ [questionMark] := by
      rw [List.mem_append, not_or]
      exact ⟨url.not_mem_authority (Or.inr rfl), by decide⟩
    have htail : url.authority ++ url.tail = url.authority ++ [questionMark] ++ query := by
      simp [tail, hpath, hquery]
    have hlength := splitUrl_path_length query hslash url.scheme.port
    rw [← htail, hparts] at hlength
    simp only [parts, hpath, hquery, if_true, Option.elim, List.length_append, List.length_cons,
      List.length_nil] at hlength
    omega

/-- A name in front of the host. -/
def withUserinfo : RfcUrl where
  scheme := .http
  userinfo := some (asciiBytes "user".toList)
  host := asciiBytes "example.com".toList
  port := none
  path := asciiBytes "/".toList
  query := none
  userinfoText := by decide
  hostText := by decide
  portDigits := fun _ h => by cases h
  portRange := fun _ h => by cases h
  pathText := by decide
  rooted := by decide
  queryText := by decide

/-- A query right behind the host. -/
def withQuery : RfcUrl where
  scheme := .https
  userinfo := none
  host := asciiBytes "auth".toList
  port := none
  path := []
  query := some (asciiBytes "v=1".toList)
  userinfoText := by decide
  hostText := by decide
  portDigits := fun _ h => by cases h
  portRange := fun _ h => by cases h
  pathText := by decide
  rooted := by decide
  queryText := by decide

/-- The name goes into the host, and so does the query. -/
theorem parseUrl_wrong :
    rawParseUrl grantRequest (some withUserinfo.text) ≠ .ok withUserinfo.parts ∧
      libuvParseUrl grantRequest (some withUserinfo.text) ≠ .ok withUserinfo.parts ∧
      rawParseUrl grantRequest (some withQuery.text) ≠ .ok withQuery.parts ∧
      libuvParseUrl grantRequest (some withQuery.text) ≠ .ok withQuery.parts := by
  decide +kernel

end RfcUrl

end AbstractHttp.Transport
