import AbstractHttp.Http.CookieJar
import AbstractHttp.Http.FormEncoding
import AbstractHttp.Transport.Response

/-!
# Cookies of the Windows transports

`http_winhttp_send` and `http_wininet_send` print each cookie of the jar into one
buffer and cut each `Set-Cookie` value apart in another.  Both have the same two
loops; a loop has no result where the language gives the code no meaning.
-/
namespace AbstractHttp.Transport
open Library Http EventStream

/-- `;` -/
def semicolon : UInt8 := 0x3B

/-- The size of `cbuf` and of `wcbuf`. -/
def cookieBufSize : ℕ := 4096

/-- Why a call does not come to its end: the language gives it no meaning, or `sprintf_s` ends the
program, which it does where the text does not fit. -/
inductive CookieFault where
  | undefined
  | aborted
  deriving DecidableEq

section Code

variable {α β : Type*}

/-- Characters and a NUL are put into a buffer of `n`. -/
def intoBuffer (n : ℕ) (chars : List α) : Except CookieFault (List α) :=
  if chars.length + 1 ≤ n then .ok chars else .error .undefined

/-- The loop of `ascii_to_wide` and of `wide_to_ascii`, from a place in the buffer on with room for
`room` characters. -/
def convert (f : α → β) : List α → ℕ → List β
  | [], _ => []
  | c :: cs, room => if 1 < room then f c :: convert f cs (room - 1) else []

/-- `ascii_to_wide`. -/
def asciiToWide (s : List UInt8) (bufCap : ℕ) : List UInt16 := convert UInt8.toUInt16 s bufCap

/-- `wide_to_ascii`. -/
def wideToAscii (ws : List UInt16) (bufCap : ℕ) : List UInt8 :=
  convert (fun c => (c &&& 0xFF).toUInt8) ws bufCap

/-- `Cookie: name=value` with its line end, by `sprintf` or by `sprintf_s`. -/
def printCookie (sprintfS : Bool) (cookie : HttpCookie) : Except CookieFault (List UInt8) :=
  let line := asciiBytes "Cookie: ".toList ++ cookie.name.bytes ++ equalsSign ::
    cookie.value.bytes ++ crlf
  if sprintfS ∧ cookieBufSize < line.length + 1 then .error .aborted
  else intoBuffer cookieBufSize line

/-- The loop body for a cookie of the jar: the request header. -/
def requestCookie (sprintfS : Bool) (cookie : HttpCookie) : Except CookieFault (List UInt16) :=
  (printCookie sprintfS cookie).bind fun cbuf =>
    intoBuffer cookieBufSize (asciiToWide cbuf cookieBufSize)

/-- The loop over the jar. -/
def requestCookies (sprintfS : Bool) (cookies : List HttpCookie) :
    Except CookieFault (List (List UInt16)) :=
  cookies.mapM (requestCookie sprintfS)

/-- The loop body for a `Set-Cookie` value, memory being there for its copy and for the jar. -/
def storeCookie (jar : HttpCookieJar) (pwszCookie : List UInt16) :
    Except CookieFault HttpCookieJar :=
  (intoBuffer cookieBufSize (wideToAscii pwszCookie cookieBufSize)).bind fun cbuf =>
    let cbuf := cString cbuf
    match strchr cbuf equalsSign with
    -- `eq + 1` is formed from NULL and searched.
    | none => .error .undefined
    | some eq =>
      let val := cbuf.drop (eq + 1)
      let val :=
        match strchr val semicolon with
        | some semi => val.take semi
        | none => val
      .ok (jarSet jar (.ofBytes (cbuf.take eq)) (.ofBytes val))

/-- The loop over the `Set-Cookie` values. -/
def storeCookies (jar : HttpCookieJar) (setCookies : List (List UInt16)) :
    Except CookieFault HttpCookieJar :=
  setCookies.foldlM storeCookie jar

/-- Which parts of a call succeed: all that comes before the cookies of the request, from there to
the status of the response, and the reading of the body. -/
structure WindowsCalls where
  requestOpened : Bool
  answered : Bool
  bodyRead : Bool

/-- The request headers added, the jar, and whether the cookie loop came to its end. -/
structure CookieRun where
  added : List (List UInt16)
  jar : Option HttpCookieJar
  looped : Bool

/-- What the two transports do with cookies. -/
def windowsSend (sprintfS opened reached : Bool) (jar : Option HttpCookieJar)
    (setCookies : List (List UInt16)) : Except CookieFault CookieRun :=
  match jar with
  | none => .ok ⟨[], none, false⟩
  | some jar =>
    if opened = false then .ok ⟨[], some jar, false⟩
    else
      (requestCookies sprintfS jar.cookies).bind fun added =>
        if reached = false then .ok ⟨added, some jar, false⟩
        else (storeCookies jar setCookies).map fun jar => ⟨added, some jar, true⟩

/-- `http_winhttp_send`, which reads the body first. -/
def httpWinhttpSend (sprintfS : Bool) (calls : WindowsCalls) (jar : Option HttpCookieJar)
    (setCookies : List (List UInt16)) : Except CookieFault CookieRun :=
  windowsSend sprintfS calls.requestOpened (calls.answered && calls.bodyRead) jar setCookies

/-- `http_wininet_send`, which reads the body after the cookies. -/
def httpWininetSend (sprintfS : Bool) (calls : WindowsCalls) (jar : Option HttpCookieJar)
    (setCookies : List (List UInt16)) : Except CookieFault CookieRun :=
  windowsSend sprintfS calls.requestOpened calls.answered jar setCookies

end Code

section Specification

/-- What the platform promises of the text that it returns for one that the server sends: a wide
character for each character, of the same code. -/
def Returns (text : CString) (wide : List UInt16) : Prop :=
  wide.map UInt16.toNat = text.bytes.map UInt8.toNat

/-- The wide characters of a text. -/
def widen (text : CString) : List UInt16 := text.bytes.map UInt8.toUInt16

/-- The text before the first `=`. -/
def cookieName (text : CString) : List UInt8 := text.bytes.takeWhile (· ≠ equalsSign)

/-- The text behind the first `=`, up to the next `;`. -/
def cookieValue (text : CString) : List UInt8 :=
  ((text.bytes.dropWhile (· ≠ equalsSign)).drop 1).takeWhile (· ≠ semicolon)

/-- The jar, updated by each text that has a `=`. -/
def updatedJar (jar : HttpCookieJar) (texts : List CString) : HttpCookieJar :=
  jarSetAll jar ((texts.filter (equalsSign ∈ ·.bytes)).map fun text =>
    (.ofBytes (cookieName text), .ofBytes (cookieValue text)))

/-- Memory is left alone outside of the buffers, no failed search is used, and the jar is updated by
the texts. -/
def CookiesHandled (jar : Option HttpCookieJar) (texts : List CString) :
    Except CookieFault CookieRun → Prop
  | .error .undefined => False
  | .error .aborted => True
  | .ok run => run.looped = true → run.jar = jar.map (updatedJar · texts)

/-- The line of a cookie fits the buffer. -/
def HttpCookieFits (cookie : HttpCookie) : Prop :=
  cookie.name.length + cookie.value.length + 12 ≤ cookieBufSize

/-- Every text has a `=` that the buffer takes in, and what the buffer cuts off of its value is set
again later. -/
def Storable (texts : List CString) : Prop :=
  ∀ front text rest, texts = front ++ text :: rest →
    equalsSign ∈ text.bytes.take (cookieBufSize - 1) ∧
      ((cookieName text).length + 1 + (cookieValue text).length ≤ cookieBufSize - 1 ∨
        ∃ later ∈ rest, cookieName later = cookieName text)

end Specification

section Conversion

variable {α β : Type*}

theorem convert_eq (f : α → β) (s : List α) (bufCap : ℕ) :
    convert f s bufCap = (s.take (bufCap - 1)).map f := by
  induction s generalizing bufCap with
  | nil => simp [convert]
  | cons c cs ih =>
    rw [convert]
    split_ifs with hroom
    · obtain ⟨room, rfl⟩ : ∃ room, bufCap = room + 2 := ⟨bufCap - 2, by omega⟩
      rw [ih]
      rfl
    · rw [Nat.sub_eq_zero_of_le (by omega), List.take_zero, List.map_nil]

/-- A conversion stays within its buffer. -/
theorem intoBuffer_convert (f : α → β) (s : List α) {n : ℕ} (h : 0 < n) :
    intoBuffer n (convert f s n) = .ok ((s.take (n - 1)).map f) := by
  rw [convert_eq, intoBuffer, if_pos]
  rw [List.length_map, List.length_take]
  omega

/-- Narrow characters come back from wide ones. -/
theorem wideToAscii_widen (text : CString) (bufCap : ℕ) :
    wideToAscii (widen text) bufCap = text.bytes.take (bufCap - 1) := by
  have hback (b : UInt8) : (b.toUInt16 &&& 0xFF).toUInt8 = b := by
    have hand : b.toNat &&& 255 = b.toNat % 256 := Nat.and_two_pow_sub_one_eq_mod b.toNat 8
    apply UInt8.toNat_inj.mp
    simp [hand]
  rw [wideToAscii, convert_eq, widen, ← List.map_take, List.map_map]
  exact (List.map_congr_left fun b _ => hback b).trans (List.map_id _)

end Conversion

theorem Returns.eq_widen {text : CString} {wide : List UInt16} (h : Returns text wide) :
    wide = widen text := by
  refine List.map_injective_iff.mpr (fun c d hcd => UInt16.toNat_inj.mp hcd) (h.trans ?_)
  rw [widen, List.map_map]
  exact List.map_congr_left fun b _ => (UInt8.toNat_toUInt16 b).symm

/-- Each text is returned once, in order. -/
theorem eq_map_widen {texts : List CString} {wides : List (List UInt16)}
    (h : List.Forall₂ Returns texts wides) : wides = texts.map widen := by
  induction h with
  | nil => rfl
  | cons hwide _ ih => rw [List.map_cons, hwide.eq_widen, ih]

section Texts

variable {text : CString} {jar : HttpCookieJar}

/-- `strchr` cuts a text where its first `c` stands. -/
theorem take_strchr (s : List UInt8) (c : UInt8) :
    (match strchr s c with
      | some i => s.take i
      | none => s) = s.takeWhile (· ≠ c) := by
  by_cases hmem : c ∈ s
  · obtain ⟨front, rest, rfl, hfront⟩ := List.eq_append_cons_of_mem hmem
    rw [strchr_first rest hfront]
    dsimp only
    rw [List.take_left, List.takeWhile_append_of_pos, List.takeWhile_cons_of_neg (by simp),
      List.append_nil]
    intro b hb
    simpa using fun heq : b = c => hfront (heq ▸ hb)
  · have hnone : strchr s c = none := List.idxOf?_eq_none_iff.mpr hmem
    rw [hnone]
    refine (List.takeWhile_eq_self_iff.mpr fun b hb => ?_).symm
    simpa using fun heq : b = c => hmem (heq ▸ hb)

/-- A text with a `=` is its name, the `=` and what is behind. -/
theorem bytes_eq_of_mem (h : equalsSign ∈ text.bytes) : text.bytes = cookieName text ++
    equalsSign :: (text.bytes.dropWhile (· ≠ equalsSign)).drop 1 := by
  obtain ⟨front, rest, hbytes, hfront⟩ := List.eq_append_cons_of_mem h
  have hfront' : ∀ b ∈ front, decide (b ≠ equalsSign) = true := by
    intro b hb
    simpa using fun heq : b = equalsSign => hfront (heq ▸ hb)
  rw [cookieName, hbytes, List.takeWhile_append_of_pos hfront',
    List.dropWhile_append_of_pos hfront']
  simp

theorem equalsSign_notMem_cookieName (text : CString) : equalsSign ∉ cookieName text := by
  intro hmem
  have hne := List.mem_takeWhile_imp hmem
  simp at hne

/-- The buffer takes the name in together with the `=`. -/
theorem cookieName_short (h : equalsSign ∈ text.bytes.take (cookieBufSize - 1)) :
    (cookieName text).length < cookieBufSize - 1 := by
  by_contra hlong
  rw [bytes_eq_of_mem (List.mem_of_mem_take h),
    List.take_append_of_le_length (not_lt.mp hlong)] at h
  exact equalsSign_notMem_cookieName text (List.mem_of_mem_take h)

theorem intoBuffer_widen (text : CString) :
    intoBuffer cookieBufSize (wideToAscii (widen text) cookieBufSize) =
      .ok (text.bytes.take (cookieBufSize - 1)) := by
  rw [wideToAscii_widen, intoBuffer, if_pos]
  rw [List.length_take, cookieBufSize]
  omega

/-- The loop body for a text that the server sends: its name, and as much of its value as the buffer
takes in. -/
theorem storeCookie_widen (jar : HttpCookieJar) (text : CString) :
    storeCookie jar (widen text) =
      if equalsSign ∈ text.bytes.take (cookieBufSize - 1) then
        .ok (jarSet jar (.ofBytes (cookieName text)) (.ofBytes
          ((cookieValue text).take (cookieBufSize - 2 - (cookieName text).length))))
      else .error .undefined := by
  have hnul : cString (text.bytes.take (cookieBufSize - 1)) =
      text.bytes.take (cookieBufSize - 1) :=
    CString.ofBytes_of_noNul fun hmem => text.noNul (List.mem_of_mem_take hmem)
  rw [storeCookie, intoBuffer_widen]
  dsimp only [Except.bind]
  rw [hnul]
  split_ifs with hmem
  · have hcut := bytes_eq_of_mem (List.mem_of_mem_take hmem)
    have hshort := cookieName_short hmem
    have htake : text.bytes.take (cookieBufSize - 1) = cookieName text ++ equalsSign ::
        ((text.bytes.dropWhile (· ≠ equalsSign)).drop 1).take
          (cookieBufSize - 2 - (cookieName text).length) := by
      obtain ⟨k, hk⟩ : ∃ k, cookieBufSize - 1 = (cookieName text).length + (k + 1) :=
        ⟨cookieBufSize - 2 - (cookieName text).length, by omega⟩
      have hrest : cookieBufSize - 2 - (cookieName text).length = k := by omega
      rw [hrest, hk]
      conv_lhs => rw [hcut]
      rw [List.take_length_add_append, List.take_succ_cons]
    rw [htake, strchr_first _ (equalsSign_notMem_cookieName text)]
    dsimp only
    rw [take_strchr, List.take_left, List.drop_length_add_append, List.drop_succ_cons,
      List.drop_zero, cookieValue, List.take_takeWhile]
  · have hnone : strchr (text.bytes.take (cookieBufSize - 1)) equalsSign = none :=
      List.idxOf?_eq_none_iff.mpr hmem
    rw [hnone]

/-- What the loop sets for a text. -/
def storedPair (text : CString) : CString × CString :=
  (.ofBytes (cookieName text),
    .ofBytes ((cookieValue text).take (cookieBufSize - 2 - (cookieName text).length)))

/-- The loop over the texts that the server sends. -/
theorem storeCookies_widen (jar : HttpCookieJar) (texts : List CString) :
    storeCookies jar (texts.map widen) =
      if ∀ text ∈ texts, equalsSign ∈ text.bytes.take (cookieBufSize - 1) then
        .ok (jarSetAll jar (texts.map storedPair))
      else .error .undefined := by
  induction texts generalizing jar with
  | nil => rw [if_pos (by simp)]; rfl
  | cons text texts ih =>
    rw [storeCookies, List.map_cons, List.foldlM_cons, storeCookie_widen]
    simp only [storeCookies] at ih
    by_cases htext : equalsSign ∈ text.bytes.take (cookieBufSize - 1)
    · rw [if_pos htext]
      simp only [List.forall_mem_cons, htext, true_and]
      exact ih _
    · rw [if_neg htext, if_neg fun hall => htext (hall text List.mem_cons_self)]
      rfl

theorem ofBytes_inj {s t : List UInt8} (hs : 0 ∉ s) (ht : 0 ∉ t) :
    CString.ofBytes s = CString.ofBytes t ↔ s = t := by
  rw [CString.ext_iff, CString.ofBytes_of_noNul hs, CString.ofBytes_of_noNul ht]

theorem zero_notMem_cookieName (text : CString) : 0 ∉ cookieName text :=
  fun hmem => text.noNul ((List.takeWhile_subset _) hmem)

theorem zero_notMem_cookieValue (text : CString) : 0 ∉ cookieValue text :=
  fun hmem => text.noNul ((List.dropWhile_sublist _).subset
    (List.mem_of_mem_drop ((List.takeWhile_subset _) hmem)))

/-- The value is stored whole exactly when it fits behind the name. -/
theorem storedPair_whole_iff (h : equalsSign ∈ text.bytes.take (cookieBufSize - 1)) :
    (storedPair text).2 = .ofBytes (cookieValue text) ↔
      (cookieName text).length + 1 + (cookieValue text).length ≤ cookieBufSize - 1 := by
  have hshort := cookieName_short h
  have hnul := zero_notMem_cookieValue text
  rw [storedPair, ofBytes_inj (fun hmem => hnul (List.mem_of_mem_take hmem)) hnul,
    List.take_eq_self_iff]
  omega

/-- The jar that the loop leaves is the updated one exactly when the texts can be stored. -/
theorem jarSetAll_storedPair_iff (jar : HttpCookieJar) {texts : List CString}
    (hall : ∀ text ∈ texts, equalsSign ∈ text.bytes.take (cookieBufSize - 1)) :
    jarSetAll jar (texts.map storedPair) = updatedJar jar texts ↔ Storable texts := by
  have hfilter : texts.filter (equalsSign ∈ ·.bytes) = texts :=
    List.filter_eq_self.mpr fun text htext => by
      simpa using List.mem_of_mem_take (hall text htext)
  have hiff := jarSetAll_eq_iff (texts.map fun text =>
    (CString.ofBytes (cookieName text), (storedPair text).2,
      CString.ofBytes (cookieValue text))) jar
  rw [List.map_map, List.map_map] at hiff
  rw [updatedJar, hfilter]
  refine hiff.trans ⟨fun h front text rest hcut => ?_, fun h front call rest hcut => ?_⟩
  · have htext := hall text (by simp [hcut])
    refine ⟨htext, ?_⟩
    rcases h _ _ _ (by rw [hcut, List.map_append, List.map_cons]) with
      hwhole | ⟨later, hlater, hname⟩
    · exact Or.inl ((storedPair_whole_iff htext).mp hwhole)
    · obtain ⟨next, hnext, rfl⟩ := List.mem_map.mp hlater
      exact Or.inr ⟨next, hnext, (ofBytes_inj (zero_notMem_cookieName next)
        (zero_notMem_cookieName text)).mp hname⟩
  · obtain ⟨front, behind, rfl, rfl, hbehind⟩ := List.map_eq_append_iff.mp hcut
    obtain ⟨text, rest, rfl, rfl, rfl⟩ := List.map_eq_cons_iff.mp hbehind
    obtain ⟨htext, hfits | ⟨later, hlater, hname⟩⟩ := h front text rest rfl
    · exact Or.inl ((storedPair_whole_iff htext).mpr hfits)
    · exact Or.inr ⟨_, List.mem_map.mpr ⟨later, hlater, rfl⟩, congrArg CString.ofBytes hname⟩

end Texts

section Requests

variable {sprintfS : Bool} {cookies : List HttpCookie}

/-- A line that fits is printed and converted, and one that does not is printed past the end of the
buffer. -/
theorem requestCookie_eq (sprintfS : Bool) (cookie : HttpCookie) :
    (HttpCookieFits cookie → ∃ wcbuf, requestCookie sprintfS cookie = .ok wcbuf) ∧
      (¬ HttpCookieFits cookie →
        requestCookie sprintfS cookie = .error (if sprintfS then .aborted else .undefined)) := by
  have hlength : (asciiBytes "Cookie: ".toList ++ cookie.name.bytes ++ equalsSign ::
      cookie.value.bytes ++ crlf).length + 1 = cookie.name.length + cookie.value.length + 12 := by
    have htext : (asciiBytes "Cookie: ".toList).length = 8 := rfl
    have hend : crlf.length = 2 := rfl
    simp only [List.length_append, List.length_cons, htext, hend, CString.length]
    omega
  rw [requestCookie, printCookie, intoBuffer, hlength, HttpCookieFits]
  constructor
  · intro hfits
    rw [if_neg (by omega), if_pos hfits]
    exact ⟨_, intoBuffer_convert UInt8.toUInt16 _ (by rw [cookieBufSize]; omega)⟩
  · intro hlong
    cases sprintfS with
    | false =>
      rw [if_neg (by simp), if_neg hlong]
      rfl
    | true =>
      rw [if_pos ⟨rfl, not_le.mp hlong⟩]
      rfl

theorem requestCookies_of_fits (sprintfS : Bool) (h : ∀ cookie ∈ cookies, HttpCookieFits cookie) :
    ∃ added, requestCookies sprintfS cookies = .ok added := by
  induction cookies with
  | nil => exact ⟨[], rfl⟩
  | cons cookie cookies ih =>
    obtain ⟨hcookie, hrest⟩ := List.forall_mem_cons.mp h
    obtain ⟨wcbuf, hwcbuf⟩ := (requestCookie_eq sprintfS cookie).1 hcookie
    obtain ⟨added, hadded⟩ := ih hrest
    rw [requestCookies] at hadded
    rw [requestCookies, List.mapM_cons, hwcbuf, hadded]
    exact ⟨wcbuf :: added, rfl⟩

theorem requestCookies_of_not_fits (h : ¬ ∀ cookie ∈ cookies, HttpCookieFits cookie) :
    requestCookies sprintfS cookies = .error (if sprintfS then .aborted else .undefined) := by
  induction cookies with
  | nil => simp at h
  | cons cookie cookies ih =>
    rw [requestCookies, List.mapM_cons]
    by_cases hcookie : HttpCookieFits cookie
    · obtain ⟨wcbuf, hwcbuf⟩ := (requestCookie_eq sprintfS cookie).1 hcookie
      have hrest := ih fun hall => h (List.forall_mem_cons.mpr ⟨hcookie, hall⟩)
      rw [requestCookies] at hrest
      rw [hwcbuf, hrest]
      rfl
    · rw [(requestCookie_eq sprintfS cookie).2 hcookie]
      rfl

end Requests

/-- The cookies that a call handles as it should: those of the jar fit the buffer, and the texts of
the server can be stored if they are reached. `sprintf_s` ends the program before a text is. -/
def CookiesFit (sprintfS opened reached : Bool) (jar : Option HttpCookieJar)
    (texts : List CString) : Prop :=
  ∀ cookies, jar = some cookies → opened = true →
    (∀ cookie ∈ cookies.cookies, HttpCookieFits cookie) ∧ (reached = true → Storable texts) ∨
      sprintfS = true ∧ ∃ cookie ∈ cookies.cookies, ¬ HttpCookieFits cookie

theorem Storable.equalsSign_mem {texts : List CString} (h : Storable texts) :
    ∀ text ∈ texts, equalsSign ∈ text.bytes.take (cookieBufSize - 1) := by
  intro text htext
  obtain ⟨front, rest, hcut⟩ := List.append_of_mem htext
  exact (h front text rest hcut).1

/-- The second loop alone. -/
theorem storeCookies_handled_iff (added : List (List UInt16)) (jar : HttpCookieJar)
    (texts : List CString) :
    CookiesHandled (some jar) texts ((storeCookies jar (texts.map widen)).map fun jar =>
        ⟨added, some jar, true⟩) ↔ Storable texts := by
  rw [storeCookies_widen]
  split_ifs with hall
  · rw [← jarSetAll_storedPair_iff jar hall]
    simp [CookiesHandled, Except.map]
  · refine iff_of_false id fun hstorable => hall hstorable.equalsSign_mem

theorem windowsSend_handled_iff (sprintfS opened reached : Bool) (jar : Option HttpCookieJar)
    (texts : List CString) :
    CookiesHandled jar texts (windowsSend sprintfS opened reached jar (texts.map widen)) ↔
      CookiesFit sprintfS opened reached jar texts := by
  cases jar with
  | none => simp [CookiesFit, CookiesHandled, windowsSend]
  | some jar =>
    cases opened with
    | false => simp [CookiesFit, CookiesHandled, windowsSend]
    | true =>
      simp only [CookiesFit, Option.some.injEq, forall_eq', forall_const]
      rw [windowsSend, if_neg (by simp)]
      by_cases hfits : ∀ cookie ∈ jar.cookies, HttpCookieFits cookie
      · obtain ⟨added, hadded⟩ := requestCookies_of_fits sprintfS hfits
        rw [hadded]
        cases reached with
        | false => exact iff_of_true (fun hlooped => by cases hlooped) (Or.inl ⟨hfits, by simp⟩)
        | true =>
          refine (storeCookies_handled_iff added jar texts).trans ⟨fun h => ?_, ?_⟩
          · exact Or.inl ⟨hfits, fun _ => h⟩
          · rintro (⟨-, hstorable⟩ | ⟨-, cookie, hcookie, hlong⟩)
            · exact hstorable rfl
            · exact absurd (hfits cookie hcookie) hlong
      · have hlong : ∃ cookie ∈ jar.cookies, ¬ HttpCookieFits cookie := by simpa using hfits
        rw [requestCookies_of_not_fits hfits]
        cases sprintfS with
        | false => exact iff_of_false id (by simp [hfits])
        | true => exact iff_of_true trivial (Or.inr ⟨rfl, hlong⟩)

/-- Both transports handle cookies as they should exactly when they fit. -/
theorem cookiesHandled_iff (sprintfS : Bool) (calls : WindowsCalls) (jar : Option HttpCookieJar)
    {texts : List CString} {wides : List (List UInt16)}
    (hreturns : List.Forall₂ Returns texts wides) :
    (CookiesHandled jar texts (httpWinhttpSend sprintfS calls jar wides) ↔
      CookiesFit sprintfS calls.requestOpened (calls.answered && calls.bodyRead) jar texts) ∧
    (CookiesHandled jar texts (httpWininetSend sprintfS calls jar wides) ↔
      CookiesFit sprintfS calls.requestOpened calls.answered jar texts) := by
  rw [eq_map_widen hreturns]
  exact ⟨windowsSend_handled_iff .., windowsSend_handled_iff ..⟩

/-- `a=b`, for a jar with the cookie `a`. -/
theorem cookiesHandled_iff_setAgain :
    let jar : HttpCookieJar := ⟨[⟨.ofBytes [0x61], .ofBytes [0x63]⟩], 8⟩
    CookiesHandled (some jar) [.ofBytes [0x61, 0x3D, 0x62]]
        (httpWinhttpSend false ⟨true, true, true⟩ (some jar) [[0x61, 0x3D, 0x62]]) ∧
      CookiesHandled (some jar) [.ofBytes [0x61, 0x3D, 0x62]]
        (httpWininetSend false ⟨true, true, true⟩ (some jar) [[0x61, 0x3D, 0x62]]) := by
  intro jar
  have hboth := cookiesHandled_iff false ⟨true, true, true⟩ (some jar)
    (.cons (show Returns (.ofBytes [0x61, 0x3D, 0x62]) [0x61, 0x3D, 0x62] from rfl) .nil)
  have hfits : CookiesFit false true true (some jar) [.ofBytes [0x61, 0x3D, 0x62]] := by
    rintro cookies ⟨⟩ -
    refine .inl ⟨List.forall_mem_singleton.mpr ?_, fun _ front text rest hcut => ?_⟩
    · rw [HttpCookieFits]
      decide
    · have htext : text ∈ [CString.ofBytes [0x61, 0x3D, 0x62]] := by simp [hcut]
      obtain rfl := List.mem_singleton.mp htext
      exact ⟨by decide, .inl (by decide)⟩
  exact ⟨hboth.1.mpr hfits, hboth.2.mpr hfits⟩

/-- A `Set-Cookie` value without a `=`. -/
theorem not_cookiesHandled_noEqualsSign :
    ¬ CookiesHandled (some .init) [.ofBytes [0x61]]
        (httpWinhttpSend false ⟨true, true, true⟩ (some .init) [[0x61]]) ∧
      ¬ CookiesHandled (some .init) [.ofBytes [0x61]]
        (httpWininetSend false ⟨true, true, true⟩ (some .init) [[0x61]]) :=
  ⟨id, id⟩

end AbstractHttp.Transport
