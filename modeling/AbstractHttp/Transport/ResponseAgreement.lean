import AbstractHttp.Transport.LibuvResponse
import AbstractHttp.Transport.RawStreaming

/-!
# The raw and the libuv transport on the same response

Both read the status and the body alike and cut the same names; the libuv transport
drops the spaces before a value, the raw transport keeps them.
-/
namespace AbstractHttp.Transport
open Http EventStream Library

/-- A header without the spaces before its value. -/
def trimmed (field : List UInt8 × List UInt8) : List UInt8 × List UInt8 :=
  (field.1, field.2.dropWhile (· = space))

theorem lineHeader_headerText {field : List UInt8 × List UInt8} (headers : HttpHeaders)
    (hcolon : colon ∉ field.1) :
    (lineHeader grantResponse (ResponseText.headerText field) headers).headers =
      headers.headers ++ [textHeader (trimmed field)] := by
  have hgrant : ∀ b n, (fun b => grantResponse (.headers b)) b n = true := fun _ _ => rfl
  obtain ⟨grown, hadd, hgrown⟩ := headersAdd_of_granted hgrant headers
    (CString.ofBytes field.1) (CString.ofBytes (field.2.dropWhile (· = space)))
  have htake : (ResponseText.headerText field).take field.1.length = field.1 := by
    simp [ResponseText.headerText]
  have hdrop : (ResponseText.headerText field).drop (field.1.length + 1) = field.2 := by
    simp [ResponseText.headerText]
  rw [lineHeader, ResponseText.headerText, strchr_first _ hcolon, ← ResponseText.headerText]
  dsimp only
  rw [htake, hdrop, hadd]
  exact hgrown

theorem libuvHeaderLines_endLines {fields : List (List UInt8 × List UInt8)} (rest : List UInt8)
    (headers : HttpHeaders) (hnames : ∀ field ∈ fields, ∀ b ∈ field.1, InHead b ∧ b ≠ colon)
    (hvalues : ∀ field ∈ fields, ∀ b ∈ field.2, InHead b) :
    ∃ grown, libuvHeaderLines grantResponse
        (endLines (fields.map ResponseText.headerText) ++ cr :: lf :: rest)
        ((endLines (fields.map ResponseText.headerText)).length - 2) headers = some grown ∧
      grown.headers = headers.headers ++ fields.map (textHeader ∘ trimmed) := by
  induction fields generalizing headers with
  | nil => exact ⟨headers, by rw [libuvHeaderLines]; rfl, by simp⟩
  | cons field fields ih =>
    obtain ⟨hname, hnames⟩ := List.forall_mem_cons.mp hnames
    obtain ⟨hvalue, hvalues⟩ := List.forall_mem_cons.mp hvalues
    have hclean : ∀ b ∈ ResponseText.headerText field, InHead b :=
      ResponseText.headerText_clean hname hvalue
    have hnul : 0 ∉ ResponseText.headerText field := fun hmem => (hclean 0 hmem).2 rfl
    have hcr : cr ∉ ResponseText.headerText field := fun hmem => (hclean cr hmem).1.1 rfl
    obtain ⟨grown, hgrown, hall⟩ := ih
      (lineHeader grantResponse (ResponseText.headerText field) headers) hnames hvalues
    have hsplit := endLines_cons_append field fields rest
    have hleft := endLines_cons_length field fields
    have hpos : 0 < (ResponseText.headerText field).length := by simp [ResponseText.headerText]
    refine ⟨grown, ?_, ?_⟩
    · rw [hsplit, hleft, libuvHeaderLines, dif_neg (by omega), cString_line _ hclean,
        strchr_first _ hcr]
      dsimp only
      rw [libuvHeaderLine_eq grantResponse cr _ headers hnul, drop_line, Nat.add_sub_add_left,
        hgrown]
    · rw [hall, lineHeader_headerText headers fun hmem => (hname colon hmem).2 rfl]
      simp

theorem libuvReadHead_text (r : ResponseText) (tail : List UInt8) :
    ∃ parsed, libuvReadHead grantResponse (r.text ++ tail) (r.head.length - 2) = some parsed ∧
      parsed.statusCode = Int32.ofInt r.statusCode ∧ (parsed.body = none ∧ parsed.bodyLen = 0) ∧
      parsed.headers.headers = r.headers.map (textHeader ∘ trimmed) := by
  have hlength := head_length r
  have hspace : strchr (cString (r.text ++ tail)) space = some 8 := by
    have hbefore : space ∉ statusPrefix ++ [digitByte r.minor] := by
      generalize r.minor = d
      revert d
      decide
    rw [text_append, cString_line _ r.statusLine_clean]
    have hsplit : r.statusLine ++ cr :: lf ::
        cString (fieldLines r ++ cr :: lf :: (r.body ++ tail)) =
        (statusPrefix ++ [digitByte r.minor]) ++ space :: (r.statusDigits ++ space :: r.reason ++
          cr :: lf :: cString (fieldLines r ++ cr :: lf :: (r.body ++ tail))) := by
      simp [ResponseText.statusLine]
    rw [hsplit]
    exact strchr_first _ hbefore
  have hlf : strchr (cString (r.text ++ tail)) lf = some (r.statusLine.length + 1) := by
    have hbefore : lf ∉ r.statusLine ++ [cr] := by
      rw [List.mem_append]
      rintro (hmem | hmem)
      · exact (r.statusLine_clean lf hmem).1.2 rfl
      · exact absurd (List.mem_singleton.mp hmem) (by decide)
    have hfirst := strchr_first (cString (fieldLines r ++ cr :: lf :: (r.body ++ tail))) hbefore
    rw [text_append, cString_line _ r.statusLine_clean]
    simpa using hfirst
  obtain ⟨grown, hgrown, hall⟩ := libuvHeaderLines_endLines (r.body ++ tail) .init
    r.namesClean r.valuesClean
  have hleft : r.head.length - 2 - (r.statusLine.length + 2) = (fieldLines r).length - 2 := by
    omega
  have hnumber : numberInBlock ((r.text ++ tail).drop 9) = some (r.statusCode : ℤ) := by
    rw [← atoi_status r tail, drop_status]
    exact numberInBlock_of_digit (digitByte_digit _).1 ⟨space, by simp, by decide⟩
  rw [libuvReadHead, hspace, inBlock_some, Option.bind_some, Option.elim_some, hnumber,
    Option.bind_some, hlf, Option.bind_some]
  dsimp only
  rw [drop_statusLine, hleft, fieldLines, hgrown]
  exact ⟨_, rfl, rfl, ⟨rfl, rfl⟩, hall⟩

/-- One read that brings the whole response into a block of any size, with anything behind it. -/
theorem libuvOnRead_text (r : ResponseText) (room : ℕ) (rest : Memory UInt8) :
    ∃ s parsed, libuvOnRead grantResponse false acceptAll r.text rest
        { LibuvState.init with resCap := r.text.length + room } = some s ∧
      s.res = some parsed ∧
      parsed.content = (Int32.ofInt r.statusCode, r.headers.map (textHeader ∘ trimmed), r.body) := by
  have hlength := head_length r
  have hcap : r.text.length + room ≠ 0 := by simp [ResponseText.text]
  have hlong : r.head.length - 2 + 4 ≤ r.text.length := by
    simp only [ResponseText.text, List.length_append, List.length_cons]
    omega
  let s : LibuvState := { LibuvState.init with
    filled := r.text, resCap := r.text.length + room, headersParsed := true }
  obtain ⟨head, hread, hcode, hbody, hheaders⟩ := libuvReadHead_text r
    (rest.read r.text.length (r.text.length + room - r.text.length))
  obtain ⟨s', htake, hstreams, -⟩ :
      ∃ s', libuvTakeBody grantResponse false acceptAll (r.head.length - 2 + 4) head s = some s' ∧
        LibuvStreams false head (s.filled.drop (r.head.length - 2 + 4)) s' ∧
        s'.filled.length ≤ s.filled.length :=
    libuvTakeBody_streams hlong rfl hbody rfl rfl rfl hcap rfl
  obtain ⟨parsed, hres, -, hcontent⟩ := hstreams.response
  refine ⟨s', parsed, ?_, hres, ?_⟩
  · rw [libuvOnRead_unparsed _ _ hcap rfl, libuvParseHeaders_found hcap rfl rfl
      (strstr_headEnd r _)]
    dsimp only [LibuvState.block, LibuvState.init, List.nil_append]
    rw [hread, Option.bind_some]
    exact htake
  · rw [hcontent, hcode, hheaders, if_neg Bool.false_ne_true, drop_head]

theorem textHeader_trimmed_iff {field : List UInt8 × List UInt8}
    (hvalue : ∀ b ∈ field.2, InHead b) :
    textHeader field = textHeader (trimmed field) ↔ field.2.head? ≠ some space := by
  have hnul : 0 ∉ field.2 := fun hmem => (hvalue 0 hmem).2 rfl
  have hnulTrimmed : 0 ∉ field.2.dropWhile (· = space) := fun hmem =>
    hnul ((List.dropWhile_sublist _).subset hmem)
  have hbytes : CString.ofBytes field.2 = CString.ofBytes (field.2.dropWhile (· = space)) ↔
      field.2 = field.2.dropWhile (· = space) := by
    rw [CString.ext_iff, CString.ofBytes_of_noNul hnul, CString.ofBytes_of_noNul hnulTrimmed]
  simp only [textHeader, trimmed, HttpHeader.mk.injEq, Option.some.injEq, true_and]
  rw [hbytes, eq_comm]
  cases field.2 with
  | nil => simp
  | cons b value =>
    rw [List.head?_cons, Ne, Option.some.injEq, List.dropWhile_cons]
    by_cases hb : b = space
    · have hshorter := (List.dropWhile_sublist (p := (decide <| · = space)) (l := value)).length_le
      simp only [hb, decide_true, if_true, not_true_eq_false, iff_false]
      intro heq
      have hlen := congrArg List.length heq
      rw [List.length_cons] at hlen
      omega
    · simp [hb]

/-- The two transports, each with all the memory it asks for, make the same of a response: the raw
one in any segmentation, the libuv one in a single read. -/
def ResponsesAlike (req : HttpRequest) (r : ResponseText) (seg : Segmentation r.text) (room : ℕ)
    (rest : Memory UInt8) : Prop :=
  ∃ parsed s parsed', rawRespond grantResponse { req with onChunk := false } acceptAll seg.results =
      ([], .ok parsed) ∧
    libuvOnRead grantResponse false acceptAll r.text rest
      { LibuvState.init with resCap := r.text.length + room } = some s ∧
    s.res = some parsed' ∧ parsed.content = parsed'.content

theorem responsesAlike_iff_trimmed (req : HttpRequest) (r : ResponseText)
    (seg : Segmentation r.text) (room : ℕ) (rest : Memory UInt8) :
    ResponsesAlike req r seg room rest ↔
      ∀ field ∈ r.headers, textHeader field = textHeader (trimmed field) := by
  obtain ⟨parsed, hraw, hcontent⟩ :=
    rawRespond_buffered { req with onChunk := false } rfl acceptAll r seg
  obtain ⟨s, parsed', hlibuv, hres, hcontent'⟩ := libuvOnRead_text r room rest
  have hheaders : parsed.content = parsed'.content ↔
      ∀ field ∈ r.headers, textHeader field = textHeader (trimmed field) := by
    rw [hcontent, hcontent']
    simp [List.map_inj_left]
  rw [← hheaders]
  constructor
  · rintro ⟨p, t, p', hp, ht, hp', heq⟩
    obtain rfl := Except.ok.inj (Prod.mk.inj (hraw.symm.trans hp)).2
    obtain rfl := Option.some.inj (hlibuv.symm.trans ht)
    obtain rfl := Option.some.inj (hres.symm.trans hp')
    exact heq
  · exact fun heq => ⟨parsed, s, parsed', hraw, hlibuv, hres, heq⟩

/-- They agree exactly on the responses in which no value is set off by a space. -/
theorem responsesAlike_iff (req : HttpRequest) (r : ResponseText) (seg : Segmentation r.text)
    (room : ℕ) (rest : Memory UInt8) :
    ResponsesAlike req r seg room rest ↔ ∀ field ∈ r.headers, field.2.head? ≠ some space := by
  rw [responsesAlike_iff_trimmed]
  exact forall₂_congr fun field hfield => textHeader_trimmed_iff (r.valuesClean field hfield)

/-- `HTTP/1.0 200 OK` with the header line `k: v` and no body. -/
def spacedResponse : ResponseText where
  minor := greetingResponse.minor
  status := greetingResponse.status
  reason := greetingResponse.reason
  headers := [(asciiBytes ['k'], asciiBytes [' ', 'v'])]
  body := []
  reasonClean := greetingResponse.reasonClean
  namesClean := List.forall_mem_singleton.mpr (List.forall_iff_forall_mem.mp (by decide))
  valuesClean := List.forall_mem_singleton.mpr (List.forall_iff_forall_mem.mp (by decide))

def spacedSegment : Segment := ⟨spacedResponse.text, by decide, by decide⟩

def spacedArrives : Segmentation spacedResponse.text := ⟨[spacedSegment], by decide⟩

/-- The raw transport's value begins with the space, the libuv transport's does not. -/
theorem spaced_read_differently :
    ¬ ResponsesAlike .init spacedResponse spacedArrives 1 (fun _ => 0) := by
  rw [responsesAlike_iff_trimmed]
  intro hall
  exact absurd (hall _ (List.mem_singleton_self _)) (by decide)

end AbstractHttp.Transport
