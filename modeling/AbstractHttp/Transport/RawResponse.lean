import AbstractHttp.Transport.Response

/-!
# The response as the raw transport receives and parses it

`http_raw_send` from its request's last byte on: the receive loop, which either hands
every piece to `on_chunk` or gathers all of them, and the parser of what was gathered.
-/
namespace AbstractHttp.Transport
open Http EventStream Library

/-- Bytes in `recv_buf`. -/
def recvBufSize : ℕ := 8192

/-- The bytes of one successful `recv`. -/
structure Segment where
  bytes : List UInt8
  received : bytes ≠ []
  fits : bytes.length ≤ recvBufSize

/-- What one pass of the receive loop meets: bytes, or a failure of `select` or `recv`. -/
inductive RecvResult where
  | data (segment : Segment)
  | failed

/-- Chunks handed to `on_chunk`, bytes gathered in `body`, and the size of that block. -/
structure RawReceived where
  chunks : List (List UInt8)
  body : List UInt8
  bodyCap : ℕ

/-- The loop's start. -/
def RawReceived.init : RawReceived := ⟨[], [], 8192⟩

/-- Gather a segment; the block always has a byte more than what is gathered. -/
def rawGather (alloc : ResponseAlloc) (s : RawReceived) (bytes : List UInt8) :
    Except ErrorCode RawReceived :=
  let need := s.body.length + bytes.length + 1
  if need > s.bodyCap then
    if alloc .buffer (need * 2) then .ok { s with body := s.body ++ bytes, bodyCap := need * 2 }
    else .error .nomem
  else .ok { s with body := s.body ++ bytes }

/-- The receive loop, until the connection ends or something fails, and `rc_send`. `answer` is what
`on_chunk` returns, given all chunks up to the one it is called with. -/
def rawReceive (alloc : ResponseAlloc) (onChunk : Bool) (answer : List (List UInt8) → ℤ) :
    List RecvResult → RawReceived → RawReceived × ℤ
  | [], s => (s, 0)
  | .failed :: _, s => (s, ErrorCode.io.value)
  | .data segment :: rest, s =>
    if onChunk then
      let s := { s with chunks := s.chunks ++ [segment.bytes] }
      if answer s.chunks ≠ 0 then (s, answer s.chunks) else rawReceive alloc onChunk answer rest s
    else
      match rawGather alloc s segment.bytes with
      | .error e => (s, e.value)
      | .ok s => rawReceive alloc onChunk answer rest s

/-- One header line, which begins at `p` and ends at `nextNl`: cut in place and added. A line
without a colon is passed over. -/
def rawHeaderLine (alloc : ResponseAlloc) (p : List UInt8) (nextNl : ℕ) (headers : HttpHeaders) :
    Except ErrorCode HttpHeaders :=
  match (strchr (cString p) colon).filter (· < nextNl) with
  | none => .ok headers
  | some i =>
    let cut := (p.set i 0).set nextNl 0
    match headersAdd (fun b => alloc (.headers b)) headers (some (.ofBytes cut))
        (some (.ofBytes (cut.drop (i + 1)))) with
    | (headers, none) => .ok headers
    | (_, some e) => .error e

/-- The header loop: the text from `p_nl` on, of which `left` bytes lie before `header_end`. The
CRLF at `header_end` lies ahead, so the search never comes back empty. -/
def rawHeaderLines (alloc : ResponseAlloc) (p : List UInt8) (left : ℕ) (headers : HttpHeaders) :
    Except ErrorCode HttpHeaders :=
  if _hleft : left = 0 then .ok headers
  else
    let nextNl := (strstr (cString p) crlf).getD p.length
    match rawHeaderLine alloc p nextNl headers with
    | .error e => .error e
    | .ok headers => rawHeaderLines alloc (p.drop (nextNl + 2)) (left - (nextNl + 2)) headers
termination_by left

/-- The body behind the head, copied unless there is none or no memory for it. -/
def rawCopyBody (alloc : ResponseAlloc) (body : List UInt8) (r : HttpResponse) : HttpResponse :=
  if body.length > 0 ∧ alloc .body (body.length + 1) = true then
    { r with body := some body, bodyLen := body.length }
  else r

/-- The parser, run on what was gathered and the NUL behind it. -/
def rawParse (alloc : ResponseAlloc) (body : List UInt8) (r : HttpResponse) :
    Except ErrorCode HttpResponse :=
  let buf := body ++ [0]
  match strstr (cString buf) headEnd with
  | some headerEnd =>
    let status := if statusPrefix <+: cString buf then atoi (cString (buf.drop 9)) else 200
    let r := rawCopyBody alloc (body.drop (headerEnd + 4))
      { r with statusCode := Int32.ofInt status }
    let pNl := (strstr (cString buf) crlf).getD buf.length
    if pNl < headerEnd then
      match rawHeaderLines alloc (buf.drop (pNl + 2)) (headerEnd - (pNl + 2)) r.headers with
      | .error e => .error e
      | .ok headers => .ok { r with headers := headers }
    else .ok r
  | none =>
    let r := { r with statusCode := 200 }
    if alloc .body (body.length + 1) then .ok { r with body := some body, bodyLen := body.length }
    else .ok r

/-- The chunks that `on_chunk` is given and the response or the error code. -/
def rawRespond (alloc : ResponseAlloc) (req : HttpRequest) (answer : List (List UInt8) → ℤ)
    (results : List RecvResult) : List (List UInt8) × Except ℤ HttpResponse :=
  if alloc .response responseSize = false then ([], .error ErrorCode.nomem.value)
  else if alloc .buffer RawReceived.init.bodyCap = false then ([], .error ErrorCode.nomem.value)
  else
    let (s, rcSend) := rawReceive alloc req.onChunk answer results .init
    if rcSend ≠ 0 then (s.chunks, .error rcSend)
    else if req.onChunk = false ∧ s.body.length > 0 then
      (s.chunks, (rawParse alloc s.body .init).mapError ErrorCode.value)
    else (s.chunks, .ok .init)

/-! What the parser makes of a response in the format. -/

theorem rawHeaderLine_headerText {field : List UInt8 × List UInt8} (rest : List UInt8)
    (headers : HttpHeaders) (hname : ∀ b ∈ field.1, InHead b ∧ b ≠ colon)
    (hvalue : ∀ b ∈ field.2, InHead b) :
    ∃ grown, rawHeaderLine grantResponse (ResponseText.headerText field ++ cr :: lf :: rest)
        (ResponseText.headerText field).length headers = .ok grown ∧
      grown.headers = headers.headers ++ [textHeader field] := by
  obtain ⟨name, value⟩ := field
  have hnameNul : 0 ∉ name := fun hmem => (hname 0 hmem).1.2 rfl
  have hvalueNul : 0 ∉ value := fun hmem => (hvalue 0 hmem).2 rfl
  have hcolon : colon ∉ name := fun hmem => (hname colon hmem).2 rfl
  have hfound : strchr (cString (ResponseText.headerText (name, value) ++ cr :: lf :: rest)) colon =
      some name.length := by
    rw [ResponseText.headerText, List.append_assoc, cString_append _ hnameNul]
    exact strchr_first _ hcolon
  have hbefore : name.length < (ResponseText.headerText (name, value)).length := by
    simp [ResponseText.headerText]
  have hcut : ((ResponseText.headerText (name, value) ++ cr :: lf :: rest).set name.length 0).set
      (ResponseText.headerText (name, value)).length 0 =
        name ++ 0 :: (value ++ 0 :: lf :: rest) := by
    simp [ResponseText.headerText]
  have hbehind : (name ++ 0 :: (value ++ 0 :: lf :: rest)).drop (name.length + 1) =
      value ++ 0 :: lf :: rest := by
    simp
  have hgrant : ∀ b n, (fun b => grantResponse (.headers b)) b n = true := fun _ _ => rfl
  obtain ⟨grown, hadd, hgrown⟩ := headersAdd_of_granted hgrant headers
    (CString.ofBytes name) (CString.ofBytes value)
  refine ⟨grown, ?_, hgrown⟩
  rw [rawHeaderLine, hfound, Option.filter_some, if_pos (by simpa using hbefore)]
  dsimp only
  rw [hcut, hbehind, ofBytes_nul _ hnameNul, ofBytes_nul _ hvalueNul, hadd]

theorem rawHeaderLines_endLines {fields : List (List UInt8 × List UInt8)} (rest : List UInt8)
    (headers : HttpHeaders) (hnames : ∀ field ∈ fields, ∀ b ∈ field.1, InHead b ∧ b ≠ colon)
    (hvalues : ∀ field ∈ fields, ∀ b ∈ field.2, InHead b) :
    ∃ grown, rawHeaderLines grantResponse
        (endLines (fields.map ResponseText.headerText) ++ cr :: lf :: rest)
        ((endLines (fields.map ResponseText.headerText)).length - 2) headers = .ok grown ∧
      grown.headers = headers.headers ++ fields.map textHeader := by
  induction fields generalizing headers with
  | nil => exact ⟨headers, by rw [rawHeaderLines]; rfl, by simp⟩
  | cons field fields ih =>
    obtain ⟨hname, hnames⟩ := List.forall_mem_cons.mp hnames
    obtain ⟨hvalue, hvalues⟩ := List.forall_mem_cons.mp hvalues
    have hclean : ∀ b ∈ ResponseText.headerText field, InHead b :=
      ResponseText.headerText_clean hname hvalue
    have hsplit := endLines_cons_append field fields rest
    have hleft := endLines_cons_length field fields
    have hpos : 0 < (ResponseText.headerText field).length := by simp [ResponseText.headerText]
    obtain ⟨added, hadded, hlist⟩ := rawHeaderLine_headerText
      (endLines (fields.map ResponseText.headerText) ++ cr :: lf :: rest) headers hname hvalue
    obtain ⟨grown, hgrown, hall⟩ := ih added hnames hvalues
    refine ⟨grown, ?_, by simp [hall, hlist]⟩
    rw [hsplit, hleft, rawHeaderLines, dif_neg (by omega), strstr_crlf _ hclean]
    dsimp only [Option.getD_some]
    rw [hadded]
    dsimp only
    rw [drop_line, Nat.add_sub_add_left, hgrown]

theorem rawCopyBody_granted (body : List UInt8) {r : HttpResponse} (hbody : r.body = none) :
    (rawCopyBody grantResponse body r).content = (r.statusCode, r.headers.headers, body) ∧
      (rawCopyBody grantResponse body r).headers = r.headers := by
  rw [rawCopyBody, HttpResponse.content]
  cases body with
  | nil => simp [hbody]
  | cons b body => simp [grantResponse]

/-- A response in the format is read as it was written, the spaces before a value included. -/
theorem rawParse_text (r : ResponseText) :
    ∃ parsed, rawParse grantResponse r.text .init = .ok parsed ∧
      parsed.content = (Int32.ofInt r.statusCode, r.headers.map textHeader, r.body) := by
  have hlength := head_length r
  obtain ⟨hcontent, hheaders⟩ := rawCopyBody_granted r.body
    (r := { HttpResponse.init with statusCode := Int32.ofInt r.statusCode }) rfl
  rw [rawParse]
  dsimp only
  rw [strstr_headEnd]
  dsimp only
  rw [if_pos (statusPrefix_text r [0]), atoi_status, drop_head, strstr_statusLine,
    Option.getD_some]
  split
  next =>
    obtain ⟨grown, hgrown, hall⟩ := rawHeaderLines_endLines (r.body ++ [0])
      (rawCopyBody grantResponse r.body
        { HttpResponse.init with statusCode := Int32.ofInt r.statusCode }).headers
      r.namesClean r.valuesClean
    have hleft : r.head.length - 2 - (r.statusLine.length + 2) = (fieldLines r).length - 2 := by
      omega
    rw [drop_statusLine, hleft, fieldLines, hgrown]
    refine ⟨_, rfl, ?_⟩
    rw [hheaders] at hall
    simp only [HttpResponse.content, Prod.mk.injEq] at hcontent ⊢
    exact ⟨hcontent.1, hall, hcontent.2.2⟩
  next hnone =>
    have hshort : (fieldLines r).length < 2 := by omega
    have hnil : r.headers = [] := by
      cases hfields : r.headers with
      | nil => rfl
      | cons field fields =>
        simp [fieldLines, hfields, endLines] at hshort
        omega
    exact ⟨_, rfl, by rw [hcontent, hnil]; rfl⟩

end AbstractHttp.Transport
