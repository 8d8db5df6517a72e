import AbstractHttp.Http.ResponseFormat
import AbstractHttp.Transport.Url

/-!
# What the raw and the libuv transport share in reading a response

The string functions of C that both scan a response with, what they allocate, and how
the texts that they cut out of the buffer come out.
-/
namespace AbstractHttp.Transport
open Http EventStream Library

/-- `strstr`: the offset of the first occurrence. -/
def strstr (s needle : List UInt8) : Option ℕ := search needle s

/-- What the transports allocate for a response. -/
inductive ResponseBlock where
  | buffer
  | response
  | headers (block : HeadersBlock)
  | body
  deriving DecidableEq, Repr

/-- Which requests for memory are granted, by block and size. -/
abbrev ResponseAlloc := ResponseBlock → ℕ → Bool

/-- Memory that never runs out. -/
def grantResponse : ResponseAlloc := fun _ _ => true

/-- An `on_chunk` that never fails. -/
def acceptAll : List (List UInt8) → ℤ := fun _ => 0

/-- Bytes in a `struct HttpResponse`. -/
def responseSize : ℕ := 48

/-- The header that `http_headers_add` makes of two texts. -/
def textHeader (field : List UInt8 × List UInt8) : HttpHeader :=
  ⟨some (.ofBytes field.1), some (.ofBytes field.2)⟩

/-! What the string functions see of a text that goes on behind a part without a NUL. -/

theorem cString_append {s : List UInt8} (t : List UInt8) (h : 0 ∉ s) :
    cString (s ++ t) = s ++ cString t := by
  rw [cString, List.takeWhile_append_of_pos]
  · rfl
  · intro b hb
    simp only [ne_eq, decide_eq_true_eq]
    rintro rfl
    exact h hb

theorem cString_nul {s : List UInt8} (t : List UInt8) (h : 0 ∉ s) : cString (s ++ 0 :: t) = s := by
  rw [cString_append _ h]
  simp [cString]

theorem ofBytes_nul {s : List UInt8} (t : List UInt8) (h : 0 ∉ s) :
    CString.ofBytes (s ++ 0 :: t) = CString.ofBytes s := by
  apply CString.ext
  rw [CString.ofBytes_of_noNul h, CString.ofBytes_append_nul h]

theorem strchr_first {s : List UInt8} {c : UInt8} (t : List UInt8) (h : c ∉ s) :
    strchr (s ++ c :: t) c = some s.length := by
  rw [strchr, List.idxOf?_eq_some_iff]
  refine ⟨by simp, by simp, fun j hj => ?_⟩
  rw [List.getElem_append_left hj]
  exact fun heq => h (heq ▸ List.getElem_mem hj)

theorem cString_line {line : List UInt8} (rest : List UInt8) (h : ∀ b ∈ line, InHead b) :
    cString (line ++ cr :: lf :: rest) = line ++ cr :: lf :: cString rest := by
  have hcrlf : 0 ∉ [cr, lf] := by decide
  rw [cString_append _ fun hmem => (h 0 hmem).2 rfl]
  exact congrArg (line ++ ·) (cString_append rest hcrlf)

/-- The end of a line is found. -/
theorem strstr_crlf {line : List UInt8} (rest : List UInt8) (h : ∀ b ∈ line, InHead b) :
    strstr (cString (line ++ cr :: lf :: rest)) crlf = some line.length := by
  rw [cString_line rest h]
  exact search_crlf_line _ fun hmem => (h cr hmem).1.1 rfl

/-! Header lines, one after the other. -/

theorem drop_line (line rest : List UInt8) :
    (line ++ cr :: lf :: rest).drop (line.length + 2) = rest := by
  rw [← List.drop_drop, List.drop_left]
  rfl

theorem endLines_cons_append (field : List UInt8 × List UInt8)
    (fields : List (List UInt8 × List UInt8)) (rest : List UInt8) :
    endLines ((field :: fields).map ResponseText.headerText) ++ cr :: lf :: rest =
      ResponseText.headerText field ++ cr :: lf ::
        (endLines (fields.map ResponseText.headerText) ++ cr :: lf :: rest) := by
  simp [endLines]

theorem endLines_cons_length (field : List UInt8 × List UInt8)
    (fields : List (List UInt8 × List UInt8)) :
    (endLines ((field :: fields).map ResponseText.headerText)).length - 2 =
      (ResponseText.headerText field).length +
        (endLines (fields.map ResponseText.headerText)).length := by
  simp only [List.map_cons, endLines, List.flatMap_cons, List.length_append, List.length_cons,
    List.length_nil]
  omega

/-! A buffer that holds a response in the format and, behind it, whatever it holds. -/

section Text

variable (r : ResponseText) (tail : List UInt8)

def fieldLines : List UInt8 := endLines (r.headers.map ResponseText.headerText)

theorem head_length : r.head.length = r.statusLine.length + 2 + (fieldLines r).length := by
  simp only [ResponseText.head, ResponseText.lines, fieldLines, endLines, List.flatMap_cons,
    List.length_append, List.length_cons, List.length_nil]

theorem text_append : r.text ++ tail =
    r.statusLine ++ cr :: lf :: (fieldLines r ++ cr :: lf :: (r.body ++ tail)) := by
  simp [ResponseText.text, ResponseText.head, ResponseText.lines, fieldLines, endLines]

theorem cString_text : cString (r.text ++ tail) = r.head ++ cr :: lf :: cString (r.body ++ tail) := by
  have hcrlf : 0 ∉ [cr, lf] := by decide
  rw [ResponseText.text, List.append_assoc, cString_append _ r.head_noNul]
  exact congrArg (r.head ++ ·) (cString_append (r.body ++ tail) hcrlf)

theorem strstr_headEnd :
    strstr (cString (r.text ++ tail)) headEnd = some (r.head.length - 2) := by
  rw [cString_text]
  exact search_headEnd _ (List.cons_ne_nil _ _) r.lines_ne_nil
    fun line hline hcr => (r.lines_clean line hline cr hcr).1.1 rfl

theorem strstr_statusLine :
    strstr (cString (r.text ++ tail)) crlf = some r.statusLine.length := by
  rw [text_append]
  exact strstr_crlf _ r.statusLine_clean

theorem drop_statusLine : (r.text ++ tail).drop (r.statusLine.length + 2) =
    fieldLines r ++ cr :: lf :: (r.body ++ tail) := by
  rw [text_append, ← List.drop_drop, List.drop_left]
  rfl

theorem drop_head : r.text.drop (r.head.length - 2 + 4) = r.body := by
  have hlength := head_length r
  have hpast : r.head.length - 2 + 4 = r.head.length + 2 := by omega
  rw [hpast, ResponseText.text, ← List.drop_drop, List.drop_left]
  rfl

theorem statusPrefix_text : statusPrefix <+: cString (r.text ++ tail) := by
  rw [text_append, cString_line _ r.statusLine_clean, ResponseText.statusLine, List.append_assoc]
  exact List.prefix_append _ _

theorem drop_status : (r.text ++ tail).drop 9 = (r.statusDigits ++ [space]) ++
    (r.reason ++ cr :: lf :: (fieldLines r ++ cr :: lf :: (r.body ++ tail))) := by
  rw [text_append]
  simp [ResponseText.statusLine, statusPrefix, asciiBytes]

/-- The status is read from offset 9 on. -/
theorem atoi_status : atoi (cString ((r.text ++ tail).drop 9)) = r.statusCode := by
  have hnul : 0 ∉ r.statusDigits ++ [space] := by
    have hdigit := fun d => (digitByte_digit d).2.1.2
    have hspace : (0 : UInt8) ≠ space := by decide
    simp [ResponseText.statusDigits, hspace, (hdigit _).symm]
  rw [drop_status, cString_append _ hnul]
  exact atoi_digits _ _ _ _

end Text

end AbstractHttp.Transport
