import AbstractHttp.EventStream.Numbers
import AbstractHttp.Http.RequestFormat
import AbstractHttp.Library.Search

/-!
# The HTTP/1.x response format

A response as its sender writes it: a status line, header lines, an empty line, the
body. Nothing here speaks of how a text is read.
-/
namespace AbstractHttp.Http
open EventStream Library

/-- Bytes of a status line or a header line. -/
def InHead (b : UInt8) : Prop := InLine b ∧ b ≠ 0

instance (b : UInt8) : Decidable (InHead b) := inferInstanceAs (Decidable (_ ∧ _))

/-- The empty line behind the last line of a head, with that line's end. -/
def headEnd : List UInt8 := [cr, lf, cr, lf]

def digitByte (d : Fin 10) : UInt8 := UInt8.ofNat (0x30 + d)

def statusPrefix : List UInt8 := asciiBytes "HTTP/1.".toList

/-- A response. Of a header, the second component is all the text behind the colon, so it begins
with the spaces that stand there. -/
structure ResponseText where
  minor : Fin 10
  status : Fin 10 × Fin 10 × Fin 10
  reason : List UInt8
  headers : List (List UInt8 × List UInt8)
  body : List UInt8
  reasonClean : ∀ b ∈ reason, InHead b
  namesClean : ∀ field ∈ headers, ∀ b ∈ field.1, InHead b ∧ b ≠ colon
  valuesClean : ∀ field ∈ headers, ∀ b ∈ field.2, InHead b

namespace ResponseText

variable (r : ResponseText)

def statusDigits : List UInt8 :=
  [digitByte r.status.1, digitByte r.status.2.1, digitByte r.status.2.2]

def statusCode : ℤ := 100 * (r.status.1 : ℕ) + 10 * (r.status.2.1 : ℕ) + (r.status.2.2 : ℕ)

def statusLine : List UInt8 :=
  statusPrefix ++ digitByte r.minor :: space :: (r.statusDigits ++ space :: r.reason)

/-- A header line without its CRLF. -/
def headerText (field : List UInt8 × List UInt8) : List UInt8 := field.1 ++ colon :: field.2

def lines : List (List UInt8) := r.statusLine :: r.headers.map headerText

/-- All lines, each with its CRLF. -/
def head : List UInt8 := endLines r.lines

def text : List UInt8 := r.head ++ cr :: lf :: r.body

end ResponseText

theorem digitByte_digit (d : Fin 10) :
    isDigitByte (digitByte d) = true ∧ InHead (digitByte d) ∧ (digitByte d).toNat = 0x30 + d := by
  revert d
  decide

/-- The number that three digits in a row denote. -/
theorem atoi_digits (a b c : Fin 10) (s : List UInt8) :
    atoi (digitByte a :: digitByte b :: digitByte c :: space :: s) =
      100 * (a : ℕ) + 10 * (b : ℕ) + (c : ℕ) := by
  have hdigits : ∀ d ∈ [digitByte a, digitByte b, digitByte c], isDigitByte d = true := by
    simp [digitByte_digit]
  have hrest : ∀ b ∈ (space :: s).head?, isDigitByte b = false := by
    intro b hb
    obtain rfl := Option.some.inj hb
    decide
  have hvalue : decimalValue [digitByte a, digitByte b, digitByte c] =
      100 * (a : ℕ) + 10 * (b : ℕ) + (c : ℕ) := by
    simp only [decimalValue, List.foldl_cons, List.foldl_nil, digitByte_digit]
    omega
  have hread := atoi_numeral hdigits (List.cons_ne_nil _ _) hrest (by rw [hvalue]; omega)
  rw [hvalue] at hread
  exact_mod_cast hread

/-! Where the head of a text ends. -/

/-- A line is passed over to its CRLF. -/
theorem search_crlf_line {line : List UInt8} (rest : List UInt8) (h : cr ∉ line) :
    search [cr, lf] (line ++ cr :: lf :: rest) = some line.length := by
  have hfound : search [cr, lf] (cr :: lf :: rest) = some 0 := search_at_start ⟨rest, rfl⟩
  rw [search_skip _ _ h, hfound, Option.map_some, Nat.zero_add]

theorem search_headEnd_last {line : List UInt8} (body : List UInt8) (h : cr ∉ line) :
    search headEnd (line ++ cr :: lf :: cr :: lf :: body) = some line.length := by
  have hfound : search headEnd (cr :: lf :: cr :: lf :: body) = some 0 :=
    search_at_start ⟨body, rfl⟩
  rw [headEnd, search_skip _ _ h, ← headEnd, hfound, Option.map_some, Nat.zero_add]

/-- A line that another line follows is passed over whole. -/
theorem search_headEnd_line {line rest : List UInt8} (h : cr ∉ line) (hrest : rest.head? ≠ some cr) :
    search headEnd (line ++ cr :: lf :: rest) =
      (search headEnd rest).map (· + (line.length + 2)) := by
  have hnot : ¬ headEnd <+: cr :: lf :: rest := by
    rintro ⟨t, ht⟩
    apply hrest
    have hcut : rest = cr :: lf :: t := ((List.cons.inj (List.cons.inj ht).2).2).symm
    rw [hcut, List.head?_cons]
  have hlf : search headEnd (lf :: rest) = (search headEnd rest).map (· + 1) :=
    search_skip (a := [lf]) _ _ (by decide)
  rw [headEnd, search_skip _ _ h, ← headEnd, search, if_neg hnot, hlf, Option.map_map,
    Option.map_map]
  congr 1
  funext i
  simp only [Function.comp_apply]
  omega

/-- Behind lines that are not empty, the first empty line ends the head. -/
theorem search_headEnd {lines : List (List UInt8)} (body : List UInt8) (hsome : lines ≠ [])
    (hne : ∀ line ∈ lines, line ≠ []) (hcr : ∀ line ∈ lines, cr ∉ line) :
    search headEnd (endLines lines ++ cr :: lf :: body) = some ((endLines lines).length - 2) := by
  induction lines with
  | nil => exact absurd rfl hsome
  | cons line lines ih =>
    obtain ⟨hcrLine, hcrRest⟩ := List.forall_mem_cons.mp hcr
    obtain ⟨-, hneRest⟩ := List.forall_mem_cons.mp hne
    cases lines with
    | nil =>
      have hlast := search_headEnd_last body hcrLine
      simpa [endLines] using hlast
    | cons next lines =>
      have hlater := ih (List.cons_ne_nil _ _) hneRest hcrRest
      obtain ⟨b, next', rfl⟩ := List.exists_cons_of_ne_nil (hneRest next (List.mem_cons_self ..))
      have hb : b ≠ cr := fun heq => hcrRest _ (List.mem_cons_self ..) (by simp [heq])
      have hhead : (endLines ((b :: next') :: lines) ++ cr :: lf :: body).head? ≠ some cr := by
        simpa [endLines] using hb
      have hpass := search_headEnd_line hcrLine hhead
      rw [hlater, Option.map_some] at hpass
      have hlong : 2 ≤ (endLines ((b :: next') :: lines)).length := by
        simp only [endLines, List.flatMap_cons, List.length_append, List.length_cons]
        omega
      have hjoin : endLines (line :: (b :: next') :: lines) ++ cr :: lf :: body =
          line ++ cr :: lf :: (endLines ((b :: next') :: lines) ++ cr :: lf :: body) := by
        simp [endLines]
      have hlength : (endLines (line :: (b :: next') :: lines)).length =
          line.length + 2 + (endLines ((b :: next') :: lines)).length := by
        simp [endLines]
        omega
      rw [hjoin, hpass, hlength]
      congr 1
      omega

namespace ResponseText

variable (r : ResponseText)

theorem statusLine_clean : ∀ b ∈ r.statusLine, InHead b := by
  have hpre : ∀ b ∈ statusPrefix, InHead b := List.forall_iff_forall_mem.mp (by decide)
  have hspace : InHead space := by decide
  have hdigit := fun d => (digitByte_digit d).2.1
  simp only [statusLine, statusDigits, List.mem_append, List.mem_cons, List.not_mem_nil, or_false]
  rintro b (hb | rfl | rfl | (rfl | rfl | rfl) | rfl | hb)
  exacts [hpre b hb, hdigit _, hspace, hdigit _, hdigit _, hdigit _, hspace,
    r.reasonClean b hb]

theorem headerText_clean {field : List UInt8 × List UInt8}
    (hname : ∀ b ∈ field.1, InHead b ∧ b ≠ colon) (hvalue : ∀ b ∈ field.2, InHead b) :
    ∀ b ∈ headerText field, InHead b := by
  have hcolon : InHead colon := by decide
  simp only [headerText, List.mem_append, List.mem_cons]
  rintro b (hb | rfl | hb)
  exacts [(hname b hb).1, hcolon, hvalue b hb]

theorem lines_clean : ∀ line ∈ r.lines, ∀ b ∈ line, InHead b := by
  rw [lines, List.forall_mem_cons, List.forall_mem_map]
  exact ⟨r.statusLine_clean, fun field hfield =>
    headerText_clean (r.namesClean field hfield) (r.valuesClean field hfield)⟩

theorem lines_ne_nil : ∀ line ∈ r.lines, line ≠ [] := by
  rw [lines, List.forall_mem_cons, List.forall_mem_map]
  refine ⟨by simp [statusLine], fun field _ => ?_⟩
  simp [headerText]

theorem search_text : search headEnd r.text = some (r.head.length - 2) :=
  search_headEnd r.body (List.cons_ne_nil _ _) r.lines_ne_nil
    fun line hline hcr => (r.lines_clean line hline cr hcr).1.1 rfl

theorem head_noNul : 0 ∉ r.head := by
  have hends : 0 ∉ [cr, lf] := by decide
  rw [head, endLines, List.mem_flatMap]
  rintro ⟨line, hline, hmem⟩
  rcases List.mem_append.mp hmem with hmem | hmem
  · exact (r.lines_clean line hline 0 hmem).2 rfl
  · exact hends hmem

end ResponseText

end AbstractHttp.Http
