import AbstractHttp.Http.FormEncoding
import AbstractHttp.Http.RequestFormat
import AbstractHttp.Library.Search

/-!
# The multipart/form-data format

What a body means to its receiver: parts between delimiter lines, each with header lines, an empty
line and data; the disposition holds name and filename as quoted strings, in which a backslash
stands in front of a byte that is taken as it is. Nothing here speaks of how a body is built.
-/
namespace AbstractHttp.Http
open Library EventStream

def quote : UInt8 := 0x22
def backslash : UInt8 := 0x5C
def dash : UInt8 := 0x2D

/-- A part as its receiver understands it. -/
structure ReadPart where
  name : List UInt8
  filename : Option (List UInt8)
  contentType : Option (List UInt8)
  headers : List (List UInt8 × List UInt8)
  data : List UInt8
  deriving DecidableEq, Repr

/-- The rest of a quoted string, up to the closing quote, and the text behind it. -/
def readQuoted : List UInt8 → Option (List UInt8 × List UInt8)
  | [] => none
  | c :: text =>
    if c = quote then some ([], text)
    else if c = backslash then
      match text with
      | [] => none
      | d :: text => (readQuoted text).map fun x => (d :: x.1, x.2)
    else (readQuoted text).map fun x => (c :: x.1, x.2)

/-- The parameters behind a disposition type; at most `fuel` of them are read. -/
def readParams : ℕ → List UInt8 → Option (List (List UInt8 × List UInt8))
  | 0, text => if text = [] then some [] else none
  | fuel + 1, text =>
    if text = [] then some []
    else if asciiBytes "; ".toList <+: text then
      (cutAt equalsSign (text.drop 2)).bind fun x =>
        if x.2.head? = some quote then
          (readQuoted x.2.tail).bind fun y =>
            (readParams fuel y.2).map fun params => (x.1, y.1) :: params
        else none
    else none

def formData : List UInt8 := asciiBytes "form-data".toList

/-- Name and filename in a disposition. -/
def readDisposition (value : List UInt8) : Option (List UInt8 × Option (List UInt8)) :=
  if formData <+: value then
    (readParams value.length (value.drop formData.length)).bind fun params =>
      (params.lookup (asciiBytes "name".toList)).map fun name =>
        (name, params.lookup (asciiBytes "filename".toList))
  else none

def contentDisposition : List UInt8 := asciiBytes "Content-Disposition".toList
def contentTypeKey : List UInt8 := asciiBytes "Content-Type".toList

/-- Header names are compared without case. -/
def hasKey (key : List UInt8) (field : List UInt8 × List UInt8) : Bool :=
  field.1.map tolower = key.map tolower

/-- The part with these headers, of which the first disposition and the first content type are
taken out. -/
def partOf (fields : List (List UInt8 × List UInt8)) (data : List UInt8) : Option ReadPart :=
  (fields.find? (hasKey contentDisposition)).bind fun disposition =>
    (readDisposition disposition.2).map fun names =>
      { name := names.1
        filename := names.2
        contentType := (fields.find? (hasKey contentTypeKey)).map Prod.snd
        headers := (fields.eraseP (hasKey contentDisposition)).eraseP (hasKey contentTypeKey)
        data := data }

/-- A part, if it is well formed. -/
def readPart (text : List UInt8) : Option ReadPart :=
  (readLines text.length text).bind fun head => (head.1.mapM readField).bind fun fields =>
    partOf fields head.2

/-- The text in front of the first occurrence and the text behind it. -/
def cutBefore (needle text : List UInt8) : Option (List UInt8 × List UInt8) :=
  (search needle text).map fun i => (text.take i, text.drop (i + needle.length))

/-- What ends a part. -/
def delimiter (boundary : List UInt8) : List UInt8 := cr :: lf :: dash :: dash :: boundary

/-- The parts behind a delimiter, up to the closing one; at most `fuel` of them are read. -/
def readParts (boundary : List UInt8) : ℕ → List UInt8 → Option (List ReadPart)
  | 0, _ => none
  | fuel + 1, text =>
    if [dash, dash] <+: text then some []
    else if [cr, lf] <+: text then
      (cutBefore (delimiter boundary) (text.drop 2)).bind fun x => (readPart x.1).bind fun part =>
        (readParts boundary fuel x.2).map fun parts => part :: parts
    else none

/-- A body, if it is well formed. What stands in front of the first delimiter is skipped. -/
def readMultipart (boundary body : List UInt8) : Option (List ReadPart) :=
  (cutBefore (delimiter boundary) (cr :: lf :: body)).bind fun x =>
    readParts boundary (x.2.length + 1) x.2

def multipartType : List UInt8 := asciiBytes "multipart/form-data; boundary=".toList

/-- The boundary that a list of headers announces; the last content type counts. -/
def announcedBoundary (headers : List (List UInt8 × List UInt8)) : Option (List UInt8) :=
  (headers.reverse.find? (hasKey contentTypeKey)).bind fun field =>
    if multipartType <+: field.2 then some (field.2.drop multipartType.length) else none

section Strings

variable {value : List UInt8}

/-- A text that may stand between quotes as it is. -/
def Quotable (value : List UInt8) : Prop := ∀ b ∈ value, InLine b ∧ b ≠ quote ∧ b ≠ backslash

instance (value : List UInt8) : Decidable (Quotable value) :=
  inferInstanceAs (Decidable (∀ b ∈ value, _))

theorem readQuoted_quotable (hvalue : Quotable value) (text : List UInt8) :
    readQuoted (value ++ quote :: text) = some (value, text) := by
  induction value with
  | nil => rw [List.nil_append, readQuoted.eq_def]; exact if_pos rfl
  | cons b value ih =>
    obtain ⟨⟨-, hquote, hbackslash⟩, hvalue⟩ := List.forall_mem_cons.mp hvalue
    rw [List.cons_append, readQuoted.eq_def]
    dsimp only
    rw [if_neg hquote, if_neg hbackslash, ih hvalue]
    rfl

/-- A parameter with a quoted value. -/
def quotedParam (param : List UInt8 × List UInt8) : List UInt8 :=
  asciiBytes "; ".toList ++ (param.1 ++ equalsSign :: quote :: (param.2 ++ [quote]))

theorem readParams_quoted {params : List (List UInt8 × List UInt8)}
    (hnames : ∀ param ∈ params, equalsSign ∉ param.1) (hvalues : ∀ param ∈ params, Quotable param.2)
    {fuel : ℕ} (hfuel : params.length ≤ fuel) :
    readParams fuel (params.flatMap quotedParam) = some params := by
  induction params generalizing fuel with
  | nil => cases fuel <;> rfl
  | cons param params ih =>
    obtain ⟨hname, hnames⟩ := List.forall_mem_cons.mp hnames
    obtain ⟨hvalue, hvalues⟩ := List.forall_mem_cons.mp hvalues
    cases fuel with
    | zero => exact absurd hfuel (Nat.not_succ_le_zero _)
    | succ fuel =>
      let behind := param.2 ++ quote :: params.flatMap quotedParam
      have htext : (param :: params).flatMap quotedParam =
          asciiBytes "; ".toList ++ (param.1 ++ equalsSign :: quote :: behind) := by
        simp [quotedParam, behind]
      have hsemicolon : asciiBytes "; ".toList <+: (param :: params).flatMap quotedParam := by
        rw [htext]
        exact List.prefix_append _ _
      have hcut : cutAt equalsSign (((param :: params).flatMap quotedParam).drop 2) =
          some (param.1, quote :: behind) := by
        rw [htext]
        exact cutAt_eq_some.mpr ⟨rfl, hname⟩
      have hne : (param :: params).flatMap quotedParam ≠ [] := by
        rw [htext]
        exact List.cons_ne_nil _ _
      rw [readParams, if_neg hne, if_pos hsemicolon, hcut, Option.bind_some]
      dsimp only
      rw [List.head?_cons, if_pos rfl, List.tail_cons, readQuoted_quotable hvalue, Option.bind_some,
        ih hnames hvalues (Nat.le_of_succ_le_succ hfuel)]
      rfl

end Strings

/-- The parameters of a disposition. -/
def dispositionParams (name : List UInt8) (filename : Option (List UInt8)) :
    List (List UInt8 × List UInt8) :=
  (asciiBytes "name".toList, name) ::
    (filename.map fun filename => (asciiBytes "filename".toList, filename)).toList

def dispositionValue (name : List UInt8) (filename : Option (List UInt8)) : List UInt8 :=
  formData ++ (dispositionParams name filename).flatMap quotedParam

/-- Header lines, the empty line and data. -/
def partText (fields : List (List UInt8 × List UInt8)) (data : List UInt8) : List UInt8 :=
  endLines (fields.map fieldLine) ++ cr :: lf :: data

namespace ReadPart

/-- The headers of a part. -/
def fields (part : ReadPart) : List (List UInt8 × List UInt8) :=
  (contentDisposition, dispositionValue part.name part.filename) ::
    ((part.contentType.map fun contentType => (contentTypeKey, contentType)).toList ++ part.headers)

def text (part : ReadPart) : List UInt8 := partText part.fields part.data

/-- Each string keeps to the bytes that the format allows there, and a part without a content type
has no header that would give it one. -/
structure Clean (part : ReadPart) : Prop where
  name : Quotable part.name
  filename : ∀ filename ∈ part.filename, Quotable filename
  contentType : ∀ contentType ∈ part.contentType, ∀ b ∈ contentType, InLine b
  names : ∀ field ∈ part.headers, ∀ b ∈ field.1, InLine b ∧ b ≠ colon
  values : ∀ field ∈ part.headers, ∀ b ∈ field.2, InLine b
  untyped : part.contentType = none → ∀ field ∈ part.headers, hasKey contentTypeKey field = false

instance (part : ReadPart) : Decidable part.Clean :=
  -- byte by byte along a list, not over all bytes that there are
  letI (bytes : List UInt8) : Decidable (∀ b ∈ bytes, InLine b) := List.decidableBAll _ bytes
  letI (bytes : List UInt8) : Decidable (∀ b ∈ bytes, InLine b ∧ b ≠ colon) :=
    List.decidableBAll _ bytes
  decidable_of_iff (Quotable part.name ∧ (∀ filename ∈ part.filename, Quotable filename) ∧
      (∀ contentType ∈ part.contentType, ∀ b ∈ contentType, InLine b) ∧
      (∀ field ∈ part.headers, ∀ b ∈ field.1, InLine b ∧ b ≠ colon) ∧
      (∀ field ∈ part.headers, ∀ b ∈ field.2, InLine b) ∧
      (part.contentType = none → ∀ field ∈ part.headers, hasKey contentTypeKey field = false))
    ⟨fun ⟨h₁, h₂, h₃, h₄, h₅, h₆⟩ => ⟨h₁, h₂, h₃, h₄, h₅, h₆⟩,
      fun ⟨h₁, h₂, h₃, h₄, h₅, h₆⟩ => ⟨h₁, h₂, h₃, h₄, h₅, h₆⟩⟩

variable {part : ReadPart}

theorem readDisposition_value {name : List UInt8} {filename : Option (List UInt8)}
    (hname : Quotable name) (hfilename : ∀ value ∈ filename, Quotable value) :
    readDisposition (dispositionValue name filename) = some (name, filename) := by
  have hparams : readParams (dispositionValue name filename).length
      ((dispositionParams name filename).flatMap quotedParam) =
        some (dispositionParams name filename) := by
    refine readParams_quoted ?_ ?_ ?_
    · cases filename <;> simp [dispositionParams] <;> decide
    · cases filename with
      | none => simpa [dispositionParams] using hname
      | some value => simpa [dispositionParams] using ⟨hname, hfilename value rfl⟩
    · have hlength : (dispositionParams name filename).length ≤ 2 := by
        cases filename <;> simp [dispositionParams]
      refine hlength.trans ?_
      rw [dispositionValue, List.length_append]
      exact Nat.le_add_right_of_le (by decide)
  have hdrop : (dispositionValue name filename).drop formData.length =
      (dispositionParams name filename).flatMap quotedParam := List.drop_left ..
  have hform : formData <+: dispositionValue name filename := List.prefix_append _ _
  rw [readDisposition, if_pos hform, hdrop, hparams, Option.bind_some]
  cases filename <;> rfl

/-- The headers of a clean part say what it is. -/
theorem partOf_fields (h : part.Clean) : partOf part.fields part.data = some part := by
  have hdisposition : hasKey contentDisposition
      (contentDisposition, dispositionValue part.name part.filename) = true := by
    rw [hasKey, decide_eq_true_eq]
  have hother : ¬ hasKey contentTypeKey
      (contentDisposition, dispositionValue part.name part.filename) = true := by
    rw [hasKey, decide_eq_true_eq]
    change contentDisposition.map tolower ≠ contentTypeKey.map tolower
    decide
  rw [partOf, fields, List.find?_cons_of_pos hdisposition, Option.bind_some,
    readDisposition_value h.name h.filename, Option.map_some, List.find?_cons_of_neg hother,
    List.eraseP_cons_of_pos hdisposition]
  obtain ⟨name, filename, contentType, headers, data⟩ := part
  cases contentType with
  | none =>
    have huntyped : ∀ field ∈ headers, ¬ hasKey contentTypeKey field = true := by
      intro field hfield
      rw [h.untyped rfl field hfield]
      exact Bool.false_ne_true
    simp [List.find?_eq_none.mpr huntyped, List.eraseP_of_forall_not huntyped]
  | some contentType =>
    have htype : hasKey contentTypeKey (contentTypeKey, contentType) = true := by
      rw [hasKey, decide_eq_true_eq]
    simp [htype]

theorem quotedParam_inLine {param : List UInt8 × List UInt8} (hname : ∀ b ∈ param.1, InLine b)
    (hvalue : Quotable param.2) : ∀ b ∈ quotedParam param, InLine b := by
  have hsemicolon : ∀ b ∈ asciiBytes "; ".toList, InLine b :=
    List.forall_iff_forall_mem.mp (by decide)
  have hequals : InLine equalsSign := by decide
  have hquote : InLine quote := by decide
  simp only [quotedParam, List.mem_append, List.mem_cons, List.not_mem_nil, or_false]
  rintro b (hb | hb | rfl | rfl | hb | rfl)
  exacts [hsemicolon b hb, hname b hb, hequals, hquote, (hvalue b hb).1, hquote]

theorem dispositionValue_inLine {name : List UInt8} {filename : Option (List UInt8)}
    (hname : Quotable name) (hfilename : ∀ value ∈ filename, Quotable value) :
    ∀ b ∈ dispositionValue name filename, InLine b := by
  have hform : ∀ b ∈ formData, InLine b := List.forall_iff_forall_mem.mp (by decide)
  have hkey : ∀ b ∈ asciiBytes "name".toList, InLine b := List.forall_iff_forall_mem.mp (by decide)
  have hfile : ∀ b ∈ asciiBytes "filename".toList, InLine b :=
    List.forall_iff_forall_mem.mp (by decide)
  intro b hb
  rcases List.mem_append.mp hb with hb | hb
  · exact hform b hb
  · obtain ⟨param, hparam, hb⟩ := List.mem_flatMap.mp hb
    simp only [dispositionParams, List.mem_cons, Option.mem_toList, Option.map_eq_some_iff]
      at hparam
    obtain rfl | ⟨value, hvalue, rfl⟩ := hparam
    · exact quotedParam_inLine hkey hname b hb
    · exact quotedParam_inLine hfile (hfilename value hvalue) b hb

theorem fields_clean (h : part.Clean) :
    (∀ field ∈ part.fields, ∀ b ∈ field.1, InLine b ∧ b ≠ colon) ∧
      ∀ field ∈ part.fields, ∀ b ∈ field.2, InLine b := by
  have hdisposition : ∀ b ∈ contentDisposition, InLine b ∧ b ≠ colon :=
    List.forall_iff_forall_mem.mp (by decide)
  have htype : ∀ b ∈ contentTypeKey, InLine b ∧ b ≠ colon :=
    List.forall_iff_forall_mem.mp (by decide)
  have hvalue := dispositionValue_inLine h.name h.filename
  constructor
  · simp only [fields, List.mem_cons, List.mem_append, Option.mem_toList, Option.map_eq_some_iff]
    rintro field (rfl | ⟨contentType, -, rfl⟩ | hfield)
    exacts [hdisposition, htype, h.names field hfield]
  · simp only [fields, List.mem_cons, List.mem_append, Option.mem_toList, Option.map_eq_some_iff]
    rintro field (rfl | ⟨contentType, hcontentType, rfl⟩ | hfield)
    exacts [hvalue, h.contentType contentType hcontentType, h.values field hfield]

/-- A clean part is read back from its text. -/
theorem Clean.readPart_text (h : part.Clean) : readPart part.text = some part := by
  obtain ⟨hnames, hvalues⟩ := fields_clean h
  have hfuel : (endLines (part.fields.map fieldLine)).length < part.text.length := by
    simp only [text, partText, List.length_append, List.length_cons]
    omega
  obtain ⟨hlines, hfields⟩ := readLines_fields hnames hvalues part.data hfuel
  rw [readPart]
  change ((readLines part.text.length
    (endLines (part.fields.map fieldLine) ++ cr :: lf :: part.data)).bind _) = _
  rw [hlines, Option.bind_some, hfields, Option.bind_some, partOf_fields h]

end ReadPart

/-- A text that can stand between parts: it has none of the bytes that structure them, and is
longer than every fixed text in them. -/
structure Boundary where
  text : List UInt8
  token : ∀ b ∈ text, InLine b ∧ b ∉ [colon, space, quote, equalsSign, 0x3B]
  long : 19 < text.length

namespace Boundary

variable {boundary : Boundary} {a s : List UInt8}

/-- A boundary does not reach over one of these bytes. -/
theorem not_infix_cons {c : UInt8}
    (hc : c = cr ∨ c = lf ∨ c ∈ [colon, space, quote, equalsSign, 0x3B]) (ha : ¬ boundary.text <:+: a)
    (hs : ¬ boundary.text <:+: s) : ¬ boundary.text <:+: a ++ c :: s := by
  refine not_infix_append_cons (fun hmem => ?_) ha hs
  obtain ⟨⟨hcr, hlf⟩, htoken⟩ := boundary.token c hmem
  rcases hc with rfl | rfl | hc
  · exact hcr rfl
  · exact hlf rfl
  · exact htoken hc

theorem not_infix_short (h : s.length ≤ 19) : ¬ boundary.text <:+: s := by
  intro hoccurs
  exact absurd (hoccurs.length_le.trans h) (Nat.not_le.mpr boundary.long)

theorem not_infix_fieldLine {field : List UInt8 × List UInt8} (hname : ¬ boundary.text <:+: field.1)
    (hvalue : ¬ boundary.text <:+: field.2) : ¬ boundary.text <:+: fieldLine field := by
  refine not_infix_cons (by simp) hname ?_
  exact not_infix_cons (a := []) (by simp) (not_infix_short (Nat.zero_le _)) hvalue

theorem not_infix_endLines {lines : List (List UInt8)}
    (hlines : ∀ line ∈ lines, ¬ boundary.text <:+: line) (hs : ¬ boundary.text <:+: s) :
    ¬ boundary.text <:+: endLines lines ++ s := by
  induction lines with
  | nil => exact hs
  | cons line lines ih =>
    obtain ⟨hline, hlines⟩ := List.forall_mem_cons.mp hlines
    have hsplit : endLines (line :: lines) ++ s =
        line ++ cr :: ([] ++ lf :: (endLines lines ++ s)) := by
      simp [endLines]
    rw [hsplit]
    refine not_infix_cons (by simp) hline ?_
    exact not_infix_cons (by simp) (not_infix_short (Nat.zero_le _)) (ih hlines)

theorem not_infix_quotedParam {name value : List UInt8} (ha : ¬ boundary.text <:+: a)
    (hname : name.length ≤ 19) (hvalue : ¬ boundary.text <:+: value)
    (hs : ¬ boundary.text <:+: s) : ¬ boundary.text <:+: a ++ (quotedParam (name, value) ++ s) := by
  have hnil : ¬ boundary.text <:+: [] := not_infix_short (Nat.zero_le _)
  have hsplit : a ++ (quotedParam (name, value) ++ s) = a ++ 0x3B :: ([] ++ space ::
      (name ++ equalsSign :: ([] ++ quote :: (value ++ quote :: s)))) := by
    simp [quotedParam, asciiBytes, space]
  rw [hsplit]
  refine not_infix_cons (by simp) ha (not_infix_cons (by simp) hnil ?_)
  refine not_infix_cons (by simp) (not_infix_short hname) (not_infix_cons (by simp) hnil ?_)
  exact not_infix_cons (by simp) hvalue hs

end Boundary

/-- The boundary occurs in no string of the part. -/
structure ReadPart.FreeOf (part : ReadPart) (boundary : Boundary) : Prop where
  name : ¬ boundary.text <:+: part.name
  filename : ∀ filename ∈ part.filename, ¬ boundary.text <:+: filename
  contentType : ∀ contentType ∈ part.contentType, ¬ boundary.text <:+: contentType
  names : ∀ field ∈ part.headers, ¬ boundary.text <:+: field.1
  values : ∀ field ∈ part.headers, ¬ boundary.text <:+: field.2
  data : ¬ boundary.text <:+: part.data

instance (part : ReadPart) (boundary : Boundary) : Decidable (part.FreeOf boundary) :=
  decidable_of_iff (¬ boundary.text <:+: part.name ∧
      (∀ filename ∈ part.filename, ¬ boundary.text <:+: filename) ∧
      (∀ contentType ∈ part.contentType, ¬ boundary.text <:+: contentType) ∧
      (∀ field ∈ part.headers, ¬ boundary.text <:+: field.1) ∧
      (∀ field ∈ part.headers, ¬ boundary.text <:+: field.2) ∧ ¬ boundary.text <:+: part.data)
    ⟨fun ⟨h₁, h₂, h₃, h₄, h₅, h₆⟩ => ⟨h₁, h₂, h₃, h₄, h₅, h₆⟩,
      fun ⟨h₁, h₂, h₃, h₄, h₅, h₆⟩ => ⟨h₁, h₂, h₃, h₄, h₅, h₆⟩⟩

namespace ReadPart.FreeOf

variable {part : ReadPart} {boundary : Boundary}

theorem dispositionValue (h : part.FreeOf boundary) :
    ¬ boundary.text <:+: dispositionValue part.name part.filename := by
  have hnil : ¬ boundary.text <:+: [] := Boundary.not_infix_short (Nat.zero_le _)
  have hform : ¬ boundary.text <:+: formData := Boundary.not_infix_short (by decide)
  rw [Http.dispositionValue, dispositionParams, List.flatMap_cons]
  refine Boundary.not_infix_quotedParam hform (by decide) h.name ?_
  cases hfilename : part.filename with
  | none => exact hnil
  | some filename =>
    have hvalue := h.filename filename hfilename
    exact Boundary.not_infix_quotedParam hnil
      (show (asciiBytes "filename".toList).length ≤ 19 by decide) hvalue hnil

/-- The boundary does not occur in the part's text. -/
theorem text (h : part.FreeOf boundary) : ¬ boundary.text <:+: part.text := by
  refine Boundary.not_infix_endLines ?_ ?_
  · simp only [fields, List.forall_mem_map, List.mem_cons, List.mem_append, Option.mem_toList,
      Option.map_eq_some_iff]
    rintro field (rfl | ⟨contentType, hcontentType, rfl⟩ | hfield)
    · have hkey : ¬ boundary.text <:+: contentDisposition := Boundary.not_infix_short (by decide)
      exact Boundary.not_infix_fieldLine hkey h.dispositionValue
    · have hkey : ¬ boundary.text <:+: contentTypeKey := Boundary.not_infix_short (by decide)
      exact Boundary.not_infix_fieldLine hkey (h.contentType contentType hcontentType)
    · exact Boundary.not_infix_fieldLine (h.names field hfield) (h.values field hfield)
  · have hnil : ¬ boundary.text <:+: [] := Boundary.not_infix_short (Nat.zero_le _)
    refine Boundary.not_infix_cons (a := []) (by simp) hnil ?_
    exact Boundary.not_infix_cons (a := []) (by simp) hnil h.data

end ReadPart.FreeOf

section Bodies

variable {boundary : Boundary} {part : ReadPart} {parts : List ReadPart}

/-- The text up to a delimiter is cut off as a whole. -/
theorem cutBefore_delimiter {a : List UInt8} (ha : ¬ boundary.text <:+: a) (s : List UInt8) :
    cutBefore (delimiter boundary.text) (a ++ delimiter boundary.text ++ s) = some (a, s) := by
  have hcr : cr ∉ lf :: dash :: dash :: boundary.text := by
    simp only [List.mem_cons, not_or]
    exact ⟨by decide, by decide, by decide, fun hmem => (boundary.token cr hmem).1.1 rfl⟩
  have hfree : ¬ delimiter boundary.text <:+: a := by
    intro hoccurs
    exact ha ((List.suffix_append [cr, lf, dash, dash] boundary.text).isInfix.trans hoccurs)
  rw [cutBefore, delimiter, search_behind s hcr hfree, Option.map_some]
  simp

/-- A body: each part behind a delimiter line, then the closing one. -/
def multipartText (boundary : List UInt8) (parts : List ReadPart) : List UInt8 :=
  parts.flatMap (fun part =>
      dash :: dash :: (boundary ++ cr :: lf :: (part.text ++ [cr, lf]))) ++
    dash :: dash :: (boundary ++ [dash, dash, cr, lf])

/-- What stands behind the first boundary. -/
def behindBoundary (boundary : List UInt8) (parts : List ReadPart) : List UInt8 :=
  parts.flatMap (fun part => cr :: lf :: (part.text ++ delimiter boundary)) ++ [dash, dash, cr, lf]

theorem multipartText_eq (boundary : List UInt8) (parts : List ReadPart) :
    multipartText boundary parts = dash :: dash :: (boundary ++ behindBoundary boundary parts) := by
  induction parts with
  | nil => rfl
  | cons part parts ih =>
    have hhead : multipartText boundary (part :: parts) =
        dash :: dash :: (boundary ++ cr :: lf :: (part.text ++ cr :: lf ::
          multipartText boundary parts)) := by
      simp [multipartText]
    rw [hhead, ih]
    simp [behindBoundary, delimiter]

theorem length_le_behindBoundary (boundary : List UInt8) (parts : List ReadPart) :
    parts.length ≤ (behindBoundary boundary parts).length := by
  induction parts with
  | nil => exact Nat.zero_le _
  | cons part parts ih =>
    simp only [behindBoundary, List.flatMap_cons, List.length_append, List.length_cons] at ih ⊢
    omega

theorem readParts_behindBoundary (hclean : ∀ part ∈ parts, part.Clean)
    (hfree : ∀ part ∈ parts, part.FreeOf boundary) {fuel : ℕ} (hfuel : parts.length < fuel) :
    readParts boundary.text fuel (behindBoundary boundary.text parts) = some parts := by
  induction parts generalizing fuel with
  | nil =>
    cases fuel with
    | zero => exact absurd hfuel (Nat.not_lt_zero _)
    | succ fuel => rfl
  | cons part parts ih =>
    obtain ⟨hpart, hclean⟩ := List.forall_mem_cons.mp hclean
    obtain ⟨hpartFree, hfree⟩ := List.forall_mem_cons.mp hfree
    cases fuel with
    | zero => exact absurd hfuel (Nat.not_lt_zero _)
    | succ fuel =>
      have hsplit : behindBoundary boundary.text (part :: parts) = cr :: lf ::
          (part.text ++ delimiter boundary.text ++ behindBoundary boundary.text parts) := by
        simp [behindBoundary]
      have hopen : ¬ [dash, dash] <+: behindBoundary boundary.text (part :: parts) := by
        rw [hsplit, List.cons_prefix_cons]
        exact fun h => absurd h.1 (by decide)
      have hline : [cr, lf] <+: behindBoundary boundary.text (part :: parts) := by
        rw [hsplit]
        exact List.prefix_append [cr, lf] _
      rw [readParts, if_neg hopen, if_pos hline, hsplit, List.drop_succ_cons, List.drop_succ_cons,
        List.drop_zero, cutBefore_delimiter hpartFree.text, Option.bind_some,
        hpart.readPart_text, Option.bind_some, ih hclean hfree (Nat.lt_of_succ_lt_succ hfuel)]
      rfl

/-- Clean parts are read back from a body whose boundary occurs in none of them. -/
theorem readMultipart_text (hclean : ∀ part ∈ parts, part.Clean)
    (hfree : ∀ part ∈ parts, part.FreeOf boundary) :
    readMultipart boundary.text (multipartText boundary.text parts) = some parts := by
  have hcut : cutBefore (delimiter boundary.text) (cr :: lf :: multipartText boundary.text parts) =
      some ([], behindBoundary boundary.text parts) := by
    rw [multipartText_eq]
    exact cutBefore_delimiter (a := []) (Boundary.not_infix_short (Nat.zero_le _)) _
  have hfuel : parts.length < (behindBoundary boundary.text parts).length + 1 :=
    Nat.lt_succ_of_le (length_le_behindBoundary _ _)
  rw [readMultipart, hcut, Option.bind_some, readParts_behindBoundary hclean hfree hfuel]

end Bodies

end AbstractHttp.Http
