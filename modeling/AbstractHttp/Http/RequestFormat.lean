import AbstractHttp.EventStream.Format
import Mathlib.Tactic

/-!
# The HTTP/1.0 request format

What a request text means: a request line, header lines up to the first empty line,
then the body. A line is free of CR and LF and ends in CRLF; a header line is a name,
a colon, a space and a value. Nothing here speaks of how a text is built.
-/
namespace AbstractHttp.Http
open EventStream

/-- Bytes that a line may hold. -/
def InLine (b : UInt8) : Prop := b ≠ cr ∧ b ≠ lf

instance (b : UInt8) : Decidable (InLine b) := inferInstanceAs (Decidable (_ ∧ _))

/-- The text before the first `c` and the text behind it. -/
def cutAt (c : UInt8) : List UInt8 → Option (List UInt8 × List UInt8)
  | [] => none
  | b :: bs => if b = c then some ([], bs) else (cutAt c bs).map fun x => (b :: x.1, x.2)

/-- The first line and the text behind its CRLF. -/
def readLine : List UInt8 → Option (List UInt8 × List UInt8)
  | [] => none
  | b :: bs =>
    if b = cr then if bs.head? = some lf then some ([], bs.tail) else none
    else if b = lf then none
    else (readLine bs).map fun x => (b :: x.1, x.2)

/-- The lines up to the first empty one and the text behind it; at most `fuel` lines are read. -/
def readLines : ℕ → List UInt8 → Option (List (List UInt8) × List UInt8)
  | 0, _ => none
  | fuel + 1, text =>
    (readLine text).bind fun x =>
      if x.1 = [] then some ([], x.2)
      else (readLines fuel x.2).map fun y => (x.1 :: y.1, y.2)

/-- The name before the first colon and the value behind the space. -/
def readField (line : List UInt8) : Option (List UInt8 × List UInt8) :=
  (cutAt colon line).bind fun x => if x.2.head? = some space then some (x.1, x.2.tail) else none

/-- A request as its receiver understands it. -/
structure RequestText where
  method : List UInt8
  target : List UInt8
  headers : List (List UInt8 × List UInt8)
  body : List UInt8
  deriving DecidableEq, Repr

def httpVersion : List UInt8 := asciiBytes "HTTP/1.0".toList

/-- Method and target, each ended by one space, then the version. -/
def readRequestLine (line : List UInt8) : Option (List UInt8 × List UInt8) :=
  (cutAt space line).bind fun x => (cutAt space x.2).bind fun y =>
    if y.2 = httpVersion then some (x.1, y.1) else none

/-- A request text, if it is well formed. -/
def readRequest (text : List UInt8) : Option RequestText :=
  (readLine text).bind fun first => (readRequestLine first.1).bind fun start =>
    (readLines text.length first.2).bind fun head => (head.1.mapM readField).map fun headers =>
      ⟨start.1, start.2, headers, head.2⟩

/-! What is read comes out of the text. -/

theorem cutAt_eq_some {c : UInt8} {s x y : List UInt8} :
    cutAt c s = some (x, y) ↔ s = x ++ c :: y ∧ c ∉ x := by
  induction s generalizing x with
  | nil => simp [cutAt]
  | cons b bs ih =>
    rw [cutAt]
    by_cases h : b = c
    · subst h
      rw [if_pos rfl]
      constructor
      · rintro ⟨⟩
        simp
      · rintro ⟨hs, hx⟩
        cases x with
        | nil => simpa using hs
        | cons d x => exact absurd (List.cons.inj hs).1 (by rintro rfl; simp at hx)
    · rw [if_neg h, Option.map_eq_some_iff]
      constructor
      · rintro ⟨⟨x', y'⟩, hcut, ⟨⟩⟩
        obtain ⟨rfl, hx⟩ := ih.mp hcut
        exact ⟨rfl, by simpa [Ne.symm h] using hx⟩
      · rintro ⟨hs, hx⟩
        cases x with
        | nil => exact absurd (List.cons.inj hs).1 h
        | cons d x =>
          obtain ⟨rfl, htail⟩ := List.cons.inj hs
          exact ⟨(x, y), ih.mpr ⟨htail, fun hmem => hx (List.mem_cons_of_mem _ hmem)⟩, rfl⟩

theorem readLine_line {line : List UInt8} (hline : ∀ b ∈ line, InLine b) (rest : List UInt8) :
    readLine (line ++ cr :: lf :: rest) = some (line, rest) := by
  induction line with
  | nil => rfl
  | cons b line ih =>
    obtain ⟨⟨hcr, hlf⟩, hline⟩ := List.forall_mem_cons.mp hline
    rw [List.cons_append, readLine, if_neg hcr, if_neg hlf, ih hline]
    rfl

theorem of_readLine {s line rest : List UInt8} (h : readLine s = some (line, rest)) :
    s = line ++ cr :: lf :: rest ∧ ∀ b ∈ line, InLine b := by
  induction s generalizing line with
  | nil => cases h
  | cons b bs ih =>
    rw [readLine] at h
    split_ifs at h with hcr hhead hlf
    · obtain ⟨rfl, rfl⟩ := Prod.mk.inj (Option.some.inj h)
      cases bs with
      | nil => cases hhead
      | cons c bs =>
        obtain rfl := Option.some.inj hhead
        exact ⟨by simp [hcr], nofun⟩
    · obtain ⟨⟨line', rest'⟩, hread, ⟨⟩⟩ := Option.map_eq_some_iff.mp h
      obtain ⟨rfl, hline⟩ := ih hread
      exact ⟨rfl, List.forall_mem_cons.mpr ⟨⟨hcr, hlf⟩, hline⟩⟩

/-- A header line without its CRLF. -/
def fieldLine (field : List UInt8 × List UInt8) : List UInt8 :=
  field.1 ++ colon :: space :: field.2

theorem readField_eq_some {line : List UInt8} {field : List UInt8 × List UInt8} :
    readField line = some field ↔ line = fieldLine field ∧ colon ∉ field.1 := by
  obtain ⟨name, value⟩ := field
  rw [readField, Option.bind_eq_some_iff]
  constructor
  · rintro ⟨⟨x, y⟩, hcut, hread⟩
    obtain ⟨rfl, hx⟩ := cutAt_eq_some.mp hcut
    split at hread
    next hhead =>
      obtain ⟨rfl, rfl⟩ := Prod.mk.inj (Option.some.inj hread)
      cases y with
      | nil => simp at hhead
      | cons c y =>
        obtain rfl := Option.some.inj hhead
        exact ⟨rfl, hx⟩
    next => cases hread
  · rintro ⟨rfl, hname⟩
    exact ⟨(name, space :: value), cutAt_eq_some.mpr ⟨rfl, hname⟩, by simp⟩

/-- A request line without its CRLF. -/
def startLine (method target : List UInt8) : List UInt8 :=
  method ++ space :: (target ++ space :: httpVersion)

theorem readRequestLine_eq_some {line method target : List UInt8} :
    readRequestLine line = some (method, target) ↔
      line = startLine method target ∧ space ∉ method ∧ space ∉ target := by
  rw [readRequestLine, Option.bind_eq_some_iff]
  constructor
  · rintro ⟨⟨x, y⟩, hcut, hread⟩
    obtain ⟨⟨z, w⟩, hcut', hread⟩ := Option.bind_eq_some_iff.mp hread
    obtain ⟨rfl, hx⟩ := cutAt_eq_some.mp hcut
    obtain ⟨rfl, hz⟩ := cutAt_eq_some.mp hcut'
    split at hread
    next hversion =>
      obtain ⟨rfl, rfl⟩ := Prod.mk.inj (Option.some.inj hread)
      obtain rfl := hversion
      exact ⟨rfl, hx, hz⟩
    next => cases hread
  · rintro ⟨rfl, hmethod, htarget⟩
    refine ⟨_, cutAt_eq_some.mpr ⟨rfl, hmethod⟩, Option.bind_eq_some_iff.mpr ?_⟩
    exact ⟨_, cutAt_eq_some.mpr ⟨rfl, htarget⟩, by simp⟩

/-- Lines, each with its CRLF. -/
def endLines (lines : List (List UInt8)) : List UInt8 := lines.flatMap (· ++ [cr, lf])

theorem readLines_eq_some {fuel : ℕ} {s : List UInt8} {lines : List (List UInt8)}
    {rest : List UInt8} (h : readLines fuel s = some (lines, rest)) :
    s = endLines lines ++ cr :: lf :: rest ∧ ∀ line ∈ lines, ∀ b ∈ line, InLine b := by
  induction fuel generalizing s lines with
  | zero => cases h
  | succ fuel ih =>
    rw [readLines] at h
    obtain ⟨⟨line, s'⟩, hread, hnext⟩ := Option.bind_eq_some_iff.mp h
    obtain ⟨rfl, hline⟩ := of_readLine hread
    dsimp only at hnext
    split at hnext
    next hnil =>
      obtain ⟨rfl, rfl⟩ := Prod.mk.inj (Option.some.inj hnext)
      simp [endLines, hnil]
    next =>
      obtain ⟨⟨lines', rest'⟩, hrest, heq⟩ := Option.map_eq_some_iff.mp hnext
      obtain ⟨rfl, rfl⟩ := Prod.mk.inj heq
      obtain ⟨rfl, hlines⟩ := ih hrest
      exact ⟨by simp [endLines], List.forall_mem_cons.mpr ⟨hline, hlines⟩⟩

theorem readLines_endLines {lines : List (List UInt8)} (rest : List UInt8)
    (hne : ∀ line ∈ lines, line ≠ []) (hlines : ∀ line ∈ lines, ∀ b ∈ line, InLine b) {fuel : ℕ}
    (hfuel : lines.length < fuel) :
    readLines fuel (endLines lines ++ cr :: lf :: rest) = some (lines, rest) := by
  induction lines generalizing fuel with
  | nil =>
    cases fuel with
    | zero => simp at hfuel
    | succ fuel =>
      have hread : readLine (cr :: lf :: rest) = some ([], rest) := rfl
      simp [readLines, endLines, hread]
  | cons line lines ih =>
    cases fuel with
    | zero => simp at hfuel
    | succ fuel =>
      have hread : readLine (endLines (line :: lines) ++ cr :: lf :: rest) =
          some (line, endLines lines ++ cr :: lf :: rest) := by
        simpa [endLines] using
          readLine_line (hlines line List.mem_cons_self) (endLines lines ++ cr :: lf :: rest)
      have hrest := ih (fun l hl => hne l (List.mem_cons_of_mem _ hl))
        (fun l hl => hlines l (List.mem_cons_of_mem _ hl))
        (Nat.lt_of_succ_lt_succ hfuel)
      rw [readLines, hread, Option.bind_some, if_neg (hne line (List.mem_cons_self ..)), hrest]
      rfl

theorem mapM_readField_eq_some {lines : List (List UInt8)}
    {fields : List (List UInt8 × List UInt8)} :
    lines.mapM readField = some fields ↔
      lines = fields.map fieldLine ∧ ∀ field ∈ fields, colon ∉ field.1 := by
  induction lines generalizing fields with
  | nil =>
    cases fields <;> simp
  | cons line lines ih =>
    cases fields with
    | nil => simp [List.mapM_cons, Option.bind_eq_some_iff]
    | cons field fields =>
      simp only [List.mapM_cons, Option.bind_eq_bind, Option.bind_eq_some_iff, Option.pure_def,
        Option.some.injEq, List.cons.injEq, List.map_cons, List.forall_mem_cons]
      constructor
      · rintro ⟨f, hf, fs, hfs, rfl, rfl⟩
        obtain ⟨hline, hname⟩ := readField_eq_some.mp hf
        obtain ⟨hlines, hnames⟩ := ih.mp hfs
        exact ⟨⟨hline, hlines⟩, hname, hnames⟩
      · rintro ⟨⟨hline, hlines⟩, hname, hnames⟩
        exact ⟨field, readField_eq_some.mpr ⟨hline, hname⟩, fields, ih.mpr ⟨hlines, hnames⟩, rfl,
          rfl⟩

/-- The text of a request. -/
def RequestText.text (r : RequestText) : List UInt8 :=
  startLine r.method r.target ++ cr :: lf ::
    (endLines (r.headers.map fieldLine) ++ cr :: lf :: r.body)

/-- Each part keeps to the bytes that the format allows there. -/
structure RequestText.Clean (r : RequestText) : Prop where
  method : ∀ b ∈ r.method, InLine b ∧ b ≠ space
  target : ∀ b ∈ r.target, InLine b ∧ b ≠ space
  names : ∀ field ∈ r.headers, ∀ b ∈ field.1, InLine b ∧ b ≠ colon
  values : ∀ field ∈ r.headers, ∀ b ∈ field.2, InLine b

theorem not_mem_of_forall {s : List UInt8} {c : UInt8} {P : UInt8 → Prop}
    (h : ∀ b ∈ s, P b ∧ b ≠ c) : c ∉ s := fun hc => (h c hc).2 rfl

theorem length_le_endLines (lines : List (List UInt8)) : lines.length ≤ (endLines lines).length := by
  induction lines with
  | nil => exact Nat.zero_le _
  | cons line lines ih =>
    simp only [endLines, List.flatMap_cons, List.length_append, List.length_cons] at ih ⊢
    omega

/-- Header lines with clean names and values are read back. -/
theorem readLines_fields {fields : List (List UInt8 × List UInt8)}
    (hnames : ∀ field ∈ fields, ∀ b ∈ field.1, InLine b ∧ b ≠ colon)
    (hvalues : ∀ field ∈ fields, ∀ b ∈ field.2, InLine b) (rest : List UInt8) {fuel : ℕ}
    (hfuel : (endLines (fields.map fieldLine)).length < fuel) :
    readLines fuel (endLines (fields.map fieldLine) ++ cr :: lf :: rest) =
        some (fields.map fieldLine, rest) ∧
      (fields.map fieldLine).mapM readField = some fields := by
  have hspace : InLine space := by decide
  have hcolon : InLine colon := by decide
  have hlines : ∀ line ∈ fields.map fieldLine, ∀ b ∈ line, InLine b := by
    simp only [List.forall_mem_map, fieldLine, List.mem_append, List.mem_cons]
    rintro field hfield b (hb | rfl | rfl | hb)
    exacts [(hnames field hfield b hb).1, hcolon, hspace, hvalues field hfield b hb]
  have hne : ∀ line ∈ fields.map fieldLine, line ≠ [] := by
    simp only [List.forall_mem_map]
    intro field _
    simp [fieldLine]
  refine ⟨readLines_endLines rest hne hlines ((length_le_endLines _).trans_lt hfuel), ?_⟩
  exact mapM_readField_eq_some.mpr
    ⟨rfl, fun field hfield => not_mem_of_forall (hnames field hfield)⟩

/-- A clean request is read back from its text. -/
theorem readRequest_text {r : RequestText} (h : r.Clean) : readRequest r.text = some r := by
  have hversion : ∀ b ∈ httpVersion, InLine b := List.forall_iff_forall_mem.mp (by decide)
  have hspace : InLine space := by decide
  have hstart : ∀ b ∈ startLine r.method r.target, InLine b := by
    simp only [startLine, List.mem_append, List.mem_cons]
    rintro b (hb | rfl | hb | rfl | hb)
    exacts [(h.method b hb).1, hspace, (h.target b hb).1, hspace, hversion b hb]
  have hfuel : (endLines (r.headers.map fieldLine)).length < r.text.length := by
    simp only [RequestText.text, List.length_append, List.length_cons]
    omega
  obtain ⟨hlines, hfields⟩ := readLines_fields h.names h.values r.body hfuel
  have hfirst : readLine r.text = some (startLine r.method r.target,
      endLines (r.headers.map fieldLine) ++ cr :: lf :: r.body) :=
    readLine_line hstart _
  have hsplit : readRequestLine (startLine r.method r.target) = some (r.method, r.target) :=
    readRequestLine_eq_some.mpr
      ⟨rfl, not_mem_of_forall h.method, not_mem_of_forall h.target⟩
  rw [readRequest, hfirst, Option.bind_some, hsplit, Option.bind_some, hlines, Option.bind_some,
    hfields]
  rfl

/-- What is read is clean. -/
theorem readRequest_clean {s : List UInt8} {r : RequestText} (h : readRequest s = some r) :
    r.Clean := by
  rw [readRequest] at h
  obtain ⟨⟨line, rest⟩, hfirst, h⟩ := Option.bind_eq_some_iff.mp h
  obtain ⟨⟨method, target⟩, hsplit, h⟩ := Option.bind_eq_some_iff.mp h
  obtain ⟨⟨lines, body⟩, hread, h⟩ := Option.bind_eq_some_iff.mp h
  obtain ⟨headers, hfields, rfl⟩ := Option.map_eq_some_iff.mp h
  obtain ⟨-, hline⟩ := of_readLine hfirst
  obtain ⟨rfl, hmethod, htarget⟩ := readRequestLine_eq_some.mp hsplit
  obtain ⟨-, hlines⟩ := readLines_eq_some hread
  obtain ⟨rfl, hnames⟩ := mapM_readField_eq_some.mp hfields
  simp only [startLine, List.mem_append, List.mem_cons] at hline
  simp only [List.forall_mem_map, fieldLine, List.mem_append, List.mem_cons] at hlines
  constructor
  · exact fun b hb => ⟨hline b (Or.inl hb), fun heq => hmethod (heq ▸ hb)⟩
  · exact fun b hb => ⟨hline b (Or.inr (Or.inr (Or.inl hb))), fun heq => htarget (heq ▸ hb)⟩
  · exact fun field hfield b hb =>
      ⟨hlines field hfield b (Or.inl hb), fun heq => hnames field hfield (heq ▸ hb)⟩
  · exact fun field hfield b hb => hlines field hfield b (Or.inr (Or.inr (Or.inr hb)))

/-- A request is read back from its text exactly when it is clean. -/
theorem readRequest_text_iff (r : RequestText) : readRequest r.text = some r ↔ r.Clean :=
  ⟨readRequest_clean, readRequest_text⟩

end AbstractHttp.Http
