import Mathlib.Data.List.Basic
import Mathlib.Tactic

/-!
# The event stream format

What a stream of bytes means, as the WHATWG interpretation says it: the stream is
a list of lines, blank lines cut it into blocks, and a block with a data field is
an event. Nothing here speaks of buffers or of the order in which bytes come.
-/
namespace AbstractHttp.EventStream

def cr : UInt8 := 0x0D
def lf : UInt8 := 0x0A
def colon : UInt8 := 0x3A
def space : UInt8 := 0x20

def asciiBytes (cs : List Char) : List UInt8 := cs.map fun c => UInt8.ofNat c.toNat

def eventField : List UInt8 := asciiBytes ['e', 'v', 'e', 'n', 't']
def dataField : List UInt8 := asciiBytes ['d', 'a', 't', 'a']
def idField : List UInt8 := asciiBytes ['i', 'd']
def retryField : List UInt8 := asciiBytes ['r', 'e', 't', 'r', 'y']

def byteOrderMark : List UInt8 := [0xEF, 0xBB, 0xBF]

/-- A stream without the byte order mark that it may start with. -/
def stripBom (stream : List UInt8) : List UInt8 :=
  if byteOrderMark <+: stream then stream.drop 3 else stream

/-- The lines of a stream of which `cur` has been read of the first line. An LF behind a CR ends
the line that the CR has ended. What follows the last line end comes last. -/
def linesFrom (afterCr : Bool) (cur : List UInt8) : List UInt8 → List (List UInt8)
  | [] => [cur]
  | b :: bs =>
    if b = lf ∧ afterCr then linesFrom false cur bs
    else if b = lf ∨ b = cr then cur :: linesFrom (b = cr) [] bs
    else linesFrom false (cur ++ [b]) bs

def lines (stream : List UInt8) : List (List UInt8) := linesFrom false [] (stripBom stream)

/-- The field in a line, if it is not a comment: the value begins behind the first colon and one
space, and is empty when there is no colon. -/
def fieldOf (line : List UInt8) : Option (List UInt8 × List UInt8) :=
  if line.head? = some colon then none
  else if colon ∈ line then
    let value := (line.dropWhile (· ≠ colon)).drop 1
    some (line.takeWhile (· ≠ colon), if value.head? = some space then value.drop 1 else value)
  else some (line, [])

/-- The value of the field of this name in a line. -/
def fieldValue (name line : List UInt8) : Option (List UInt8) :=
  match fieldOf line with
  | some (field, value) => if field = name then some value else none
  | none => none

/-- The value of a data field. -/
def dataValue (line : List UInt8) : Option (List UInt8) :=
  match fieldOf line with
  | some (name, value) => if name = dataField then some value else none
  | none => none

/-- The value of an id field; an id with a NUL is ignored. -/
def idValue (line : List UInt8) : Option (List UInt8) :=
  match fieldOf line with
  | some (name, value) => if name = idField ∧ 0 ∉ value then some value else none
  | none => none

/-- The blocks that blank lines end, when `block` has been read of the first. What follows the last
blank line comes last. -/
def blocksFrom (block : List (List UInt8)) : List (List UInt8) → List (List (List UInt8))
  | [] => [block]
  | l :: ls => if l = [] then block :: blocksFrom [] ls else blocksFrom (block ++ [l]) ls

def blocks (ls : List (List UInt8)) : List (List (List UInt8)) := blocksFrom [] ls

def dataValues (block : List (List UInt8)) : List (List UInt8) := block.filterMap dataValue

/-- The values of the data fields of a block, with an LF behind each. -/
def dataOf (block : List (List UInt8)) : List UInt8 := (dataValues block).flatMap (· ++ [lf])

/-- The latest id, where `id` was the latest before the block. -/
def latestId (id : Option (List UInt8)) (block : List (List UInt8)) : Option (List UInt8) :=
  ((block.filterMap idValue).getLast?).or id

/-- Data and id of the event that a block makes, if it has a data field. -/
def eventOf (id : Option (List UInt8)) (block : List (List UInt8)) :
    List (List UInt8 × Option (List UInt8)) :=
  if dataValues block = [] then []
  else [(List.intercalate [lf] (dataValues block), latestId id block)]

def eventsOf (id : Option (List UInt8)) :
    List (List (List UInt8)) → List (List UInt8 × Option (List UInt8))
  | [] => []
  | b :: bs => eventOf id b ++ eventsOf (latestId id b) bs

/-- The events of a stream. A line without an end and a block without a blank line make none. -/
def interpret (stream : List UInt8) : List (List UInt8 × Option (List UInt8)) :=
  eventsOf none (blocks (lines stream).dropLast).dropLast

theorem linesFrom_ne_nil (afterCr : Bool) (cur stream : List UInt8) :
    linesFrom afterCr cur stream ≠ [] := by
  induction stream generalizing afterCr cur with
  | nil => simp [linesFrom]
  | cons b bs ih =>
    rw [linesFrom]
    split
    · exact ih _ _
    · split
      · exact List.cons_ne_nil _ _
      · exact ih _ _

theorem linesFrom_lf (cur bs : List UInt8) :
    linesFrom false cur (lf :: bs) = cur :: linesFrom false [] bs := by
  simp [linesFrom, lf, cr]

theorem linesFrom_crlf (cur bs : List UInt8) :
    linesFrom false cur (cr :: lf :: bs) = cur :: linesFrom false [] bs := by
  simp [linesFrom, lf, cr]

theorem linesFrom_byte {b : UInt8} (hcr : b ≠ cr) (hlf : b ≠ lf) (cur bs : List UInt8) :
    linesFrom false cur (b :: bs) = linesFrom false (cur ++ [b]) bs := by
  simp [linesFrom, hcr, hlf]

/-- Text without line ends continues the line. -/
theorem linesFrom_text {text : List UInt8} (htext : ∀ c ∈ text, c ≠ cr ∧ c ≠ lf)
    (cur rest : List UInt8) :
    linesFrom false cur (text ++ rest) = linesFrom false (cur ++ text) rest := by
  induction text generalizing cur with
  | nil => rw [List.nil_append, List.append_nil]
  | cons c text ih =>
    obtain ⟨hc, htext⟩ := List.forall_mem_cons.mp htext
    rw [List.cons_append, linesFrom_byte hc.1 hc.2, ih htext, List.append_assoc]
    rfl

/-- What has been read of a line is the beginning of a line. -/
theorem exists_mem_linesFrom (afterCr : Bool) (cur stream : List UInt8) :
    ∃ rest, cur ++ rest ∈ linesFrom afterCr cur stream := by
  induction stream generalizing afterCr cur with
  | nil => exact ⟨[], by simp [linesFrom]⟩
  | cons b bs ih =>
    rw [linesFrom]
    split
    · exact ih _ _
    · split
      · exact ⟨[], by simp⟩
      · obtain ⟨rest, hrest⟩ := ih false (cur ++ [b])
        exact ⟨b :: rest, by simpa using hrest⟩

theorem blocksFrom_ne_nil (block ls : List (List UInt8)) : blocksFrom block ls ≠ [] := by
  induction ls generalizing block with
  | nil => simp [blocksFrom]
  | cons l ls ih =>
    rw [blocksFrom]
    split
    · exact List.cons_ne_nil _ _
    · exact ih _

theorem blocksFrom_blank (block ls : List (List UInt8)) :
    blocksFrom block ([] :: ls) = block :: blocksFrom [] ls := by
  rw [blocksFrom, if_pos rfl]

theorem blocksFrom_line {l : List UInt8} (h : l ≠ []) (block ls : List (List UInt8)) :
    blocksFrom block (l :: ls) = blocksFrom (block ++ [l]) ls := by
  rw [blocksFrom, if_neg h]

/-- What has been read of a block is the beginning of a block. -/
theorem exists_mem_blocksFrom (block ls : List (List UInt8)) :
    ∃ rest, block ++ rest ∈ blocksFrom block ls := by
  induction ls generalizing block with
  | nil => exact ⟨[], by simp [blocksFrom]⟩
  | cons l ls ih =>
    rw [blocksFrom]
    split
    · exact ⟨[], by simp⟩
    · obtain ⟨rest, hrest⟩ := ih (block ++ [l])
      exact ⟨l :: rest, by simpa using hrest⟩

theorem dataOf_append (b b' : List (List UInt8)) : dataOf (b ++ b') = dataOf b ++ dataOf b' := by
  simp [dataOf, dataValues]

/-- The data of an event is its values joined by LF, with one LF more. -/
theorem intercalate_lf {values : List (List UInt8)} (h : values ≠ []) :
    List.intercalate [lf] values ++ [lf] = values.flatMap (· ++ [lf]) := by
  induction values with
  | nil => exact absurd rfl h
  | cons v vs ih =>
    cases vs with
    | nil => simp [List.intercalate]
    | cons w ws =>
      have hrest := ih (List.cons_ne_nil w ws)
      rw [List.flatMap_cons, ← hrest]
      simp [List.intercalate]

theorem getLast?_filterMap_append {α β : Type*} (f : α → Option β) (as : List α) (a : α) :
    ((as ++ [a]).filterMap f).getLast? = (f a).or (as.filterMap f).getLast? := by
  rw [List.filterMap_append, List.getLast?_append]
  cases h : f a <;> simp [h]

theorem latestId_append (id : Option (List UInt8)) (block : List (List UInt8))
    (l : List UInt8) : latestId id (block ++ [l]) = (idValue l).or (latestId id block) := by
  rw [latestId, latestId, getLast?_filterMap_append, Option.or_assoc]

end AbstractHttp.EventStream
