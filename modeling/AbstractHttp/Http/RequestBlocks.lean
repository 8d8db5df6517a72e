import AbstractHttp.Crypto.Base64
import AbstractHttp.Http.HeaderList
import AbstractHttp.Http.Multipart
import AbstractHttp.Library.BlockArray
import AbstractHttp.Library.Schedule

/-!
# The blocks of a request

The functions that fill and empty a request, with every pointer that they keep and every block that
they ask for, use and give back. Any request for memory may be refused.
-/
namespace AbstractHttp.Http.Owned
open Library EventStream

/-- A string on the heap: its block, and what `strdup` has put there. -/
structure HeapString where
  block : ℕ
  text : CString

/-- A string that a caller passes, with its block where it is on the heap. -/
structure Argument where
  origin : Option ℕ
  text : CString

/-- Going through a string up to its NUL. -/
def HeapString.read (s : HeapString) : HeapM CString := do
  HeapM.use s.block
  pure s.text

def Argument.read (s : Argument) : HeapM CString :=
  match s.origin with
  | some block => HeapString.read ⟨block, s.text⟩
  | none => pure s.text

/-- A string literal, or one on the stack. -/
def Argument.static (text : CString) : Argument := ⟨none, text⟩

/-- `c_abstract_http_strdup`, NULL where `malloc` fails. -/
def strdup (s : Argument) : HeapM (Option HeapString) := do
  let text ← s.read
  let block ← HeapM.malloc
  pure (block.map (⟨·, text⟩))

/-- `free` of a string that may be NULL. -/
def freeString (s : Option HeapString) : HeapM Unit := HeapM.free (s.map HeapString.block)

/-- A string that is there; `strlen` of NULL is an error of the program. -/
def readString : Option HeapString → HeapM CString
  | some s => s.read
  | none => failure

/-- `struct HttpHeader`. -/
structure HeaderSlot where
  key : Option HeapString
  value : Option HeapString

/-- `struct HttpHeaders`. -/
abbrev HeaderBlocks := BlockArray HeaderSlot

/-- `http_headers_add`. -/
def headersAdd (headers : HeaderBlocks) (key value : Option Argument) :
    HeapM (HeaderBlocks × Option ErrorCode) :=
  match key, value with
  | some key, some value => do
    match ← headers.grow 8 with
    | none => pure (headers, some .nomem)
    | some headers =>
      let copy ← strdup key
      let headers ← headers.modify headers.count fun slot => { slot with key := copy }
      if copy.isNone then pure (headers, some .nomem)
      else
        let copy ← strdup value
        let headers ← headers.modify headers.count fun slot => { slot with value := copy }
        if copy.isNone then
          let slot ← headers.get headers.count
          freeString slot.key
          pure (headers, some .nomem)
        else pure (headers.counted, none)
  | _, _ => pure (headers, some .inval)

/-- The loop of `http_headers_remove` from index `i` on. -/
def removeLoop (key : Argument) (headers : HeaderBlocks) (i : ℕ) (found : Bool) :
    HeapM (HeaderBlocks × Bool) :=
  if i < headers.count then do
    let slot ← headers.get i
    let entry ← readString slot.key
    let text ← key.read
    if strcasecmpPortable entry.bytes text.bytes = 0 then
      freeString slot.key
      freeString slot.value
      let moved ← headers.moveUp i (headers.count - 1 - i)
      removeLoop key { moved with count := headers.count - 1 } i true
    else removeLoop key headers (i + 1) found
  else pure (headers, found)
termination_by headers.count - i

/-- `http_headers_remove`. -/
def headersRemove (headers : HeaderBlocks) (key : Option Argument) :
    HeapM (HeaderBlocks × Option ErrorCode) :=
  match key with
  | some key => do
    let (headers, found) ← removeLoop key headers 0 false
    pure (headers, if found then none else some .inval)
  | none => pure (headers, some .inval)

/-- One round of the loop of `http_headers_free`. -/
def freeHeader (slot : HeaderSlot) : HeapM Unit := do
  freeString slot.key
  freeString slot.value

/-- `http_headers_free`. -/
def headersFree (headers : HeaderBlocks) : HeapM HeaderBlocks := headers.clear freeHeader

/-- `struct HttpPart`. The data belong to the caller, who has `dataLen` bytes of them. -/
structure PartSlot where
  name : Option HeapString
  filename : Option HeapString
  contentType : Option HeapString
  headers : HeaderBlocks
  data : Option (List UInt8)
  dataLen : ℕ
  held : dataLen ≤ (data.getD []).length

/-- `struct HttpParts`. -/
abbrev PartBlocks := BlockArray PartSlot

/-- "Zero new slot", and `http_headers_init`. -/
def PartSlot.zeroed (slot : PartSlot) : PartSlot where
  name := none
  filename := none
  contentType := none
  headers := .init slot.headers.slots
  data := none
  dataLen := 0
  held := Nat.zero_le _

/-- What every failure of `http_request_add_part` ends with: `http_headers_free` on the headers of
the new slot. -/
def abandonPart (parts : PartBlocks) : HeapM (PartBlocks × Option ErrorCode) := do
  let slot ← parts.get parts.count
  let headers ← headersFree slot.headers
  let parts ← parts.put parts.count { slot with headers := headers }
  pure (parts, some .nomem)

/-- A string is copied into the new slot; where that fails, `undo` frees those copied before. -/
def copyInto (parts : PartBlocks) (s : Option Argument)
    (store : Option HeapString → PartSlot → PartSlot) (undo : PartSlot → HeapM Unit)
    (next : PartBlocks → HeapM (PartBlocks × Option ErrorCode)) :
    HeapM (PartBlocks × Option ErrorCode) :=
  match s with
  | none => next parts
  | some s => do
    let copy ← strdup s
    let parts ← parts.modify parts.count (store copy)
    if copy.isNone then
      undo (← parts.get parts.count)
      abandonPart parts
    else next parts

/-- `http_request_add_part`; `held` is what its caller owes. -/
def addPart (parts : PartBlocks) (name filename contentType : Option Argument)
    (data : Option (List UInt8)) (dataLen : ℕ) (held : ∀ block ∈ data, dataLen ≤ block.length) :
    HeapM (PartBlocks × Option ErrorCode) :=
  if hnull : name.isNone ∨ data = none ∧ dataLen > 0 then pure (parts, some .inval)
  else do
    match ← parts.grow 4 with
    | none => pure (parts, some .nomem)
    | some parts =>
      let parts ← parts.modify parts.count PartSlot.zeroed
      copyInto parts name (fun copy slot => { slot with name := copy }) (fun _ => pure ())
        fun parts =>
      copyInto parts filename (fun copy slot => { slot with filename := copy })
        (fun slot => freeString slot.name) fun parts =>
      copyInto parts contentType (fun copy slot => { slot with contentType := copy })
        (fun slot => do
          freeString slot.filename
          freeString slot.name) fun parts => do
      let parts ← parts.modify parts.count fun slot =>
        { slot with
          data := data
          dataLen := dataLen
          held := by
            cases data with
            | none => exact Nat.le_of_not_lt fun hlen => hnull (.inr ⟨rfl, hlen⟩)
            | some block => exact held block rfl }
      pure (parts.counted, none)

/-- `http_request_add_part_header_last`. -/
def addPartHeaderLast (parts : PartBlocks) (key value : Option Argument) :
    HeapM (PartBlocks × Option ErrorCode) :=
  if key.isNone ∨ value.isNone ∨ parts.count = 0 then pure (parts, some .inval)
  else do
    let slot ← parts.get (parts.count - 1)
    let (headers, rc) ← headersAdd slot.headers key value
    let parts ← parts.put (parts.count - 1) { slot with headers := headers }
    pure (parts, rc)

/-- One round of the loop of `http_parts_free`. -/
def freePart (slot : PartSlot) : HeapM Unit := do
  freeString slot.name
  freeString slot.filename
  freeString slot.contentType
  let _ ← headersFree slot.headers
  pure ()

/-- `http_parts_free`. -/
def partsFree (parts : PartBlocks) : HeapM PartBlocks := parts.clear freePart

/-- A body, with its block. -/
structure HeapBytes where
  block : ℕ
  bytes : List UInt8

/-- `struct HttpRequest` as far as the functions here go. -/
structure RequestBlocks where
  url : Option HeapString
  method : HttpMethod
  headers : HeaderBlocks
  body : Option HeapBytes
  bodyLen : ℕ
  parts : PartBlocks

/-- `http_request_init`; what later arrays hold before they are written is `junk`. -/
def RequestBlocks.init (junk : Memory HeaderSlot) (junkParts : Memory PartSlot) :
    RequestBlocks where
  url := none
  method := .get
  headers := .init junk
  body := none
  bodyLen := 0
  parts := .init junkParts

/-- What the setters for a token have in common. -/
def setAuth (scheme : String) (req : RequestBlocks) (token : Option Argument) :
    HeapM (RequestBlocks × Option ErrorCode) :=
  match token with
  | none => pure (req, some .inval)
  | some token => do
    let text ← token.read
    match ← HeapM.malloc with
    | none => pure (req, some .nomem)
    | some val =>
      HeapM.use val
      let value := CString.ofBytes (asciiBytes scheme.toList ++ text.bytes)
      let (headers, rc) ← headersAdd req.headers (some (.static (literal "Authorization")))
        (some ⟨some val, value⟩)
      HeapM.release val
      pure ({ req with headers := headers }, rc)

/-- `http_request_set_auth_bearer`. -/
def setAuthBearer : RequestBlocks → Option Argument → HeapM (RequestBlocks × Option ErrorCode) :=
  setAuth "Bearer "

/-- `http_request_set_auth_basic`. -/
def setAuthBasic : RequestBlocks → Option Argument → HeapM (RequestBlocks × Option ErrorCode) :=
  setAuth "Basic "

/-- `http_request_set_auth_basic_userpwd`; `junk` is what the block of the encoder holds before. -/
def setAuthBasicUserpwd (junk : Memory UInt8) (req : RequestBlocks)
    (username password : Option Argument) : HeapM (RequestBlocks × Option ErrorCode) :=
  match username, password with
  | some username, some password => do
    let user ← username.read
    let pass ← password.read
    match ← HeapM.malloc with
    | none => pure (req, some .nomem)
    | some raw =>
      HeapM.use raw
      let text := user.bytes ++ colon :: pass.bytes
      let block ← HeapM.malloc
      HeapM.release raw
      match block, base64Encode (fun _ => block.isSome) junk text with
      | some encoded, .ok out =>
        let token := CString.ofBytes (out.read 0 (4 * ((text.length + 2) / 3) + 1))
        let (req, rc) ← setAuthBasic req (some ⟨some encoded, token⟩)
        HeapM.release encoded
        pure (req, rc)
      | _, _ => pure (req, some .nomem)
  | _, _ => pure (req, some .inval)

/-- What the builders of OAuth 2.0 requests have in common; the values of the fields are the
caller's. -/
def initForm (req : RequestBlocks) (url : Option Argument) (fields : List FormField) :
    HeapM (RequestBlocks × Option ErrorCode) :=
  match url with
  | none => pure (req, some .inval)
  | some url =>
    if fields.any fun field => ¬ field.optional ∧ field.argument = none then
      pure (req, some .inval)
    else do
      let copy ← strdup url
      let req := { req with url := copy }
      if copy.isNone then pure (req, some .nomem)
      else
        let (headers, rc) ← headersAdd req.headers (some (.static (literal "Content-Type")))
          (some (.static (literal "application/x-www-form-urlencoded")))
        let req := { req with method := .post, headers := headers }
        if rc.isSome then pure (req, rc)
        else
          match ← HeapM.malloc with
          | none => pure (req, some .nomem)
          | some body =>
            HeapM.use body
            pure ({ req with
                body := some ⟨body, formBody fields ++ [0]⟩
                bodyLen := formBodyLen fields }, none)

/-- The entries of a header list, as the loops of `http_request_flatten_parts` go through them. -/
def readHeaders (headers : HeaderBlocks) : HeapM (List Field) :=
  (List.range headers.count).mapM fun i => do
    let slot ← headers.get i
    let key ← readString slot.key
    let value ← readString slot.value
    pure (key, value)

/-- An optional string, as far as it is there. -/
def readOptional : Option HeapString → HeapM (Option CString)
  | some s => some <$> s.read
  | none => pure none

theorem named_entries (fields : List Field) :
    ∀ header ∈ fields.map Field.entry, header.key.isSome ∧ header.value.isSome := by
  intro header hheader
  obtain ⟨field, -, rfl⟩ := List.mem_map.mp hheader
  exact ⟨rfl, rfl⟩

/-- The parts, as the loops of `http_request_flatten_parts` go through them. -/
def readParts (parts : PartBlocks) : HeapM (List HttpPart) :=
  (List.range parts.count).mapM fun i => do
    let slot ← parts.get i
    let name ← readString slot.name
    let filename ← readOptional slot.filename
    let contentType ← readOptional slot.contentType
    let fields ← readHeaders slot.headers
    pure
      { name, filename, contentType
        headers := ⟨fields.map Field.entry, slot.headers.capacity⟩
        data := slot.data
        dataLen := slot.dataLen
        named := named_entries fields
        held := slot.held }

/-- `http_request_flatten_parts`; `fresh` is what the new block holds, and `rand` the number that
`rand` gives. The parts are gone through twice, for the size and for the text. -/
def flattenParts (vsnprintf : Vsnprintf) (fresh : Memory UInt8) (rand : UInt32)
    (req : RequestBlocks) : HeapM (RequestBlocks × Option ErrorCode) :=
  if req.parts.count = 0 then pure (req, none)
  else if req.body.isSome then pure (req, some .inval)
  else do
    let boundary := boundaryText rand
    let size := estimatedSize boundary (← readParts req.parts) % 2 ^ 64
    match ← HeapM.malloc with
    | none => pure (req, some .nomem)
    | some buffer =>
      HeapM.use buffer
      match writeParts vsnprintf boundary (← readParts req.parts) ⟨fresh, 0, size⟩ with
      | .error e =>
        HeapM.release buffer
        pure (req, some e)
      | .ok b =>
        let (headers, rc) ← headersAdd req.headers (some (.static (.ofBytes contentTypeKey)))
          (some (.static (.ofBytes (multipartType ++ boundary))))
        if rc.isSome then
          HeapM.release buffer
          pure ({ req with headers := headers, body := none, bodyLen := 0 }, rc)
        else
          pure ({ req with
              headers := headers
              body := some ⟨buffer, b.mem.read 0 size⟩
              bodyLen := b.pos }, none)

/-- `http_request_free`. -/
def requestFree (req : RequestBlocks) : HeapM RequestBlocks := do
  freeString req.url
  HeapM.free (req.body.map HeapBytes.block)
  let headers ← headersFree req.headers
  let parts ← partsFree req.parts
  pure { req with url := none, body := none, headers := headers, parts := parts }

/-! Without its pointers a header list is the array of `http_headers_add` and its companions. -/

section Contents

def HeaderSlot.entry (slot : HeaderSlot) : HttpHeader :=
  ⟨slot.key.map HeapString.text, slot.value.map HeapString.text⟩

/-- The list without its pointers. -/
def contents (headers : HeaderBlocks) : HeaderArray :=
  ⟨fun i => (headers.slots i).entry, headers.count, headers.capacity⟩

theorem contents_withSlot (headers : HeaderBlocks) (i : ℕ) (slot : HeaderSlot) :
    contents (headers.withSlot i slot) =
      { contents headers with headers := (contents headers).headers.write i [slot.entry] } := by
  have hslots : (fun j => ((headers.withSlot i slot).slots j).entry) =
      (contents headers).headers.write i [slot.entry] := by
    funext j
    rcases lt_trichotomy j i with hlt | rfl | hgt
    · rw [BlockArray.withSlot_of_ne hlt.ne, Memory.write_below _ _ hlt]
      rfl
    · rw [BlockArray.withSlot_self]
      exact ((contents headers).headers.write_at j [slot.entry] 0 (by simp)).symm
    · rw [BlockArray.withSlot_of_ne hgt.ne', Memory.write_above _ _ (by simpa using hgt)]
      rfl
  rw [contents, hslots]
  rfl

theorem read_eq_some {s : HeapString} {a a' : Allocator} {text : CString}
    (h : s.read a = some (text, a')) : text = s.text := by
  obtain ⟨_, _, -, h⟩ := HeapM.bind_eq_some.mp h
  exact (HeapM.pure_eq_some.mp h).1.symm

theorem Argument.read_eq_some {s : Argument} {a a' : Allocator} {text : CString}
    (h : s.read a = some (text, a')) : text = s.text := by
  obtain ⟨origin, s⟩ := s
  cases origin with
  | none => exact (HeapM.pure_eq_some.mp h).1.symm
  | some b => exact Owned.read_eq_some (s := ⟨b, s⟩) h

theorem strdup_eq_some {s : Argument} {a a' : Allocator} {r : Option HeapString}
    (h : strdup s a = some (r, a')) : r.map HeapString.text = Http.strdup r.isSome s.text := by
  obtain ⟨text, _, hread, h⟩ := HeapM.bind_eq_some.mp h
  obtain ⟨block, _, -, h⟩ := HeapM.bind_eq_some.mp h
  obtain ⟨rfl, -⟩ := HeapM.pure_eq_some.mp h
  have htext := Argument.read_eq_some hread
  cases block with
  | none => rfl
  | some b => simp [Http.strdup, htext]

variable {headers : HeaderBlocks} {a a' : Allocator}

/-- What the array holds is what the model without pointers says. -/
theorem headersAdd_contents {key value : Option Argument} {r : HeaderBlocks × Option ErrorCode}
    (h : headersAdd headers key value a = some (r, a')) : ∃ alloc,
    httpHeadersAdd alloc (contents headers) (key.map Argument.text) (value.map Argument.text) =
      (contents r.1, r.2) := by
  cases key with
  | none =>
    obtain ⟨rfl, -⟩ := HeapM.pure_eq_some.mp h
    exact ⟨fun _ _ => true, rfl⟩
  | some key =>
    cases value with
    | none =>
      obtain ⟨rfl, -⟩ := HeapM.pure_eq_some.mp h
      exact ⟨fun _ _ => true, rfl⟩
    | some value =>
      obtain ⟨grown, _, hgrow, h⟩ := HeapM.bind_eq_some.mp h
      obtain ⟨rfl, hfull⟩ | ⟨grown, rfl, hslots, hcount, hcapacity⟩ := BlockArray.grow_eq_some hgrow
      · obtain ⟨rfl, -⟩ := HeapM.pure_eq_some.mp h
        refine ⟨fun _ _ => false, ?_⟩
        simp only [Option.map_some, httpHeadersAdd]
        exact if_pos ⟨hfull, trivial⟩
      · have hgrown : contents grown = ⟨(contents headers).headers, (contents headers).count,
            (contents headers).grownCapacity⟩ := by
          rw [contents, hslots, hcount, hcapacity]
          rfl
        have hcount' : grown.count = (contents headers).count := hcount
        have hold : (grown.slots (contents headers).count).value.map HeapString.text =
            ((contents headers).headers (contents headers).count).value := by
          rw [hslots]
          rfl
        obtain ⟨key', _, hkey, h⟩ := HeapM.bind_eq_some.mp h
        obtain ⟨keyed, _, hkeyed, h⟩ := HeapM.bind_eq_some.mp h
        obtain rfl := BlockArray.modify_eq_some hkeyed
        have hkey := strdup_eq_some hkey
        cases key' with
        | none =>
          obtain ⟨rfl, -⟩ := HeapM.pure_eq_some.mp h
          refine ⟨fun block _ => block = .array, ?_⟩
          simp [contents_withSlot, hgrown, httpHeadersAdd, Http.strdup, HeaderSlot.entry, hcount',
            hold]
        | some key' =>
          obtain ⟨value', _, hvalue, h⟩ := HeapM.bind_eq_some.mp h
          obtain ⟨valued, _, hvalued, h⟩ := HeapM.bind_eq_some.mp h
          obtain rfl := BlockArray.modify_eq_some hvalued
          have hvalue := strdup_eq_some hvalue
          have htext : key'.text = key.text := by simpa [Http.strdup] using hkey
          cases value' with
          | none =>
            obtain ⟨_, _, -, h⟩ := HeapM.bind_eq_some.mp h
            obtain ⟨_, _, -, h⟩ := HeapM.bind_eq_some.mp h
            obtain ⟨rfl, -⟩ := HeapM.pure_eq_some.mp h
            refine ⟨fun block _ => block ≠ .value, ?_⟩
            simp [contents_withSlot, hgrown, httpHeadersAdd, Http.strdup, HeaderSlot.entry,
              hcount', hold, htext]
          | some value' =>
            obtain ⟨rfl, -⟩ := HeapM.pure_eq_some.mp h
            have htext' : value'.text = value.text := by simpa [Http.strdup] using hvalue
            refine ⟨fun block _ => true, ?_⟩
            have hcounted (arr : HeaderBlocks) : contents arr.counted =
                { contents arr with count := (contents arr).count + 1 } := rfl
            simp [hcounted, contents_withSlot, hgrown, httpHeadersAdd, Http.strdup,
              HeaderSlot.entry, hcount', hold, htext, htext']

theorem readString_eq_some {s : Option HeapString} {text : CString}
    (h : readString s a = some (text, a')) : s.map HeapString.text = some text := by
  cases s with
  | none => cases h
  | some s => rw [read_eq_some h, Option.map_some]

theorem removeLoop_contents {key : Argument} {i : ℕ} {found : Bool} {r : HeaderBlocks × Bool}
    (h : removeLoop key headers i found a = some (r, a')) :
    Http.removeLoop key.text .apart (contents headers) i found = some (contents r.1, r.2) := by
  generalize hn : headers.count - i = n
  induction n generalizing headers i found a with
  | zero =>
    rw [removeLoop, if_neg (by omega)] at h
    obtain ⟨rfl, -⟩ := HeapM.pure_eq_some.mp h
    rw [Http.removeLoop, if_neg (by change ¬ i < headers.count; omega)]
  | succ n ih =>
    have hi : i < headers.count := by omega
    rw [removeLoop, if_pos hi] at h
    obtain ⟨slot, _, hslot, h⟩ := HeapM.bind_eq_some.mp h
    obtain rfl := BlockArray.get_eq_some hslot
    obtain ⟨entry, _, hentry, h⟩ := HeapM.bind_eq_some.mp h
    obtain ⟨text, _, htext, h⟩ := HeapM.bind_eq_some.mp h
    obtain rfl := Argument.read_eq_some htext
    have hkey : ((contents headers).headers i).key = some entry :=
      readString_eq_some hentry
    rw [Http.removeLoop, if_pos (show i < (contents headers).count from hi)]
    simp only [hkey, reduceCtorEq, if_false]
    split_ifs at h ⊢ with hsame
    · obtain ⟨_, _, -, h⟩ := HeapM.bind_eq_some.mp h
      obtain ⟨_, _, -, h⟩ := HeapM.bind_eq_some.mp h
      obtain ⟨moved, _, hmoved, h⟩ := HeapM.bind_eq_some.mp h
      obtain rfl := BlockArray.moveUp_eq_some hmoved
      have hrest := ih h (by change headers.count - 1 - i = n; omega)
      rw [← hrest, shiftLeft, foldl_shift]
      refine congrArg (fun slots => Http.removeLoop key.text .apart ⟨slots,
        headers.count - 1, headers.capacity⟩ i true) (funext fun j => ?_)
      exact (apply_ite HeaderSlot.entry _ _ _).symm
    · exact ih h (by omega)

theorem headersRemove_contents {key : Option Argument} {r : HeaderBlocks × Option ErrorCode}
    (h : headersRemove headers key a = some (r, a')) :
    httpHeadersRemove (contents headers) (key.map Argument.text) .apart =
      some (contents r.1, r.2) := by
  cases key with
  | none =>
    obtain ⟨rfl, -⟩ := HeapM.pure_eq_some.mp h
    rfl
  | some key =>
    obtain ⟨⟨removed, found⟩, _, hloop, h⟩ := HeapM.bind_eq_some.mp h
    obtain ⟨rfl, -⟩ := HeapM.pure_eq_some.mp h
    rw [Option.map_some, httpHeadersRemove]
    dsimp only
    rw [removeLoop_contents hloop]
    rfl

end Contents
end AbstractHttp.Http.Owned
