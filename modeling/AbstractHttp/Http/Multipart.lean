import AbstractHttp.Http.FormRequests
import AbstractHttp.Http.MultipartFormat
import AbstractHttp.Library.Memory

/-!
# Multipart requests

`http_request_add_part` collects parts, and `http_request_flatten_parts` writes them into one
block, whose size it has computed before. Names and filenames stand between quotes as they are.
`c89stringutils_vsnprintf`, which prints them, comes from another library: all that is used of it
is that it prints a text that fits and is no longer than an `int` can say.
-/
namespace AbstractHttp.Http
open Library EventStream

/-- The bytes of a header; `http_headers_add` leaves no NULL in a list. -/
def fieldBytes (header : HttpHeader) : List UInt8 × List UInt8 :=
  ((header.key.map CString.bytes).getD [], (header.value.map CString.bytes).getD [])

/-- `struct HttpPart`. A part has no NULL among its headers, and `dataLen` bytes of data. -/
structure HttpPart where
  name : CString
  filename : Option CString
  contentType : Option CString
  headers : HttpHeaders
  data : Option (List UInt8)
  dataLen : ℕ
  named : ∀ header ∈ headers.headers, header.key.isSome ∧ header.value.isSome
  held : dataLen ≤ (data.getD []).length

/-- `struct HttpParts`; its `count` is the length of the list. -/
structure HttpParts where
  parts : List HttpPart
  capacity : ℕ

/-- A request with its parts. -/
structure PartsRequest extends HttpRequest where
  parts : HttpParts
  counted : partsCount = parts.parts.length

/-- What `http_request_add_part` allocates. -/
inductive PartBlock where
  | array
  | name
  | filename
  | contentType
  deriving DecidableEq, Repr

/-- Bytes in a `struct HttpPart`. -/
def partSize : ℕ := 64

/-- The growth of the array when it is full. -/
def partsGrow (alloc : PartBlock → ℕ → Bool) (parts : HttpParts) : Option HttpParts :=
  if parts.parts.length ≥ parts.capacity then
    let newCap := if parts.capacity = 0 then 4 else parts.capacity * 2
    if alloc .array (newCap * partSize) then some { parts with capacity := newCap } else none
  else some parts

@[simp] theorem partsGrow_parts {alloc : PartBlock → ℕ → Bool} {parts grown : HttpParts}
    (h : partsGrow alloc parts = some grown) : grown.parts = parts.parts := by
  rw [partsGrow] at h
  split at h
  · simp only [Option.ite_none_right_eq_some, Option.some.injEq] at h
    rw [← h.2]
  · rw [← Option.some.inj h]

/-- `http_request_add_part`; `held` is what its caller owes. A call that fails leaves the parts, but
may have grown the array. -/
def requestAddPart (alloc : PartBlock → ℕ → Bool) (req : PartsRequest)
    (name filename contentType : Option CString) (data : Option (List UInt8)) (dataLen : ℕ)
    (held : ∀ block ∈ data, dataLen ≤ block.length) : PartsRequest × Option ErrorCode :=
  match name with
  | none => (req, some .inval)
  | some name =>
    if hnull : data = none ∧ dataLen > 0 then (req, some .inval)
    else
      match hgrown : partsGrow alloc req.parts with
      | none => (req, some .nomem)
      | some grown =>
        let parts := partsGrow_parts hgrown
        let full : PartsRequest :=
          { req with parts := grown, counted := parts ▸ req.counted }
        if alloc .name (name.length + 1) = false then (full, some .nomem)
        else if filename.any fun s => alloc .filename (s.length + 1) = false then
          (full, some .nomem)
        else if contentType.any fun s => alloc .contentType (s.length + 1) = false then
          (full, some .nomem)
        else
          let part : HttpPart :=
            { name, filename, contentType, data, dataLen
              headers := .init
              named := fun _ h => absurd h List.not_mem_nil
              held := by
                cases data with
                | none => exact Nat.le_of_not_lt fun hlen => hnull ⟨rfl, hlen⟩
                | some block => exact held block rfl }
          ({ req with
              partsCount := req.partsCount + 1
              parts := { grown with parts := grown.parts ++ [part] }
              counted := by simp [req.counted, parts] }, none)

theorem headersAdd_named {alloc : HeadersAlloc} {headers : HttpHeaders} {key value : Option CString}
    (h : ∀ header ∈ headers.headers, header.key.isSome ∧ header.value.isSome) :
    ∀ header ∈ (headersAdd alloc headers key value).1.headers,
      header.key.isSome ∧ header.value.isSome := by
  cases hboth : (decide (key = none ∨ value = none)) with
  | true => rwa [headersAdd_of_null alloc headers (of_decide_eq_true hboth)]
  | false =>
    obtain ⟨hkey, hvalue⟩ := not_or.mp (of_decide_eq_false hboth)
    obtain ⟨key, rfl⟩ := Option.ne_none_iff_exists'.mp hkey
    obtain ⟨value, rfl⟩ := Option.ne_none_iff_exists'.mp hvalue
    rw [headersAdd]
    cases hgrown : headersGrow alloc headers with
    | none => exact h
    | some grown =>
      rw [← headersGrow_headers hgrown] at h
      dsimp only
      split_ifs
      · exact h
      · exact h
      · simp only [List.mem_append, List.mem_singleton]
        rintro header (hheader | rfl)
        · exact h header hheader
        · exact ⟨rfl, rfl⟩

/-- `http_request_add_part_header_last`. -/
def requestAddPartHeaderLast (alloc : HeadersAlloc) (req : PartsRequest)
    (key value : Option CString) : PartsRequest × Option ErrorCode :=
  if key = none ∨ value = none then (req, some .inval)
  else
    match hlast : req.parts.parts.getLast? with
    | none => (req, some .inval)
    | some part =>
      let added := headersAdd alloc part.headers key value
      let part := { part with headers := added.1, named := headersAdd_named part.named }
      ({ req with
          parts := { req.parts with parts := req.parts.parts.dropLast ++ [part] }
          counted := by
            have hpos : 0 < req.parts.parts.length :=
              List.length_pos_of_ne_nil (by rintro hnil; simp [hnil] at hlast)
            rw [req.counted, List.length_append, List.length_dropLast, List.length_singleton]
            omega }, added.2)

/-! The body. -/

/-- A digit of `%x`. -/
def lowerHexDigit (n : UInt8) : UInt8 := if n < 10 then 0x30 + n else 0x61 + (n - 10)

/-- `%08x`. -/
def hex08 (n : UInt32) : List UInt8 :=
  ([28, 24, 20, 16, 12, 8, 4, 0] : List UInt32).map fun i => lowerHexDigit (n >>> i &&& 15).toUInt8

/-- The boundary with the number that `rand` has given. -/
def boundaryText (rand : UInt32) : List UInt8 :=
  asciiBytes "------------------------cddbound".toList ++ hex08 rand

/-- What the size pass counts for a part. -/
def partEstimate (boundary : List UInt8) (part : HttpPart) : ℕ :=
  boundary.length + 6 + (38 + part.name.length + 4) +
    part.filename.elim 0 (fun filename => 13 + filename.length + 1) + 2 +
    (match part.contentType, part.filename with
      | some contentType, _ => 14 + contentType.length + 2
      | none, some _ => 14 + 24 + 2
      | none, none => 0) +
    (part.headers.headers.map fun header =>
      (fieldBytes header).1.length + 2 + (fieldBytes header).2.length + 2).sum +
    2 + part.dataLen + 2

def estimatedSize (boundary : List UInt8) (parts : List HttpPart) : ℕ :=
  (parts.map (partEstimate boundary)).sum + (boundary.length + 8)

/-- The block that the body is printed into. -/
structure PartBuf where
  mem : Memory UInt8
  pos : ℕ
  cap : ℕ

/-- What a formatted print stores in its buffer, and the `int` that it returns. -/
structure Printed where
  stored : List UInt8
  result : ℤ
  deriving DecidableEq

/-- A formatted print into a buffer of a given size; the text is what the format and its arguments
come to. -/
abbrev Vsnprintf := ℕ → List UInt8 → Printed

/-- What is documented of `vsnprintf`: a text that fits is stored with a NUL behind it, and its
length is returned where an `int` can hold it. -/
def PrintsText (vsnprintf : Vsnprintf) : Prop :=
  ∀ room text, text.length < room → text.length < 2 ^ 31 →
    vsnprintf room text = ⟨text ++ [0], text.length⟩

/-- A print as the library makes it: a text that does not fit is cut off but counted, and one that
an `int` cannot count is an error. -/
def vsnprintfC99 : Vsnprintf := fun room text =>
  if text.length < 2 ^ 31 then ⟨if room = 0 then [] else text.take (room - 1) ++ [0], text.length⟩
  else ⟨[], -1⟩

theorem printsText_vsnprintfC99 : PrintsText vsnprintfC99 := by
  intro room text hroom hint
  have hfits : text.length ≤ room - 1 := by omega
  rw [vsnprintfC99, if_pos hint, if_neg (Nat.ne_zero_of_lt hroom), List.take_of_length_le hfits]

namespace PartBuf

/-- `sprintf_s_wrapper`, and `pos += written`. The result is cast to `size_t`, so that a negative
one is a success like any other. -/
def print (vsnprintf : Vsnprintf) (text : List UInt8) (b : PartBuf) : Except ErrorCode PartBuf :=
  if b.pos > b.cap then .error .inval
  else
    let p := vsnprintf (b.cap - b.pos) text
    let written := (p.result % 2 ^ 64).toNat
    .ok { b with mem := b.mem.write b.pos p.stored, pos := (b.pos + written) % 2 ^ 64 }

/-- `memcpy`, and `pos += part->data_len`. -/
def copy (data : List UInt8) (b : PartBuf) : PartBuf :=
  { b with mem := b.mem.write b.pos data, pos := (b.pos + data.length) % 2 ^ 64 }

end PartBuf

def octetStream : List UInt8 := asciiBytes "application/octet-stream".toList

section Writing

variable (vsnprintf : Vsnprintf)

def writeFilename (part : HttpPart) (b : PartBuf) : Except ErrorCode PartBuf :=
  match part.filename with
  | some filename =>
    b.print vsnprintf (asciiBytes "; filename=\"".toList ++ filename.bytes ++ [quote])
  | none => .ok b

def typeLine (contentType : List UInt8) : List UInt8 :=
  asciiBytes "Content-Type: ".toList ++ contentType ++ [cr, lf]

def writeType (part : HttpPart) (b : PartBuf) : Except ErrorCode PartBuf :=
  match part.contentType, part.filename with
  | some contentType, _ => b.print vsnprintf (typeLine contentType.bytes)
  | none, some _ => b.print vsnprintf (typeLine octetStream)
  | none, none => .ok b

/-- One round of the loop over the parts. -/
def writePart (boundary : List UInt8) (b : PartBuf) (part : HttpPart) :
    Except ErrorCode PartBuf := do
  let b ← b.print vsnprintf (dash :: dash :: (boundary ++ [cr, lf]))
  let b ← b.print vsnprintf
    (asciiBytes "Content-Disposition: form-data; name=\"".toList ++ part.name.bytes ++ [quote])
  let b ← writeFilename vsnprintf part b
  let b ← b.print vsnprintf [cr, lf]
  let b ← writeType vsnprintf part b
  let b ← part.headers.headers.foldlM
    (fun b header => b.print vsnprintf (fieldLine (fieldBytes header) ++ [cr, lf])) b
  let b ← b.print vsnprintf [cr, lf]
  let b := if part.dataLen > 0 then b.copy ((part.data.getD []).take part.dataLen) else b
  b.print vsnprintf [cr, lf]

/-- "Build Buffer". -/
def writeParts (boundary : List UInt8) (parts : List HttpPart) (b : PartBuf) :
    Except ErrorCode PartBuf := do
  let b ← parts.foldlM (writePart vsnprintf boundary) b
  b.print vsnprintf (dash :: dash :: (boundary ++ [dash, dash, cr, lf]))

end Writing

/-- What `http_request_flatten_parts` allocates. -/
inductive FlattenBlock where
  | body
  | headers (block : HeadersBlock)
  deriving DecidableEq, Repr

/-- `http_request_flatten_parts`; `fresh` is what the new block holds, and `rand` the number that
`rand` gives. -/
def flattenParts (vsnprintf : Vsnprintf) (alloc : FlattenBlock → ℕ → Bool) (fresh : Memory UInt8)
    (rand : UInt32) (req : PartsRequest) : HttpRequest × Option ErrorCode :=
  if req.parts.parts = [] then (req.toHttpRequest, none)
  else if req.body.isSome then (req.toHttpRequest, some .inval)
  else
    let boundary := boundaryText rand
    let size := estimatedSize boundary req.parts.parts % 2 ^ 64
    if alloc .body size = false then (req.toHttpRequest, some .nomem)
    else
      match writeParts vsnprintf boundary req.parts.parts ⟨fresh, 0, size⟩ with
      | .error e => (req.toHttpRequest, some e)
      | .ok b =>
        let added := headersAdd (fun block => alloc (.headers block)) req.headers
          (some (.ofBytes contentTypeKey)) (some (.ofBytes (multipartType ++ boundary)))
        if added.2.isSome then
          ({ req.toHttpRequest with headers := added.1, body := none, bodyLen := 0 }, added.2)
        else
          ({ req.toHttpRequest with
              headers := added.1
              body := some (b.mem.read 0 size)
              bodyLen := b.pos }, none)

/-! What is printed. -/

/-- The block begins with a text, up to its position. -/
structure PartBuf.Holds (b : PartBuf) (text : List UInt8) : Prop where
  pos : b.pos = text.length
  read : b.mem.read 0 text.length = text

/-- A step that appends a text where there is room for it and a NUL. -/
def Prints (text : List UInt8) (step : PartBuf → Except ErrorCode PartBuf) : Prop :=
  ∀ b before, b.Holds before → before.length + text.length < b.cap → b.cap < 2 ^ 64 →
    ∃ b', step b = .ok b' ∧ b'.Holds (before ++ text) ∧ b'.cap = b.cap

section Printing

variable {vsnprintf : Vsnprintf} {text more : List UInt8}
  {f g : PartBuf → Except ErrorCode PartBuf}

theorem Holds.append {b b' : PartBuf} {before : List UInt8} (h : b.Holds before)
    (text tail : List UInt8) (hmem : b'.mem = b.mem.write b.pos (text ++ tail))
    (hpos : b'.pos = b.pos + text.length) : b'.Holds (before ++ text) := by
  constructor
  · rw [hpos, h.pos, List.length_append]
  · rw [hmem, h.pos, Memory.write_append, List.length_append,
      Memory.read_write_before _ _ (by omega), Memory.read_write_extend, h.read]

/-- A text that an `int` can count is printed in full. -/
theorem prints_print (hprints : PrintsText vsnprintf) (hint : text.length < 2 ^ 31) :
    Prints text (PartBuf.print vsnprintf text) := by
  intro b before h hroom hcap
  have hpos : ¬ b.pos > b.cap := by
    rw [h.pos]
    omega
  have hprinted : vsnprintf (b.cap - b.pos) text = ⟨text ++ [0], text.length⟩ :=
    hprints _ _ (by rw [h.pos]; omega) hint
  have hwritten : ((text.length : ℤ) % 2 ^ 64).toNat = text.length := by omega
  refine ⟨_, if_neg hpos, Holds.append h text [0] ?_ ?_, rfl⟩
  · exact congrArg (fun p => b.mem.write b.pos p.stored) hprinted
  · dsimp only
    rw [hprinted, hwritten, Nat.mod_eq_of_lt (by rw [h.pos]; omega)]

theorem prints_copy (data : List UInt8) : Prints data fun b => .ok (b.copy data) := by
  intro b before h hroom hcap
  refine ⟨_, rfl, Holds.append h data [] ?_ ?_, rfl⟩
  · rw [List.append_nil]
    rfl
  · exact Nat.mod_eq_of_lt (by rw [h.pos]; omega)

theorem prints_nil : Prints [] Except.ok := by
  intro b before h _ _
  refine ⟨b, rfl, ?_, rfl⟩
  rwa [List.append_nil]

theorem Prints.bind (hf : Prints text f) (hg : Prints more g) :
    Prints (text ++ more) fun b => f b >>= g := by
  intro b before h hroom hlimit
  rw [List.length_append] at hroom
  obtain ⟨b', hb', hholds, hcap⟩ := hf b before h (by omega) hlimit
  have hroom' : (before ++ text).length + more.length < b'.cap := by
    rw [List.length_append, hcap]
    omega
  obtain ⟨b'', hb'', hholds', hcap'⟩ := hg b' (before ++ text) hholds hroom'
    (hcap.symm ▸ hlimit)
  refine ⟨b'', ?_, ?_, hcap'.trans hcap⟩
  · change (f b >>= g) = _
    rw [hb']
    exact hb''
  · rwa [← List.append_assoc]

theorem prints_foldlM {α : Type*} {texts : α → List UInt8}
    {step : PartBuf → α → Except ErrorCode PartBuf} (xs : List α)
    (h : ∀ x ∈ xs, Prints (texts x) fun b => step b x) :
    Prints (xs.flatMap texts) fun b => xs.foldlM step b := by
  induction xs with
  | nil => exact prints_nil
  | cons x xs ih =>
    obtain ⟨hx, hxs⟩ := List.forall_mem_cons.mp h
    exact hx.bind (ih hxs)

end Printing

/-- A part as the receiver should see it: a file without a content type is an octet stream. -/
def HttpPart.received (part : HttpPart) : ReadPart where
  name := part.name.bytes
  filename := part.filename.map CString.bytes
  contentType := (part.contentType.map CString.bytes).or (part.filename.map fun _ => octetStream)
  headers := part.headers.headers.map fieldBytes
  data := (part.data.getD []).take part.dataLen

/-- What stands behind the name in the disposition. -/
def filenameText (part : HttpPart) : List UInt8 :=
  part.filename.elim [] fun filename =>
    asciiBytes "; filename=\"".toList ++ filename.bytes ++ [quote]

def typeText (part : HttpPart) : List UInt8 := part.received.contentType.elim [] typeLine

theorem typeLine_eq (contentType : List UInt8) :
    typeLine contentType = contentTypeKey ++ colon :: space :: (contentType ++ [cr, lf]) := by
  have htype : asciiBytes "Content-Type: ".toList = contentTypeKey ++ [colon, space] := by decide
  simp only [typeLine, htype, List.append_assoc, List.cons_append, List.nil_append]

/-- The printed pieces of a part make up its text. -/
theorem received_text (part : HttpPart) :
    part.received.text =
      asciiBytes "Content-Disposition: form-data; name=\"".toList ++ part.name.bytes ++ [quote] ++
      (filenameText part ++ ([cr, lf] ++ (typeText part ++
      (part.headers.headers.flatMap (fun header => fieldLine (fieldBytes header) ++ [cr, lf]) ++
      ([cr, lf] ++ part.received.data))))) := by
  have hdisposition : asciiBytes "Content-Disposition: form-data; name=\"".toList =
      contentDisposition ++ colon :: space :: (formData ++ asciiBytes "; ".toList ++
        asciiBytes "name".toList ++ [equalsSign, quote]) := by decide
  have hfile : asciiBytes "; filename=\"".toList =
      asciiBytes "; ".toList ++ asciiBytes "filename".toList ++ [equalsSign, quote] := by decide
  rw [hdisposition, filenameText, hfile, typeText]
  obtain ⟨name, filename, contentType, headers, data, dataLen, named, held⟩ := part
  cases filename <;> cases contentType <;>
    simp [ReadPart.text, ReadPart.fields, HttpPart.received, partText, endLines, fieldLine,
      dispositionValue, dispositionParams, quotedParam, List.flatMap_map, typeLine_eq]

/-- No text that is printed for the part is longer than an `int` can count. -/
structure HttpPart.Printable (part : HttpPart) : Prop where
  name : 38 + part.name.length + 1 < 2 ^ 31
  filename : ∀ filename ∈ part.filename, 12 + filename.length + 1 < 2 ^ 31
  contentType : ∀ contentType ∈ part.contentType, 14 + contentType.length + 2 < 2 ^ 31
  headers : ∀ header ∈ part.headers.headers, (fieldLine (fieldBytes header)).length + 2 < 2 ^ 31

instance (part : HttpPart) : Decidable part.Printable :=
  decidable_of_iff (38 + part.name.length + 1 < 2 ^ 31 ∧
      (∀ filename ∈ part.filename, 12 + filename.length + 1 < 2 ^ 31) ∧
      (∀ contentType ∈ part.contentType, 14 + contentType.length + 2 < 2 ^ 31) ∧
      (∀ header ∈ part.headers.headers, (fieldLine (fieldBytes header)).length + 2 < 2 ^ 31))
    ⟨fun ⟨h₁, h₂, h₃, h₄⟩ => ⟨h₁, h₂, h₃, h₄⟩, fun ⟨h₁, h₂, h₃, h₄⟩ => ⟨h₁, h₂, h₃, h₄⟩⟩

theorem typeLine_length (contentType : List UInt8) :
    (typeLine contentType).length = 14 + contentType.length + 2 := by
  simp only [typeLine, List.length_append]
  rfl

section Parts

variable {vsnprintf : Vsnprintf} {part : HttpPart} {boundary : List UInt8}

theorem prints_writeFilename (hprints : PrintsText vsnprintf) (hpart : part.Printable) :
    Prints (filenameText part) (writeFilename vsnprintf part) := by
  unfold filenameText writeFilename
  cases hfilename : part.filename with
  | none => exact prints_nil
  | some filename =>
    have hint : (asciiBytes "; filename=\"".toList ++ filename.bytes ++ [quote]).length <
        2 ^ 31 := by
      rw [List.length_append, List.length_append]
      exact hpart.filename filename hfilename
    exact prints_print hprints hint

theorem prints_writeType (hprints : PrintsText vsnprintf) (hpart : part.Printable) :
    Prints (typeText part) (writeType vsnprintf part) := by
  unfold typeText HttpPart.received writeType
  cases htype : part.contentType with
  | some contentType =>
    have hint : (typeLine contentType.bytes).length < 2 ^ 31 := by
      rw [typeLine_length]
      exact hpart.contentType contentType htype
    exact prints_print hprints hint
  | none =>
    cases part.filename with
    | none => exact prints_nil
    | some filename =>
      have hstream : octetStream.length = 24 := by decide
      have hint : (typeLine octetStream).length < 2 ^ 31 := by
        rw [typeLine_length, hstream]
        norm_num
      exact prints_print hprints hint

theorem prints_writePart (hprints : PrintsText vsnprintf) (hboundary : boundary.length ≤ 70)
    (hpart : part.Printable) :
    Prints (dash :: dash :: (boundary ++ cr :: lf :: (part.received.text ++ [cr, lf])))
      fun b => writePart vsnprintf boundary b part := by
  have hopen : Prints (dash :: dash :: (boundary ++ [cr, lf]))
      (PartBuf.print vsnprintf (dash :: dash :: (boundary ++ [cr, lf]))) := by
    refine prints_print hprints ?_
    simp only [List.length_cons, List.length_append, List.length_nil]
    omega
  have hname : Prints
      (asciiBytes "Content-Disposition: form-data; name=\"".toList ++ part.name.bytes ++ [quote])
      (PartBuf.print vsnprintf
        (asciiBytes "Content-Disposition: form-data; name=\"".toList ++ part.name.bytes ++
          [quote])) := by
    refine prints_print hprints ?_
    rw [List.length_append, List.length_append]
    exact hpart.name
  have hheaders : Prints
      (part.headers.headers.flatMap fun header => fieldLine (fieldBytes header) ++ [cr, lf])
      fun b => part.headers.headers.foldlM
        (fun b header => b.print vsnprintf (fieldLine (fieldBytes header) ++ [cr, lf])) b := by
    refine prints_foldlM _ fun header hheader => prints_print hprints ?_
    rw [List.length_append]
    exact hpart.headers header hheader
  have hdata : Prints part.received.data fun b => .ok
      (if part.dataLen > 0 then b.copy ((part.data.getD []).take part.dataLen) else b) := by
    by_cases hlen : part.dataLen > 0
    · simp only [if_pos hlen]
      exact prints_copy _
    · simp only [HttpPart.received, Nat.eq_zero_of_not_pos hlen, List.take_zero]
      exact prints_nil
  have hend : Prints [cr, lf] (PartBuf.print vsnprintf [cr, lf]) :=
    prints_print hprints (by norm_num)
  have hsteps : Prints _ fun b => writePart vsnprintf boundary b part :=
    hopen.bind (hname.bind ((prints_writeFilename hprints hpart).bind (hend.bind
      ((prints_writeType hprints hpart).bind (hheaders.bind (hend.bind (hdata.bind hend)))))))
  rw [received_text]
  simpa only [List.append_assoc, List.cons_append, List.nil_append] using hsteps

/-- The whole body is printed, provided that the block has room for it and a NUL. -/
theorem prints_writeParts (hprints : PrintsText vsnprintf) (hboundary : boundary.length ≤ 70)
    {parts : List HttpPart} (hparts : ∀ part ∈ parts, part.Printable) :
    Prints (multipartText boundary (parts.map HttpPart.received))
      (writeParts vsnprintf boundary parts) := by
  rw [multipartText, List.flatMap_map]
  refine (prints_foldlM parts fun part hpart =>
    prints_writePart hprints hboundary (hparts part hpart)).bind (prints_print hprints ?_)
  simp only [List.length_cons, List.length_append, List.length_nil]
  omega

end Parts

/-- The size pass counts at least what is printed for a part. -/
theorem received_length (boundary : List UInt8) (part : HttpPart) :
    (dash :: dash :: (boundary ++ cr :: lf :: (part.received.text ++ [cr, lf]))).length ≤
      partEstimate boundary part := by
  have hdisposition :
      (asciiBytes "Content-Disposition: form-data; name=\"".toList).length = 38 := by decide
  have hfile : (asciiBytes "; filename=\"".toList).length = 12 := by decide
  have hstream : octetStream.length = 24 := by decide
  have hheaders : (part.headers.headers.flatMap fun header =>
        fieldLine (fieldBytes header) ++ [cr, lf]).length =
      (part.headers.headers.map fun header =>
        (fieldBytes header).1.length + 2 + (fieldBytes header).2.length + 2).sum := by
    rw [List.length_flatMap]
    refine congrArg List.sum (List.map_congr_left fun header _ => ?_)
    simp only [fieldLine, List.length_append, List.length_cons, List.length_nil]
    omega
  have hdata : part.received.data.length ≤ part.dataLen := List.length_take_le _ _
  rw [received_text, partEstimate]
  simp only [List.length_cons, List.length_append, List.length_nil, hdisposition, hheaders,
    CString.length, filenameText, typeText, HttpPart.received] at hdata ⊢
  cases part.filename <;> cases part.contentType <;>
    simp only [Option.elim, Option.map_none, Option.map_some, Option.or_none, Option.or_some,
      Option.getD_none, Option.getD_some, List.length_append, List.length_cons, List.length_nil,
      hfile, typeLine_length, hstream] <;> omega

/-- The size pass leaves room for the text and a NUL. -/
theorem multipartText_lt (boundary : List UInt8) (parts : List HttpPart) :
    (multipartText boundary (parts.map HttpPart.received)).length <
      estimatedSize boundary parts := by
  induction parts with
  | nil =>
    simp only [multipartText, estimatedSize, List.map_nil, List.flatMap_nil, List.nil_append,
      List.length_cons, List.length_append, List.length_nil, List.sum_nil]
    omega
  | cons part parts ih =>
    have hpart := received_length boundary part
    simp only [multipartText, estimatedSize, List.map_cons, List.flatMap_cons, List.append_assoc,
      List.sum_cons] at ih ⊢
    rw [List.length_append]
    omega

theorem lowerHexDigit_token {n : UInt8} (h : n < 16) :
    (InLine (lowerHexDigit n) ∧ lowerHexDigit n ∉ [colon, space, quote, equalsSign, 0x3B]) ∧
      lowerHexDigit n ≠ 0 := by
  have hlt : n.toNat < 16 := UInt8.lt_iff_toNat_lt.mp h
  obtain ⟨k, hk, rfl⟩ : ∃ k, k < 16 ∧ n = UInt8.ofNat k := ⟨n.toNat, hlt, by simp⟩
  interval_cases k <;> decide

theorem lowBits_lt (n : UInt32) : (n &&& 15).toUInt8 < 16 := by
  have hlow : (n &&& 15).toNat ≤ 15 := by
    rw [UInt32.toNat_and]
    exact Nat.and_le_right
  rw [UInt8.lt_iff_toNat_lt, UInt32.toNat_toUInt8]
  exact Nat.lt_succ_of_le ((Nat.mod_le _ _).trans hlow)

theorem boundaryText_length (rand : UInt32) : (boundaryText rand).length = 40 := by
  rw [boundaryText, List.length_append, hex08, List.length_map]
  decide

/-- A generated boundary can stand between parts. -/
def flattenBoundary (rand : UInt32) : Boundary where
  text := boundaryText rand
  token := by
    have hfixed : ∀ b ∈ asciiBytes "------------------------cddbound".toList,
        InLine b ∧ b ∉ [colon, space, quote, equalsSign, 0x3B] :=
      List.forall_iff_forall_mem.mp (by decide)
    intro b hb
    rcases List.mem_append.mp hb with hb | hb
    · exact hfixed b hb
    · obtain ⟨i, -, rfl⟩ := List.mem_map.mp hb
      exact (lowerHexDigit_token (lowBits_lt _)).1
  long := by
    rw [boundaryText, List.length_append]
    exact Nat.lt_add_right _ (by decide)

theorem boundaryText_noNul (rand : UInt32) : 0 ∉ multipartType ++ boundaryText rand := by
  rw [List.mem_append, boundaryText, List.mem_append, not_or, not_or]
  refine ⟨by decide, by decide, fun hmem => ?_⟩
  obtain ⟨i, -, hdigit⟩ := List.mem_map.mp hmem
  exact (lowerHexDigit_token (lowBits_lt _)).2 hdigit

/-- What the receiver of a request reads. -/
def readFormData (req : HttpRequest) : Option (List ReadPart) :=
  (announcedBoundary (req.headers.headers.map fieldBytes)).bind fun boundary =>
    readMultipart boundary ((req.body.getD []).take req.bodyLen)

/-- The last header announces the boundary. -/
theorem announcedBoundary_concat (headers : List (List UInt8 × List UInt8))
    (boundary : List UInt8) :
    announcedBoundary (headers ++ [(contentTypeKey, multipartType ++ boundary)]) =
      some boundary := by
  have hkey : hasKey contentTypeKey (contentTypeKey, multipartType ++ boundary) = true := by
    rw [hasKey, decide_eq_true_eq]
  rw [announcedBoundary, List.reverse_append, List.reverse_singleton, List.singleton_append,
    List.find?_cons_of_pos hkey, Option.bind_some, if_pos (List.prefix_append _ _)]
  exact congrArg some (List.drop_left ..)

/-- The receiver of a flattened request reads the parts that were put into it. -/
theorem flattenParts_readBack {vsnprintf : Vsnprintf} (hprints : PrintsText vsnprintf)
    {alloc : FlattenBlock → ℕ → Bool} (hgrant : ∀ block n, alloc block n = true)
    (fresh : Memory UInt8) (rand : UInt32) {req : PartsRequest} (hparts : req.parts.parts ≠ [])
    (hbody : req.body = none) (hsize : estimatedSize (boundaryText rand) req.parts.parts < 2 ^ 64)
    (hprintable : ∀ part ∈ req.parts.parts, part.Printable)
    (hclean : ∀ part ∈ req.parts.parts, part.received.Clean)
    (hfree : ∀ part ∈ req.parts.parts, part.received.FreeOf (flattenBoundary rand)) :
    ∃ flat, flattenParts vsnprintf alloc fresh rand req = (flat, none) ∧
      readFormData flat = some (req.parts.parts.map HttpPart.received) := by
  let boundary := boundaryText rand
  let parts := req.parts.parts
  let text := multipartText boundary (parts.map HttpPart.received)
  have hlength : text.length < estimatedSize boundary parts := multipartText_lt boundary parts
  have hholds : PartBuf.Holds ⟨fresh, 0, estimatedSize boundary parts⟩ [] := ⟨rfl, rfl⟩
  have hboundary : boundary.length ≤ 70 := (boundaryText_length rand).trans_le (by norm_num)
  obtain ⟨b, hwritten, hholds, -⟩ := prints_writeParts hprints hboundary hprintable _ [] hholds
    (by simpa using hlength) hsize
  rw [List.nil_append] at hholds
  obtain ⟨headers, hadded, hheaders⟩ := headersAdd_of_granted (fun block => hgrant (.headers block))
    req.headers (.ofBytes contentTypeKey) (.ofBytes (multipartType ++ boundary))
  let flat : HttpRequest :=
    { req.toHttpRequest with
      headers := headers
      body := some (b.mem.read 0 (estimatedSize boundary parts))
      bodyLen := b.pos }
  have hflat : flattenParts vsnprintf alloc fresh rand req = (flat, none) := by
    rw [flattenParts, if_neg hparts, hbody]
    simp only [Option.isSome_none, Bool.false_eq_true, if_false, hgrant, Bool.true_eq_false,
      Nat.mod_eq_of_lt hsize]
    rw [hwritten]
    dsimp only
    rw [hadded]
    rfl
  have htext : (flat.body.getD []).take flat.bodyLen = text := by
    change (b.mem.read 0 (estimatedSize boundary parts)).take b.pos = text
    rw [hholds.pos, Memory.read_take _ _ hlength.le, hholds.read]
  have hannounced : announcedBoundary (flat.headers.headers.map fieldBytes) = some boundary := by
    change announcedBoundary (headers.headers.map fieldBytes) = some boundary
    rw [hheaders, List.map_append]
    have hlast : fieldBytes ⟨some (.ofBytes contentTypeKey),
        some (.ofBytes (multipartType ++ boundary))⟩ =
          (contentTypeKey, multipartType ++ boundary) := by
      simp only [fieldBytes, Option.map_some, Option.getD_some]
      rw [CString.ofBytes_of_noNul (by decide), CString.ofBytes_of_noNul (boundaryText_noNul rand)]
    rw [List.map_singleton, hlast, announcedBoundary_concat]
  refine ⟨flat, hflat, ?_⟩
  rw [readFormData, hannounced, Option.bind_some, htext]
  exact readMultipart_text (List.forall_mem_map.mpr hclean) (List.forall_mem_map.mpr hfree)

/-! Requests that the callers build. -/

/-- `http_request_init`. -/
def PartsRequest.init : PartsRequest where
  toHttpRequest := .init
  parts := ⟨[], 0⟩
  counted := rfl

section Building

variable {req : PartsRequest} {part : HttpPart}

theorem partsGrow_of_granted {alloc : PartBlock → ℕ → Bool}
    (hgrant : ∀ block n, alloc block n = true) (parts : HttpParts) :
    ∃ grown, partsGrow alloc parts = some grown := by
  rw [partsGrow]
  split
  · simp [hgrant]
  · exact ⟨_, rfl⟩

/-- With memory at hand, a part comes behind the others. -/
theorem requestAddPart_of_granted {alloc : PartBlock → ℕ → Bool}
    (hgrant : ∀ block n, alloc block n = true) (req : PartsRequest) (name : CString)
    (filename contentType : Option CString) (data : List UInt8) :
    ∃ built part, requestAddPart alloc req (some name) filename contentType (some data) data.length
        (fun _ h => Option.some.inj h ▸ le_rfl) = (built, none) ∧
      built.parts.parts = req.parts.parts ++ [part] ∧
      part.received =
        { name := name.bytes
          filename := filename.map CString.bytes
          contentType := (contentType.map CString.bytes).or (filename.map fun _ => octetStream)
          headers := []
          data := data } := by
  have hany : ∀ (block : PartBlock) (value : Option CString),
      (value.any fun s => alloc block (s.length + 1) = false) = false := by
    intro block value
    cases value <;> simp [hgrant]
  obtain ⟨grown, hgrown⟩ := partsGrow_of_granted hgrant req.parts
  rw [requestAddPart, dif_neg (fun h => Option.some_ne_none data h.1)]
  split
  next hnone => exact absurd (hnone.symm.trans hgrown) (Option.some_ne_none grown).symm
  next grown hgrown =>
    dsimp only
    rw [if_neg (by simp [hgrant]), if_neg (by simp only [hany, Bool.false_eq_true, not_false_iff]),
      if_neg (by simp only [hany, Bool.false_eq_true, not_false_iff])]
    let part : HttpPart :=
      { name, filename, contentType
        headers := .init
        data := some data
        dataLen := data.length
        named := fun _ h => absurd h List.not_mem_nil
        held := le_rfl }
    refine ⟨_, part, rfl, ?_, ?_⟩
    · exact congrArg (· ++ [part]) (partsGrow_parts hgrown)
    · simp [part, HttpPart.received, HttpHeaders.init]

/-- With memory at hand, a header comes behind the others of the last part. -/
theorem requestAddPartHeaderLast_of_granted {alloc : HeadersAlloc}
    (hgrant : ∀ block n, alloc block n = true) {before : List HttpPart}
    (hparts : req.parts.parts = before ++ [part]) (key value : CString) :
    ∃ built last, requestAddPartHeaderLast alloc req (some key) (some value) = (built, none) ∧
      built.parts.parts = before ++ [last] ∧
      last.received =
        { part.received with headers := part.received.headers ++ [(key.bytes, value.bytes)] } := by
  obtain ⟨grown, hadded, hheaders⟩ := headersAdd_of_granted hgrant part.headers key value
  have hlast : req.parts.parts.getLast? = some part := by
    rw [hparts, List.getLast?_concat]
  rw [requestAddPartHeaderLast, if_neg (by simp)]
  split
  next hnone => exact absurd (hnone.symm.trans hlast) (Option.some_ne_none part).symm
  next found hfound =>
    obtain rfl : part = found := Option.some.inj (hlast.symm.trans hfound)
    have hdone : (headersAdd alloc part.headers (some key) (some value)).2 = none := by rw [hadded]
    let last : HttpPart :=
      { part with
        headers := (headersAdd alloc part.headers (some key) (some value)).1
        named := headersAdd_named part.named }
    refine ⟨_, last, Prod.ext rfl hdone, ?_, ?_⟩
    · change req.parts.parts.dropLast ++ [last] = before ++ [last]
      rw [hparts, List.dropLast_concat]
    · simp [last, HttpPart.received, hadded, hheaders, fieldBytes]

end Building

/-- A request with one more part. -/
def PartsRequest.withPart (req : PartsRequest) (name : CString) (filename : Option CString)
    (headers : List (CString × CString)) (data : List UInt8) : PartsRequest :=
  let added := requestAddPart (fun _ _ => true) req (some name) filename none (some data)
    data.length fun _ h => Option.some.inj h ▸ le_rfl
  headers.foldl (fun req header =>
    (requestAddPartHeaderLast (fun _ _ => true) req (some header.1) (some header.2)).1) added.1

/-- A text with a header, and a file with an empty line in it. -/
def textAndFile : PartsRequest :=
  (PartsRequest.init.withPart (literal "f1") none [(literal "X-Trace", literal "abc: d")] [0x76])
    |>.withPart (literal "f2") (some (literal "a.txt")) [] [cr, lf, cr, lf, dash, dash]

theorem flattenParts_readBack_textAndFile :
    ∃ flat, flattenParts vsnprintfC99 (fun _ _ => true) (fun _ => 0) 7 textAndFile =
        (flat, none) ∧
      readFormData flat = some (textAndFile.parts.parts.map HttpPart.received) :=
  flattenParts_readBack printsText_vsnprintfC99 (fun _ _ => rfl) _ _ (by decide +kernel)
    (by decide +kernel) (by decide +kernel) (by decide +kernel) (by decide +kernel)
    (by decide +kernel)

/-- A request that is read back wrong although the boundary occurs in no part of it. -/
def Misread (rand : UInt32) (req : PartsRequest) : Prop :=
  (∀ part ∈ req.parts.parts, part.received.FreeOf (flattenBoundary rand)) ∧
    readFormData (flattenParts vsnprintfC99 (fun _ _ => true) (fun _ => 0) rand req).1 ≠
      some (req.parts.parts.map HttpPart.received)

instance (rand : UInt32) (req : PartsRequest) : Decidable (Misread rand req) :=
  inferInstanceAs (Decidable (_ ∧ _))

/-- Names that a quoted string cannot hold as they are, a key with a colon, and a header that gives
a content type. -/
theorem flattenParts_misread :
    Misread 7 (.withPart .init (literal "a\"b") none [] []) ∧
    Misread 7 (.withPart .init (literal "a\\b") none [] []) ∧
    Misread 7 (.withPart .init (literal "a\rb") none [] []) ∧
    Misread 7 (.withPart .init (literal "a\nb") none [] []) ∧
    Misread 7 (.withPart .init (literal "a") (some (literal "b\"c")) [] []) ∧
    Misread 7 (.withPart .init (literal "a") none [(literal "X:Y", literal "z")] []) ∧
    Misread 7 (.withPart .init (literal "a") none [(literal "content-type", literal "z")] []) := by
  decide +kernel

end AbstractHttp.Http
