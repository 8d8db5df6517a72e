import AbstractHttp.Http.Multipart

/-!
# Print by print

`http_request_flatten_parts` once more, as the list of the single prints and copies
that it makes: each of them finds room for all that it writes.
-/
namespace AbstractHttp.Http
open Library EventStream

/-- One write into the block: a formatted print, or the copy of a part's data. -/
inductive Piece where
  | text (bytes : List UInt8)
  | data (bytes : List UInt8)

namespace Piece

def bytes : Piece → List UInt8
  | text bytes => bytes
  | data bytes => bytes

def write (vsnprintf : Vsnprintf) : Piece → PartBuf → Except ErrorCode PartBuf
  | text bytes, b => b.print vsnprintf bytes
  | data bytes, b => .ok (b.copy bytes)

/-- A print whose length an `int` can hold. -/
def Printable : Piece → Prop
  | text bytes => bytes.length < 2 ^ 31
  | data _ => True

end Piece

/-- Write pieces one behind the other. -/
def writePieces (vsnprintf : Vsnprintf) (pieces : List Piece) (b : PartBuf) :
    Except ErrorCode PartBuf :=
  pieces.foldlM (fun b piece => piece.write vsnprintf b) b

def filenamePieces (part : HttpPart) : List Piece :=
  match part.filename with
  | some filename => [.text (asciiBytes "; filename=\"".toList ++ filename.bytes ++ [quote])]
  | none => []

def typePieces (part : HttpPart) : List Piece :=
  match part.contentType, part.filename with
  | some contentType, _ => [.text (typeLine contentType.bytes)]
  | none, some _ => [.text (typeLine octetStream)]
  | none, none => []

def dataPieces (part : HttpPart) : List Piece :=
  if part.dataLen > 0 then [.data ((part.data.getD []).take part.dataLen)] else []

/-- The writes of one round of the loop. -/
def partPieces (boundary : List UInt8) (part : HttpPart) : List Piece :=
  .text (dash :: dash :: (boundary ++ [cr, lf])) ::
  .text (asciiBytes "Content-Disposition: form-data; name=\"".toList ++ part.name.bytes ++
    [quote]) ::
  (filenamePieces part ++ .text [cr, lf] :: (typePieces part ++
    (part.headers.headers.map (fun header =>
      Piece.text (fieldLine (fieldBytes header) ++ [cr, lf])) ++
    .text [cr, lf] :: (dataPieces part ++ [.text [cr, lf]]))))

/-- All writes of a call. -/
def formPieces (boundary : List UInt8) (parts : List HttpPart) : List Piece :=
  parts.flatMap (partPieces boundary) ++
    [.text (dash :: dash :: (boundary ++ [dash, dash, cr, lf]))]

section Pieces

variable {vsnprintf : Vsnprintf} {pieces more : List Piece}

theorem writePieces_nil : writePieces vsnprintf [] = pure := rfl

theorem writePieces_text (text : List UInt8) (pieces : List Piece) :
    writePieces vsnprintf (.text text :: pieces) =
      fun b => b.print vsnprintf text >>= writePieces vsnprintf pieces := rfl

theorem writePieces_append (pieces more : List Piece) :
    writePieces vsnprintf (pieces ++ more) =
      fun b => writePieces vsnprintf pieces b >>= writePieces vsnprintf more := by
  funext b
  exact List.foldlM_append

theorem writePieces_filename (part : HttpPart) :
    writePieces vsnprintf (filenamePieces part) = writeFilename vsnprintf part := by
  funext b
  unfold filenamePieces writeFilename
  cases part.filename with
  | none => rfl
  | some filename => exact bind_pure _

theorem writePieces_type (part : HttpPart) :
    writePieces vsnprintf (typePieces part) = writeType vsnprintf part := by
  funext b
  unfold typePieces writeType
  cases part.contentType with
  | some contentType => exact bind_pure _
  | none =>
    cases part.filename with
    | none => rfl
    | some filename => exact bind_pure _

theorem writePieces_data (part : HttpPart) :
    writePieces vsnprintf (dataPieces part) = fun b => pure
      (if part.dataLen > 0 then b.copy ((part.data.getD []).take part.dataLen) else b) := by
  funext b
  unfold dataPieces
  split <;> rfl

theorem writePieces_headers (headers : List HttpHeader) :
    writePieces vsnprintf
        (headers.map fun header => .text (fieldLine (fieldBytes header) ++ [cr, lf])) =
      fun b => headers.foldlM
        (fun b header => b.print vsnprintf (fieldLine (fieldBytes header) ++ [cr, lf])) b := by
  funext b
  exact List.foldlM_map ..

/-- A round of the loop makes its writes in this order. -/
theorem writePieces_part (boundary : List UInt8) (part : HttpPart) (b : PartBuf) :
    writePieces vsnprintf (partPieces boundary part) b = writePart vsnprintf boundary b part := by
  rw [partPieces, writePart]
  simp only [writePieces_text, writePieces_append, writePieces_filename, writePieces_type,
    writePieces_data, writePieces_headers, writePieces_nil, bind_pure, pure_bind]

/-- The list of writes is what "Build Buffer" does. -/
theorem writePieces_form (boundary : List UInt8) (parts : List HttpPart) (b : PartBuf) :
    writePieces vsnprintf (formPieces boundary parts) b =
      writeParts vsnprintf boundary parts b := by
  have hparts (b : PartBuf) : writePieces vsnprintf (parts.flatMap (partPieces boundary)) b =
      parts.foldlM (writePart vsnprintf boundary) b := by
    induction parts generalizing b with
    | nil => rfl
    | cons part parts ih =>
      rw [List.flatMap_cons, List.foldlM_cons, ← writePieces_part]
      exact (congrFun (writePieces_append _ _) b).trans (congrArg _ (funext ih))
  have hlast : writePieces vsnprintf [.text (dash :: dash :: (boundary ++ [dash, dash, cr, lf]))] =
      PartBuf.print vsnprintf (dash :: dash :: (boundary ++ [dash, dash, cr, lf])) :=
    funext fun b => bind_pure _
  rw [formPieces, writePieces_append, hlast, writeParts, ← hparts]

/-! What the pieces amount to. -/

theorem prints_piece (hprints : PrintsText vsnprintf) {piece : Piece}
    (hpiece : piece.Printable) : Prints piece.bytes (piece.write vsnprintf) := by
  cases piece with
  | text bytes => exact prints_print hprints hpiece
  | data bytes => exact prints_copy bytes

theorem prints_writePieces (hprints : PrintsText vsnprintf)
    (hpieces : ∀ piece ∈ pieces, piece.Printable) :
    Prints (pieces.flatMap Piece.bytes) (writePieces vsnprintf pieces) :=
  prints_foldlM pieces fun piece hpiece => prints_piece hprints (hpieces piece hpiece)

theorem filenamePieces_printable {part : HttpPart} (hpart : part.Printable) :
    ∀ piece ∈ filenamePieces part, piece.Printable := by
  unfold filenamePieces
  cases hsome : part.filename with
  | none => exact fun piece h => absurd h List.not_mem_nil
  | some filename =>
    refine List.forall_mem_singleton.mpr ?_
    rw [Piece.Printable, List.length_append, List.length_append]
    exact hpart.filename filename hsome

theorem typePieces_printable {part : HttpPart} (hpart : part.Printable) :
    ∀ piece ∈ typePieces part, piece.Printable := by
  unfold typePieces
  cases hsome : part.contentType with
  | some contentType =>
    refine List.forall_mem_singleton.mpr ?_
    rw [Piece.Printable, typeLine_length]
    exact hpart.contentType contentType hsome
  | none =>
    cases part.filename with
    | none => exact fun piece h => absurd h List.not_mem_nil
    | some filename =>
      refine List.forall_mem_singleton.mpr ?_
      have hstream : octetStream.length = 24 := by decide
      rw [Piece.Printable, typeLine_length, hstream]
      norm_num

theorem partPieces_printable {boundary : List UInt8} {part : HttpPart}
    (hboundary : boundary.length ≤ 70) (hpart : part.Printable) :
    ∀ piece ∈ partPieces boundary part, piece.Printable := by
  have hopen : (dash :: dash :: (boundary ++ [cr, lf])).length < 2 ^ 31 := by
    simp only [List.length_cons, List.length_append, List.length_nil]
    omega
  have hname : (asciiBytes "Content-Disposition: form-data; name=\"".toList ++ part.name.bytes ++
      [quote]).length < 2 ^ 31 := by
    rw [List.length_append, List.length_append]
    exact hpart.name
  have hend : [cr, lf].length < 2 ^ 31 := by norm_num
  have hheaders : ∀ piece ∈ part.headers.headers.map fun header =>
      Piece.text (fieldLine (fieldBytes header) ++ [cr, lf]), piece.Printable := by
    refine List.forall_mem_map.mpr fun header hheader => ?_
    rw [Piece.Printable, List.length_append]
    exact hpart.headers header hheader
  have hdata : ∀ piece ∈ dataPieces part, piece.Printable := by
    unfold dataPieces
    split
    · exact List.forall_mem_singleton.mpr trivial
    · exact fun piece h => absurd h List.not_mem_nil
  simp only [partPieces, List.forall_mem_cons, List.forall_mem_append]
  exact ⟨hopen, hname, filenamePieces_printable hpart, hend, typePieces_printable hpart, hheaders,
    hend, hdata, hend, fun piece h => absurd h List.not_mem_nil⟩

theorem formPieces_printable {boundary : List UInt8} {parts : List HttpPart}
    (hboundary : boundary.length ≤ 70) (hparts : ∀ part ∈ parts, part.Printable) :
    ∀ piece ∈ formPieces boundary parts, piece.Printable := by
  have hclose : (dash :: dash :: (boundary ++ [dash, dash, cr, lf])).length < 2 ^ 31 := by
    simp only [List.length_cons, List.length_append, List.length_nil]
    omega
  rw [formPieces]
  refine List.forall_mem_append.mpr ⟨fun piece hpiece => ?_, List.forall_mem_singleton.mpr hclose⟩
  obtain ⟨part, hpart, hmem⟩ := List.mem_flatMap.mp hpiece
  exact partPieces_printable hboundary (hparts part hpart) piece hmem

theorem partPieces_bytes (boundary : List UInt8) (part : HttpPart) :
    (partPieces boundary part).flatMap Piece.bytes =
      dash :: dash :: (boundary ++ cr :: lf :: (part.received.text ++ [cr, lf])) := by
  have hfilename : (filenamePieces part).flatMap Piece.bytes = filenameText part := by
    unfold filenamePieces filenameText
    cases part.filename <;> simp [Piece.bytes]
  have htype : (typePieces part).flatMap Piece.bytes = typeText part := by
    unfold typePieces typeText HttpPart.received
    cases part.contentType <;> cases part.filename <;> simp [Piece.bytes]
  have hdata : (dataPieces part).flatMap Piece.bytes = part.received.data := by
    unfold dataPieces HttpPart.received
    split_ifs with hlen
    · simp [Piece.bytes]
    · simp [Nat.eq_zero_of_not_pos hlen]
  have hheaders : (part.headers.headers.map fun header =>
      Piece.text (fieldLine (fieldBytes header) ++ [cr, lf])).flatMap Piece.bytes =
      part.headers.headers.flatMap fun header => fieldLine (fieldBytes header) ++ [cr, lf] := by
    rw [List.flatMap_map]
    rfl
  rw [received_text]
  simp only [partPieces, List.flatMap_cons, List.flatMap_append, List.flatMap_nil, hfilename, htype,
    hdata, hheaders, Piece.bytes]
  simp only [List.append_assoc, List.cons_append, List.nil_append, List.append_nil]

/-- All pieces together are the body. -/
theorem formPieces_bytes (boundary : List UInt8) (parts : List HttpPart) :
    (formPieces boundary parts).flatMap Piece.bytes =
      multipartText boundary (parts.map HttpPart.received) := by
  have hparts : (parts.flatMap (partPieces boundary)).flatMap Piece.bytes =
      parts.flatMap fun part =>
        dash :: dash :: (boundary ++ cr :: lf :: (part.received.text ++ [cr, lf])) := by
    rw [List.flatMap_assoc]
    exact congrArg (parts.flatMap ·) (funext fun part => partPieces_bytes boundary part)
  rw [formPieces, List.flatMap_append, hparts, multipartText, List.flatMap_map,
    List.flatMap_singleton]
  rfl

end Pieces

/-- Before each write there is room for all of it and a NUL, so that a print is not cut off. -/
def EveryPieceFull (vsnprintf : Vsnprintf) (fresh : Memory UInt8) (cap : ℕ)
    (pieces : List Piece) : Prop :=
  ∀ before piece after, pieces = before ++ piece :: after →
    ∃ b, writePieces vsnprintf before ⟨fresh, 0, cap⟩ = .ok b ∧
      b.pos + piece.bytes.length < cap ∧
      ∀ text, piece = .text text → vsnprintf (cap - b.pos) text = ⟨text ++ [0], text.length⟩

section Calls

variable {vsnprintf : Vsnprintf}

/-- Pieces whose bytes and a NUL fit are written in full, each where the ones before it end. -/
theorem everyPieceFull_of_lt (hprints : PrintsText vsnprintf) (fresh : Memory UInt8) {cap : ℕ}
    {pieces : List Piece} (hpieces : ∀ piece ∈ pieces, piece.Printable)
    (h : (pieces.flatMap Piece.bytes).length < cap) (hcap : cap < 2 ^ 64) :
    EveryPieceFull vsnprintf fresh cap pieces := by
  rintro before piece after rfl
  obtain ⟨hbefore, hrest⟩ := List.forall_mem_append.mp hpieces
  rw [List.flatMap_append, List.flatMap_cons, List.length_append, List.length_append] at h
  have hstart : PartBuf.Holds ⟨fresh, 0, cap⟩ [] := ⟨rfl, rfl⟩
  obtain ⟨b, hrun, hholds, -⟩ := prints_writePieces hprints hbefore _ [] hstart
    (show [].length + _ < cap by rw [List.length_nil]; omega) hcap
  have hpos : b.pos = (before.flatMap Piece.bytes).length := hholds.pos
  refine ⟨b, hrun, by omega, ?_⟩
  rintro text rfl
  have hint : text.length < 2 ^ 31 := (List.forall_mem_cons.mp hrest).1
  have hroom : text.length < cap - b.pos := by
    simp only [Piece.bytes] at h
    omega
  exact hprints _ _ hroom hint

/-- The whole form is written in full, and ends before the size that was estimated. -/
theorem form_written (hprints : PrintsText vsnprintf) (fresh : Memory UInt8) (rand : UInt32)
    {parts : List HttpPart} (hprintable : ∀ part ∈ parts, part.Printable)
    (hsize : estimatedSize (boundaryText rand) parts < 2 ^ 64) :
    EveryPieceFull vsnprintf fresh (estimatedSize (boundaryText rand) parts)
        (formPieces (boundaryText rand) parts) ∧
      ∃ b, writePieces vsnprintf (formPieces (boundaryText rand) parts)
          ⟨fresh, 0, estimatedSize (boundaryText rand) parts⟩ = .ok b ∧
        b.pos < estimatedSize (boundaryText rand) parts := by
  have hlength := multipartText_lt (boundaryText rand) parts
  rw [← formPieces_bytes] at hlength
  have hstart : PartBuf.Holds ⟨fresh, 0, estimatedSize (boundaryText rand) parts⟩ [] := ⟨rfl, rfl⟩
  have hpieces := formPieces_printable ((boundaryText_length rand).trans_le (by norm_num))
    hprintable
  obtain ⟨b, hrun, hholds, -⟩ := prints_writePieces hprints hpieces _ [] hstart
    (by simpa using hlength) hsize
  refine ⟨everyPieceFull_of_lt hprints fresh hpieces hlength hsize, b, hrun, ?_⟩
  rw [hholds.pos, List.nil_append]
  exact hlength

/-- The header that a flattened request gets. -/
def formHeader (rand : UInt32) : HttpHeader :=
  ⟨some (.ofBytes contentTypeKey), some (.ofBytes (multipartType ++ boundaryText rand))⟩

/-- What a success amounts to: the writes are those of the parts, each of them in full, the final
position lies below the size that was estimated and is the body's length, and one header is
appended. -/
structure FlattensFully (vsnprintf : Vsnprintf) (fresh : Memory UInt8) (rand : UInt32)
    (req : PartsRequest) (flat : HttpRequest) : Prop where
  full : EveryPieceFull vsnprintf fresh (estimatedSize (boundaryText rand) req.parts.parts)
    (formPieces (boundaryText rand) req.parts.parts)
  body : ∃ b, writePieces vsnprintf (formPieces (boundaryText rand) req.parts.parts)
      ⟨fresh, 0, estimatedSize (boundaryText rand) req.parts.parts⟩ = .ok b ∧
    b.pos < estimatedSize (boundaryText rand) req.parts.parts ∧ flat.bodyLen = b.pos ∧
    flat.body = some (b.mem.read 0 (estimatedSize (boundaryText rand) req.parts.parts))
  header : flat.headers.headers = req.headers.headers ++ [formHeader rand]

/-- `http_request_flatten_parts` has nothing to do without parts. Otherwise it fails and leaves the
body and the entries of the header list as they were, or it succeeds on a request without a body
and writes all that it should. -/
theorem flattenParts_full_or_unchanged (hprints : PrintsText vsnprintf)
    (alloc : FlattenBlock → ℕ → Bool) (fresh : Memory UInt8) (rand : UInt32) (req : PartsRequest)
    (hprintable : ∀ part ∈ req.parts.parts, part.Printable)
    (hsize : estimatedSize (boundaryText rand) req.parts.parts < 2 ^ 64) :
    ∃ flat error, flattenParts vsnprintf alloc fresh rand req = (flat, error) ∧
      (req.parts.parts = [] → error = none ∧ flat = req.toHttpRequest) ∧
      (req.parts.parts ≠ [] →
        (error ≠ none ∧ flat.body = req.body ∧ flat.headers.headers = req.headers.headers) ∨
        (error = none ∧ req.body = none ∧ FlattensFully vsnprintf fresh rand req flat)) := by
  obtain ⟨hfull, b, hrun, hpos⟩ := form_written hprints fresh rand hprintable hsize
  rw [writePieces_form] at hrun
  rw [flattenParts]
  by_cases hparts : req.parts.parts = []
  · rw [if_pos hparts]
    exact ⟨_, _, rfl, fun _ => ⟨rfl, rfl⟩, fun hne => absurd hparts hne⟩
  rw [if_neg hparts]
  by_cases hbody : req.body.isSome = true
  · rw [if_pos hbody]
    exact ⟨_, _, rfl, fun hnil => absurd hnil hparts,
      fun _ => Or.inl ⟨Option.some_ne_none _, rfl, rfl⟩⟩
  have hnull : req.body = none := Option.not_isSome_iff_eq_none.mp hbody
  rw [if_neg hbody]
  dsimp only
  rw [Nat.mod_eq_of_lt hsize]
  cases hgrant : alloc .body (estimatedSize (boundaryText rand) req.parts.parts) with
  | false =>
    exact ⟨_, _, rfl, fun hnil => absurd hnil hparts,
      fun _ => Or.inl ⟨Option.some_ne_none _, rfl, rfl⟩⟩
  | true =>
    rw [if_neg (by simp), hrun]
    dsimp only
    rcases headersAdd_headers (fun block => alloc (.headers block)) req.headers
      (.ofBytes contentTypeKey) (.ofBytes (multipartType ++ boundaryText rand)) with
      ⟨hdone, hadded⟩ | ⟨⟨e, herror⟩, hkept⟩
    · rw [if_neg (by simp [hdone])]
      refine ⟨_, _, rfl, fun hnil => absurd hnil hparts, fun _ => Or.inr ⟨rfl, hnull, ?_⟩⟩
      exact ⟨hfull, ⟨b, (writePieces_form _ _ _).trans hrun, hpos, rfl, rfl⟩, hadded⟩
    · rw [if_pos (by simp [herror])]
      exact ⟨_, _, rfl, fun hnil => absurd hnil hparts,
        fun _ => Or.inl ⟨by simp [herror], hnull.symm, hkept⟩⟩

theorem flattenParts_full_or_unchanged_textAndFile :
    ∃ flat error,
      flattenParts vsnprintfC99 (fun _ _ => true) (fun _ => 0) 7 textAndFile = (flat, error) ∧
      (textAndFile.parts.parts = [] → error = none ∧ flat = textAndFile.toHttpRequest) ∧
      (textAndFile.parts.parts ≠ [] →
        (error ≠ none ∧ flat.body = textAndFile.body ∧
          flat.headers.headers = textAndFile.headers.headers) ∨
        (error = none ∧ textAndFile.body = none ∧
          FlattensFully vsnprintfC99 (fun _ => 0) 7 textAndFile flat)) :=
  flattenParts_full_or_unchanged printsText_vsnprintfC99 _ _ _ _ (by decide +kernel)
    (by decide +kernel)

end Calls

/-- A request with a body of its own and a part. -/
def bodyAndPart : PartsRequest :=
  { PartsRequest.init.withPart (literal "f1") none [] [0x76] with body := some [0x61], bodyLen := 1 }

/-- Without parts, success appends no header; a body that is there stays when the call fails. -/
theorem flattenParts_neither :
    ((flattenParts vsnprintfC99 (fun _ _ => true) (fun _ => 0) 7 .init).2 = none ∧
      ¬ FlattensFully vsnprintfC99 (fun _ => 0) 7 .init
        (flattenParts vsnprintfC99 (fun _ _ => true) (fun _ => 0) 7 .init).1) ∧
    (flattenParts vsnprintfC99 (fun _ _ => true) (fun _ => 0) 7 bodyAndPart).2 = some .inval ∧
      (flattenParts vsnprintfC99 (fun _ _ => true) (fun _ => 0) 7 bodyAndPart).1.body ≠ none := by
  refine ⟨⟨rfl, fun h => ?_⟩, by decide +kernel, by decide +kernel⟩
  exact absurd (congrArg List.length h.header) (by decide +kernel)

end AbstractHttp.Http
