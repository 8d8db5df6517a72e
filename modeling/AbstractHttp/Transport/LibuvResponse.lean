import AbstractHttp.Library.Memory
import AbstractHttp.Transport.Response

/-!
# The response as the libuv transport receives and parses it

`libuv_alloc_cb`, `parse_headers`, `libuv_on_read` and `libuv_finish` as one machine that
events drive. The bytes of `res_buf` behind the received ones are whatever each event
says; a string function that finds neither what it looks for nor a NUL leaves the block,
and then, as after any access outside a block, there is no state any more.
-/
namespace AbstractHttp.Transport
open Http EventStream Library

def econnrefused : ℤ := 111
def ecanceled : ℤ := 125

/-- `struct libuv_state` from the first read on: the received bytes at the front of `res_buf`, the
size of that block (0 for NULL), and the chunks handed to `on_chunk` so far. The NULs that
`parse_headers` puts in the head are not kept, since nothing reads the head again. -/
structure LibuvState where
  filled : List UInt8
  resCap : ℕ
  headersParsed : Bool
  res : Option HttpResponse
  errorCode : ℤ
  done : Bool
  chunks : List (List UInt8)

def LibuvState.init : LibuvState := ⟨[], 0, false, none, 0, false, []⟩

/-- All of `res_buf`. -/
def LibuvState.block (s : LibuvState) (rest : Memory UInt8) : List UInt8 :=
  s.filled ++ rest.read s.filled.length (s.resCap - s.filled.length)

/-- `libuv_finish`: the first error stands. -/
def libuvFinish (s : LibuvState) (error : ℤ) : LibuvState :=
  if s.done then s else { s with done := true, errorCode := error }

/-- The size of `res_buf` after `libuv_alloc_cb`. -/
def libuvRoom (cap len : ℕ) : ℕ :=
  if cap - len < 4096 then if cap = 0 then 8192 else cap * 2 else cap

/-- `libuv_alloc_cb`, if it offers any room. -/
def libuvAllocCb (alloc : ResponseAlloc) (s : LibuvState) : Option LibuvState :=
  let newCap := libuvRoom s.resCap s.filled.length
  if newCap = s.resCap ∨ alloc .buffer newCap = true then some { s with resCap := newCap } else none

/-- The result of a search in a block, unless it ran off its end. -/
def inBlock (block : List UInt8) (found : Option ℕ) : Option (Option ℕ) :=
  if found.isSome ∨ 0 ∈ block then some found else none

/-- `atoi` of the text at the end of a block, unless it runs off: only white space, a sign and
digits follow. -/
def numberInBlock (text : List UInt8) : Option ℤ :=
  let word := text.dropWhile isSpaceByte
  let digits := if word.head? = some 0x2D ∨ word.head? = some 0x2B then word.drop 1 else word
  if digits.all isDigitByte then none else some (atoi (cString text))

/-- One header line, which begins at `p` and ends at `lineEnd`: cut in place and added. A header
that cannot be added is dropped. -/
def libuvHeaderLine (alloc : ResponseAlloc) (p : List UInt8) (lineEnd : ℕ)
    (headers : HttpHeaders) : HttpHeaders :=
  let line := p.set lineEnd 0
  match strchr (cString line) colon with
  | none => headers
  | some i =>
    let cut := line.set i 0
    let val := (cut.drop (i + 1)).dropWhile (· = space)
    (headersAdd (fun b => alloc (.headers b)) headers (some (.ofBytes cut))
      (some (.ofBytes val))).1

/-- The header loop: the text from `p` on, of which `left` bytes lie before `end`. -/
def libuvHeaderLines (alloc : ResponseAlloc) (p : List UInt8) (left : ℕ) (headers : HttpHeaders) :
    Option HttpHeaders :=
  if _hleft : left = 0 then some headers
  else
    match strchr (cString p) cr with
    | none => none
    | some lineEnd =>
      libuvHeaderLines alloc (p.drop (lineEnd + 2)) (left - (lineEnd + 2))
        (libuvHeaderLine alloc p lineEnd headers)
termination_by left

/-- The status line and the header lines of a head that ends at `headerEnd`. -/
def libuvReadHead (alloc : ResponseAlloc) (block : List UInt8) (headerEnd : ℕ) :
    Option HttpResponse :=
  (inBlock block (strchr (cString block) space)).bind fun found =>
    (found.elim (some 0) fun i => numberInBlock (block.drop (i + 1))).bind fun status =>
      (strchr (cString block) lf).bind fun i =>
        let p := i + 1
        (libuvHeaderLines alloc (block.drop p) (headerEnd - p) .init).map fun headers =>
          { HttpResponse.init with statusCode := Int32.ofInt status, headers := headers }

/-- Hand a chunk to `on_chunk`; `k` is what follows unless it refuses. -/
def libuvChunk (answer : List (List UInt8) → ℤ) (chunk : List UInt8) (s : LibuvState)
    (k : LibuvState → LibuvState) : LibuvState :=
  let s := { s with chunks := s.chunks ++ [chunk] }
  if answer s.chunks ≠ 0 then libuvFinish s ecanceled else k s

/-- What `parse_headers` does with the bytes behind a head of `hdrLen` bytes. Where fewer bytes
than that were received, `body_len` wraps around and no block holds so many bytes. -/
def libuvTakeBody (alloc : ResponseAlloc) (onChunk : Bool) (answer : List (List UInt8) → ℤ)
    (hdrLen : ℕ) (r : HttpResponse) (s : LibuvState) : Option LibuvState :=
  if s.filled.length < hdrLen then
    let bodyLen := 2 ^ 64 - (hdrLen - s.filled.length)
    if onChunk then none
    else if alloc .body ((bodyLen + 1) % 2 ^ 64) then none
    else some (libuvFinish { s with res := some { r with bodyLen := bodyLen } }
      ErrorCode.nomem.value)
  else
    let body := s.filled.drop hdrLen
    let keep := fun s : LibuvState => { s with filled := s.filled.take hdrLen }
    if onChunk then
      let s := { s with res := some r }
      some (if body.length > 0 then libuvChunk answer body s keep else keep s)
    else
      let r := { r with bodyLen := body.length }
      if body.length > 0 then
        if alloc .body ((body.length + 1) % 2 ^ 64) then
          some { s with res := some { r with body := some body } }
        else some (libuvFinish { s with res := some r } ErrorCode.nomem.value)
      else some { s with res := some r }

/-- `parse_headers`. -/
def libuvParseHeaders (alloc : ResponseAlloc) (onChunk : Bool) (answer : List (List UInt8) → ℤ)
    (rest : Memory UInt8) (s : LibuvState) : Option LibuvState :=
  if s.headersParsed then some s
  else if s.resCap = 0 then some s
  else
    let block := s.block rest
    match inBlock block (strstr (cString block) headEnd) with
    | none => none
    | some none => some s
    | some (some headerEnd) =>
      let s := { s with headersParsed := true }
      if alloc .response responseSize = false then some (libuvFinish s ErrorCode.nomem.value)
      else
        (libuvReadHead alloc block headerEnd).bind fun r =>
          libuvTakeBody alloc onChunk answer (headerEnd + 4) r s

/-- More of the body, behind what is there. -/
def libuvExtendBody (alloc : ResponseAlloc) (bytes : List UInt8) (s : LibuvState) :
    Option LibuvState :=
  s.res.map fun r =>
    if alloc .body (r.bodyLen + bytes.length + 1) then
      { s with res := some { r with
          body := some (r.body.getD [] ++ bytes), bodyLen := r.bodyLen + bytes.length } }
    else libuvFinish s ErrorCode.nomem.value

/-- `libuv_on_read` with `nread` not negative. -/
def libuvOnRead (alloc : ResponseAlloc) (onChunk : Bool) (answer : List (List UInt8) → ℤ)
    (bytes : List UInt8) (rest : Memory UInt8) (s : LibuvState) : Option LibuvState :=
  if s.resCap = 0 then some (libuvFinish s ErrorCode.nomem.value)
  else
    let received := { s with filled := s.filled ++ bytes }
    if s.headersParsed = false then libuvParseHeaders alloc onChunk answer rest received
    else if onChunk then
      some (libuvChunk answer bytes received fun t => { t with filled := s.filled })
    else libuvExtendBody alloc bytes received

/-- `libuv_on_read` with `UV_EOF`. -/
def libuvOnEof (alloc : ResponseAlloc) (onChunk : Bool) (answer : List (List UInt8) → ℤ)
    (rest : Memory UInt8) (s : LibuvState) : Option LibuvState :=
  (libuvParseHeaders alloc onChunk answer rest s).map (libuvFinish · 0)

/-- What the loop delivers; `rest` is what `res_buf` holds behind the received bytes. -/
inductive LibuvEvent where
  | read (bytes : List UInt8) (rest : Memory UInt8)
  | eof (rest : Memory UInt8)
  | failed
  | timeout

/-- One event. Without room to read into, the loop reports `UV_ENOBUFS`; after `libuv_finish` the
handles are closed and nothing is delivered any more. -/
def libuvStep (alloc : ResponseAlloc) (onChunk : Bool) (answer : List (List UInt8) → ℤ)
    (s : LibuvState) (event : LibuvEvent) : Option LibuvState :=
  if s.done then some s
  else
    match event with
    | .read bytes rest =>
      match libuvAllocCb alloc s with
      | none => some (libuvFinish s econnrefused)
      | some s => libuvOnRead alloc onChunk answer bytes rest s
    | .eof rest =>
      match libuvAllocCb alloc s with
      | none => some (libuvFinish s econnrefused)
      | some s => libuvOnEof alloc onChunk answer rest s
    | .failed => some (libuvFinish s econnrefused)
    | .timeout => some (libuvFinish s ErrorCode.timeout.value)

/-- The events of a transfer, one after the other. -/
def libuvRun (alloc : ResponseAlloc) (onChunk : Bool) (answer : List (List UInt8) → ℤ)
    (s : LibuvState) (events : List LibuvEvent) : Option LibuvState :=
  events.foldlM (libuvStep alloc onChunk answer) s

@[simp] theorem inBlock_some (block : List UInt8) (i : ℕ) :
    inBlock block (some i) = some (some i) := if_pos (Or.inl rfl)

theorem numberInBlock_of_digit {d : UInt8} (hdigit : isDigitByte d = true) {more : List UInt8}
    (hstop : ∃ b ∈ more, isDigitByte b = false) :
    numberInBlock (d :: more) = some (atoi (cString (d :: more))) := by
  obtain ⟨hspace, hminus, hplus⟩ := digit_start hdigit
  obtain ⟨b, hb, hnot⟩ := hstop
  have hall : ¬ (d :: more).all isDigitByte = true := fun hall => by
    have hdigits := List.all_eq_true.mp hall b (List.mem_cons_of_mem d hb)
    rw [hnot] at hdigits
    cases hdigits
  have hword : (d :: more).dropWhile isSpaceByte = d :: more :=
    List.dropWhile_cons_of_neg (by simp [hspace])
  have hsign : ¬ ((d :: more).head? = some 0x2D ∨ (d :: more).head? = some 0x2B) := by
    simp [hminus, hplus]
  rw [numberInBlock, hword, if_neg hsign, if_neg hall]

/-- A NUL stops `atoi`. -/
theorem numberInBlock_of_nul {text : List UInt8} (hnul : 0 ∈ text) :
    numberInBlock text = some (atoi (cString text)) := by
  have hword : 0 ∈ text.dropWhile isSpaceByte := by
    rw [← List.takeWhile_append_dropWhile (p := isSpaceByte) (l := text)] at hnul
    rcases List.mem_append.mp hnul with hmem | hmem
    · exact absurd (List.mem_takeWhile_imp hmem) (by decide)
    · exact hmem
  have hstops {s : List UInt8} (hmem : 0 ∈ s) : ¬ s.all isDigitByte = true := fun hall =>
    absurd (List.all_eq_true.mp hall 0 hmem) (by decide)
  rw [numberInBlock]
  generalize text.dropWhile isSpaceByte = word at hword ⊢
  by_cases hsign : word.head? = some 0x2D ∨ word.head? = some 0x2B
  · cases word with
    | nil => exact absurd hword List.not_mem_nil
    | cons b word =>
      have hmem : 0 ∈ word := by
        rcases List.mem_cons.mp hword with rfl | hmem
        · simp at hsign
        · exact hmem
      rw [if_pos hsign, List.drop_one, List.tail_cons, if_neg (hstops hmem)]
  · rw [if_neg hsign, if_neg (hstops hword)]

/-! A head is read the same, whatever lies behind it. -/

/-- What a line without a NUL adds. -/
def lineHeader (alloc : ResponseAlloc) (line : List UInt8) (headers : HttpHeaders) : HttpHeaders :=
  match strchr line colon with
  | none => headers
  | some i =>
    (headersAdd (fun b => alloc (.headers b)) headers (some (.ofBytes (line.take i)))
      (some (.ofBytes ((line.drop (i + 1)).dropWhile (· = space))))).1

theorem strchr_lt {s : List UInt8} {c : UInt8} {i : ℕ} (h : strchr s c = some i) :
    i < s.length := by
  obtain ⟨hi, -⟩ := List.idxOf?_eq_some_iff.mp h
  exact hi

theorem dropSpaces_nul {s : List UInt8} (t : List UInt8) :
    (s ++ 0 :: t).dropWhile (· = space) = s.dropWhile (· = space) ++ 0 :: t := by
  have hspace : decide ((0 : UInt8) = space) = false := by decide
  induction s with
  | nil => simp [hspace]
  | cons b s ih =>
    rw [List.cons_append, List.dropWhile_cons, List.dropWhile_cons, ih]
    split <;> rfl

theorem libuvHeaderLine_eq (alloc : ResponseAlloc) {line : List UInt8} (c : UInt8)
    (t : List UInt8) (headers : HttpHeaders) (h : 0 ∉ line) :
    libuvHeaderLine alloc (line ++ c :: t) line.length headers = lineHeader alloc line headers := by
  have hset : (line ++ c :: t).set line.length 0 = line ++ 0 :: t := by simp
  rw [libuvHeaderLine, lineHeader]
  dsimp only
  rw [hset, cString_nul t h]
  cases hfound : strchr line colon with
  | none => rfl
  | some i =>
    have hi := strchr_lt hfound
    have htake : 0 ∉ line.take i := fun hmem => h (List.mem_of_mem_take hmem)
    have hdrop : 0 ∉ (line.drop (i + 1)).dropWhile (· = space) := fun hmem =>
      h (List.mem_of_mem_drop ((List.dropWhile_sublist _).subset hmem))
    have hcut : (line ++ 0 :: t).set i 0 = line.take i ++ 0 :: (line.drop (i + 1) ++ 0 :: t) := by
      rw [List.set_append_left _ _ hi, List.set_eq_take_append_cons_drop, if_pos hi,
        List.append_assoc, List.cons_append]
    have hval : (line.take i ++ 0 :: (line.drop (i + 1) ++ 0 :: t)).drop (i + 1) =
        line.drop (i + 1) ++ 0 :: t := by
      rw [← List.drop_drop, List.drop_left' (by rw [List.length_take]; omega)]
      rfl
    dsimp only
    rw [hcut, ofBytes_nul _ htake, hval, dropSpaces_nul, ofBytes_nul _ hdrop]

theorem strchr_append {s : List UInt8} {c : UInt8} {i : ℕ} (t : List UInt8)
    (h : strchr s c = some i) : strchr (s ++ t) c = some i := by
  obtain ⟨hi, hat, hbefore⟩ := List.idxOf?_eq_some_iff.mp h
  rw [strchr, List.idxOf?_eq_some_iff]
  refine ⟨by rw [List.length_append]; omega, by rw [List.getElem_append_left hi, hat], ?_⟩
  intro j hj
  rw [List.getElem_append_left (by omega)]
  exact hbefore j hj

theorem cut_at {s : List UInt8} {c : UInt8} {i : ℕ} (h : s[i]? = some c) :
    s = s.take i ++ c :: s.drop (i + 1) := by
  obtain ⟨hi, hat⟩ := List.getElem?_eq_some_iff.mp h
  rw [← hat, List.getElem_cons_drop, List.take_append_drop]

/-- The first `c` cuts the text. -/
theorem strchr_cut {s : List UInt8} {c : UInt8} {i : ℕ} (h : strchr s c = some i) :
    s = s.take i ++ c :: s.drop (i + 1) := by
  obtain ⟨hi, hat, -⟩ := List.idxOf?_eq_some_iff.mp h
  exact cut_at (List.getElem?_eq_some_iff.mpr ⟨hi, hat⟩)

theorem strchr_take {s : List UInt8} {c : UInt8} {i n : ℕ} (h : strchr s c = some i)
    (hn : i < n) : strchr (s.take n) c = some i := by
  obtain ⟨hi, hat, hbefore⟩ := List.idxOf?_eq_some_iff.mp h
  rw [strchr, List.idxOf?_eq_some_iff]
  refine ⟨by rw [List.length_take]; omega, by rw [List.getElem_take, hat], fun j hj => ?_⟩
  rw [List.getElem_take]
  exact hbefore j hj

theorem strchr_le {s : List UInt8} {c : UInt8} {k : ℕ} (h : s[k]? = some c) :
    ∃ i ≤ k, strchr s c = some i := by
  obtain ⟨hk, hat⟩ := List.getElem?_eq_some_iff.mp h
  cases hfound : strchr s c with
  | none => exact absurd (hat ▸ List.getElem_mem hk) (List.idxOf?_eq_none_iff.mp hfound)
  | some i =>
    obtain ⟨hi, -, hbefore⟩ := List.idxOf?_eq_some_iff.mp hfound
    refine ⟨i, ?_, rfl⟩
    by_contra hlt
    exact hbefore k (by omega) hat

/-- The loop stays in front of the CR at which the head ends. -/
theorem libuvHeaderLines_append (alloc : ResponseAlloc) {left : ℕ} {head : List UInt8}
    (headers : HttpHeaders) (hnul : 0 ∉ head) (hcr : head[left]? = some cr) :
    ∃ grown, ∀ t, libuvHeaderLines alloc (head ++ t) left headers = some grown := by
  induction left using Nat.strong_induction_on generalizing head headers with
  | _ left ih =>
    by_cases hleft : left = 0
    · exact ⟨headers, fun t => by rw [libuvHeaderLines, dif_pos hleft]⟩
    · obtain ⟨lineEnd, hle, hfound⟩ := strchr_le hcr
      have hcut := strchr_cut hfound
      have hlt := strchr_lt hfound
      have hline : 0 ∉ head.take lineEnd := fun hmem => hnul (List.mem_of_mem_take hmem)
      have hlength : (head.take lineEnd).length = lineEnd := by
        rw [List.length_take]
        omega
      have hadded : ∀ t, libuvHeaderLine alloc (head ++ t) lineEnd headers =
          lineHeader alloc (head.take lineEnd) headers := by
        intro t
        have heq := libuvHeaderLine_eq alloc cr (head.drop (lineEnd + 1) ++ t) headers hline
        rw [hlength, ← List.cons_append, ← List.append_assoc, ← hcut] at heq
        exact heq
      have hpass : ∀ t, libuvHeaderLines alloc (head ++ t) left headers =
          libuvHeaderLines alloc ((head ++ t).drop (lineEnd + 2)) (left - (lineEnd + 2))
            (lineHeader alloc (head.take lineEnd) headers) := by
        intro t
        rw [libuvHeaderLines, dif_neg hleft, cString_append _ hnul, strchr_append _ hfound]
        dsimp only
        rw [hadded]
      by_cases hmore : left - (lineEnd + 2) = 0
      · refine ⟨lineHeader alloc (head.take lineEnd) headers, fun t => ?_⟩
        rw [hpass, libuvHeaderLines, dif_pos hmore]
      · obtain ⟨hcrLt, -⟩ := List.getElem?_eq_some_iff.mp hcr
        have hcr' : (head.drop (lineEnd + 2))[left - (lineEnd + 2)]? = some cr := by
          rw [List.getElem?_drop, ← hcr]
          congr 1
          omega
        obtain ⟨grown, hgrown⟩ := ih (left - (lineEnd + 2)) (by omega)
          (lineHeader alloc (head.take lineEnd) headers)
          (fun hmem => hnul (List.mem_of_mem_drop hmem)) hcr'
        refine ⟨grown, fun t => ?_⟩
        rw [hpass, List.drop_append_of_le_length (by omega), hgrown]

/-! What `parse_headers` does once the head is complete. -/

@[simp] theorem libuvChunk_acceptAll (chunk : List UInt8) (s : LibuvState)
    (k : LibuvState → LibuvState) :
    libuvChunk acceptAll chunk s k = k { s with chunks := s.chunks ++ [chunk] } := by
  rw [libuvChunk]
  exact if_neg (not_not_intro rfl)

theorem libuvOnRead_unparsed {alloc : ResponseAlloc} {onChunk : Bool}
    {answer : List (List UInt8) → ℤ} {s : LibuvState} (bytes : List UInt8) (rest : Memory UInt8)
    (hcap : s.resCap ≠ 0) (hparsed : s.headersParsed = false) :
    libuvOnRead alloc onChunk answer bytes rest s =
      libuvParseHeaders alloc onChunk answer rest { s with filled := s.filled ++ bytes } := by
  rw [libuvOnRead, if_neg hcap]
  exact if_pos hparsed

theorem libuvParseHeaders_found {alloc : ResponseAlloc} {onChunk : Bool}
    {answer : List (List UInt8) → ℤ} {s : LibuvState} {rest : Memory UInt8} {headerEnd : ℕ}
    (hcap : s.resCap ≠ 0) (hparsed : s.headersParsed = false)
    (hresponse : alloc .response responseSize = true)
    (hfound : strstr (cString (s.block rest)) headEnd = some headerEnd) :
    libuvParseHeaders alloc onChunk answer rest s =
      (libuvReadHead alloc (s.block rest) headerEnd).bind fun r =>
        libuvTakeBody alloc onChunk answer (headerEnd + 4) r { s with headersParsed := true } := by
  rw [libuvParseHeaders, if_neg (by simp [hparsed]), if_neg hcap]
  dsimp only
  rw [hfound, inBlock_some]
  dsimp only
  rw [if_neg (by simp [hresponse])]

/-- Without an occurrence, the search needs a NUL to end at. -/
theorem libuvParseHeaders_unfound {alloc : ResponseAlloc} {onChunk : Bool}
    {answer : List (List UInt8) → ℤ} {s : LibuvState} {rest : Memory UInt8}
    (hcap : s.resCap ≠ 0) (hparsed : s.headersParsed = false)
    (hnone : strstr (cString (s.block rest)) headEnd = none) :
    libuvParseHeaders alloc onChunk answer rest s = if 0 ∈ s.block rest then some s else none := by
  rw [libuvParseHeaders, if_neg (by simp [hparsed]), if_neg hcap]
  dsimp only
  rw [hnone]
  by_cases hnul : 0 ∈ s.block rest
  · rw [inBlock, if_pos (Or.inr hnul), if_pos hnul]
  · rw [inBlock, if_neg (by simp [hnul]), if_neg hnul]

/-- No state, or one in which the transfer has failed. -/
def Broken (o : Option LibuvState) : Prop := ∀ s ∈ o, s.done = true ∧ s.errorCode ≠ 0

/-- A head longer than what was received breaks the transfer. -/
theorem libuvTakeBody_broken {alloc : ResponseAlloc} {onChunk : Bool}
    {answer : List (List UInt8) → ℤ} {hdrLen : ℕ} {head : HttpResponse} {s : LibuvState}
    (hlt : s.filled.length < hdrLen) (hrunning : s.done = false) :
    Broken (libuvTakeBody alloc onChunk answer hdrLen head s) := by
  intro t ht
  rw [libuvTakeBody, if_pos hlt] at ht
  dsimp only at ht
  split at ht
  · cases ht
  · split at ht
    · cases ht
    · obtain rfl := Option.some.inj ht
      have hcode : ErrorCode.nomem.value ≠ 0 := by decide
      rw [libuvFinish, if_neg (by simp [hrunning])]
      exact ⟨rfl, hcode⟩

/-- The transfer goes on behind a head; `body` has arrived so far. -/
structure LibuvStreams (onChunk : Bool) (head : HttpResponse) (body : List UInt8)
    (s : LibuvState) : Prop where
  parsed : s.headersParsed = true
  running : s.done = false
  success : s.errorCode = 0
  allocated : s.resCap ≠ 0
  chunks : s.chunks.flatten = if onChunk then body else []
  response : ∃ r, s.res = some r ∧ r.bodyLen = (r.body.getD []).length ∧
    r.content = (head.statusCode, head.headers.headers, if onChunk then [] else body)

theorem libuvTakeBody_streams {alloc : ResponseAlloc} {onChunk : Bool} {hdrLen : ℕ}
    {head : HttpResponse} {s : LibuvState} (hle : hdrLen ≤ s.filled.length)
    (hbody : alloc .body (((s.filled.drop hdrLen).length + 1) % 2 ^ 64) = true)
    (hhead : head.body = none ∧ head.bodyLen = 0) (hparsed : s.headersParsed = true)
    (hrunning : s.done = false) (hsuccess : s.errorCode = 0) (hcap : s.resCap ≠ 0)
    (hchunks : s.chunks = []) :
    ∃ s', libuvTakeBody alloc onChunk acceptAll hdrLen head s = some s' ∧
      LibuvStreams onChunk head (s.filled.drop hdrLen) s' ∧
      s'.filled.length ≤ s.filled.length := by
  obtain ⟨hnone, hzero⟩ := hhead
  rw [libuvTakeBody, if_neg (by omega)]
  dsimp only
  cases onChunk with
  | true =>
    rw [if_pos rfl]
    refine ⟨_, rfl, ?_, ?_⟩
    · split
      next =>
        rw [libuvChunk_acceptAll]
        refine ⟨hparsed, hrunning, hsuccess, hcap, ?_, head, rfl, ?_, ?_⟩
        · simp [hchunks]
        · simp [hnone, hzero]
        · simp [HttpResponse.content, hnone]
      next hempty =>
        have hnil : s.filled.drop hdrLen = [] := List.length_eq_zero_iff.mp (by omega)
        refine ⟨hparsed, hrunning, hsuccess, hcap, ?_, head, rfl, ?_, ?_⟩
        · simp [hchunks, hnil]
        · simp [hnone, hzero]
        · simp [HttpResponse.content, hnone]
    · split <;> simp
  | false =>
    rw [if_neg Bool.false_ne_true, hbody]
    split
    next =>
      refine ⟨_, rfl, ⟨hparsed, hrunning, hsuccess, hcap, by simp [hchunks], _, rfl, ?_, ?_⟩, le_rfl⟩
      · simp
      · simp [HttpResponse.content]
    next hempty =>
      have hnil : s.filled.drop hdrLen = [] := List.length_eq_zero_iff.mp (by omega)
      refine ⟨_, rfl, ⟨hparsed, hrunning, hsuccess, hcap, by simp [hchunks], _, rfl, ?_, ?_⟩, le_rfl⟩
      · simp [hnone, hnil]
      · simp [HttpResponse.content, hnone, hnil]

end AbstractHttp.Transport
