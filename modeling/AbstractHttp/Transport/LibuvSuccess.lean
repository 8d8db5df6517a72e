import AbstractHttp.Transport.Segmentation
import AbstractHttp.Library.Schedule

/-!
# What success means in the libuv transport

`http_libuv_send` goes by `error_code`, which several callbacks set, and gives its caller the
response that one of them may have made. At the end of the stream `libuv_on_read` reports success
whether or not there is a response.
-/
namespace AbstractHttp.Transport
open Http EventStream Library

/-- A transfer, what the peer has sent so far, and `res_buf` as `parse_headers` last searched it for
a head. -/
structure LibuvDelivery where
  received : List UInt8
  searched : Option (List UInt8)
  state : LibuvState

/-- Before the first event. -/
def LibuvDelivery.init : LibuvDelivery := ⟨[], none, .init⟩

namespace LibuvEvent

/-- The bytes that an event brings. -/
def bytes : LibuvEvent → List UInt8
  | .read bytes _ => bytes
  | _ => []

/-- All of `res_buf` at an event, in a state in which there is room to read into. -/
def block (s : LibuvState) : LibuvEvent → List UInt8
  | .read bytes rest => { s with filled := s.filled ++ bytes }.block rest
  | .eof rest => s.block rest
  | _ => []

@[simp] theorem bytes_eof (rest : Memory UInt8) : (LibuvEvent.eof rest).bytes = [] := rfl

end LibuvEvent

/-- What a delivered event that leads to the state `t` makes of a transfer. -/
def LibuvDelivery.after (alloc : ResponseAlloc) (d : LibuvDelivery) (event : LibuvEvent)
    (t : LibuvState) : LibuvDelivery where
  received := d.received ++ event.bytes
  searched :=
    if d.state.headersParsed then d.searched else (libuvAllocCb alloc d.state).map event.block
  state := t

/-- One event; none is delivered once the handles are closed. -/
def libuvDeliver (alloc : ResponseAlloc) (onChunk : Bool) (answer : List (List UInt8) → ℤ)
    (d : LibuvDelivery) (event : LibuvEvent) : Option LibuvDelivery :=
  if d.state.done then some d
  else (libuvStep alloc onChunk answer d.state event).map (d.after alloc event)

/-- The end of `http_libuv_send` when the loop has ended: what it returns, and `*res`. -/
def libuvSendReturns (s : LibuvState) : ℤ × Option HttpResponse :=
  if s.errorCode ≠ 0 then (s.errorCode, none) else (0, s.res)

/-- The received bytes have a complete head, and the response has what `parse_headers` reads in a
block that ends with it. -/
def ReadFrom (alloc : ResponseAlloc) (received : List UInt8) (r : HttpResponse) : Prop :=
  ∃ headerEnd, strstr received headEnd = some headerEnd ∧
    (libuvReadHead alloc (received.take (headerEnd + 4) ++ [0]) headerEnd).map
      (fun head => (head.statusCode, head.headers)) = some (r.statusCode, r.headers)

/-- If the call returns success, it has a response, made from a complete head. -/
def LibuvDelivery.SuccessHasResponse (alloc : ResponseAlloc) (d : LibuvDelivery) : Prop :=
  d.state.done = true → (libuvSendReturns d.state).1 = 0 →
    ∃ r, (libuvSendReturns d.state).2 = some r ∧ ReadFrom alloc d.received r

/-- The search for the status runs off the end of a block: no space is found and no NUL, or behind
the first space there is nothing but what `atoi` goes on with. -/
def StatusRunsOff (block : List UInt8) : Prop :=
  match strchr (cString block) space with
  | none => 0 ∉ block
  | some i => numberInBlock (block.drop (i + 1)) = none

/-- `parse_headers` leaves its buffers: a string function runs off the end of `res_buf`, or the
head ends behind the received bytes, so that `body_len` wraps around and is used. -/
def ParseUndefined (alloc : ResponseAlloc) (onChunk : Bool) (rest : Memory UInt8)
    (s : LibuvState) : Prop :=
  match strstr (cString (s.block rest)) headEnd with
  | none => 0 ∉ s.block rest
  | some headerEnd =>
    alloc .response responseSize = true ∧
      (StatusRunsOff (s.block rest) ∨
        (s.filled.length < headerEnd + 4 ∧ (onChunk = true ∨
          alloc .body ((2 ^ 64 - (headerEnd + 4 - s.filled.length) + 1) % 2 ^ 64) = true)))

/-- A head says what the status is: it has a space, and behind the first one not only white
space. -/
def GivesStatus (head : List UInt8) : Prop :=
  ∃ i, strchr head space = some i ∧ ∃ b ∈ head.drop (i + 1), isSpaceByte b = false

/-- The number behind the first space of a string, and 0 without one. -/
def statusIn (block : List UInt8) : Int32 :=
  Int32.ofInt ((strchr (cString block) space).elim 0 fun i => atoi (cString (block.drop (i + 1))))

/-- The head in a block does not say what the status is, and what lies behind it says another than
0. -/
def StatusElsewhere (block : List UInt8) : Prop :=
  ∃ headerEnd, strstr (cString block) headEnd = some headerEnd ∧
    ¬ GivesStatus (block.take (headerEnd + 4)) ∧ statusIn block ≠ 0

/-- While no head has been found, an event at which `parse_headers` leaves its buffers, or the end
of the stream without a head before the first NUL of `res_buf`; or the end of a stream whose head
did not say what the status is, while something behind it did. -/
def EndsHeadless (alloc : ResponseAlloc) (onChunk : Bool) (d : LibuvDelivery)
    (event : LibuvEvent) : Prop :=
  d.state.done = false ∧ ∃ s, libuvAllocCb alloc d.state = some s ∧
    if d.state.headersParsed then
      ∃ rest, event = .eof rest ∧ ∃ block ∈ d.searched, StatusElsewhere block
    else
      match event with
      | .read bytes rest =>
        ParseUndefined alloc onChunk rest { s with filled := s.filled ++ bytes }
      | .eof rest =>
        ParseUndefined alloc onChunk rest s ∨ strstr (cString (s.block rest)) headEnd = none
      | .failed => False
      | .timeout => False

/-! What `parse_headers` does to a transfer. -/

section Parsing

variable {alloc : ResponseAlloc} {onChunk : Bool} {answer : List (List UInt8) → ℤ}
  {block : List UInt8} {rest : Memory UInt8} {s t : LibuvState} {headerEnd : ℕ} {r : HttpResponse}

/-- A head that is found lies before the first NUL. -/
theorem found_noNul (hfound : strstr (cString block) headEnd = some headerEnd) :
    0 ∉ block.take (headerEnd + 4) := by
  have hle : headerEnd + 4 ≤ (cString block).length := search_le hfound
  have hnul : 0 ∉ cString block := fun hmem => by
    simpa using List.mem_takeWhile_imp hmem
  have htake : block.take (headerEnd + 4) = (cString block).take (headerEnd + 4) := by
    obtain ⟨more, hmore⟩ : cString block <+: block := List.takeWhile_prefix _
    rw [← hmore, List.take_append_of_le_length hle, hmore]
  rw [htake]
  exact fun hmem => hnul (List.mem_of_mem_take hmem)

theorem found_block (hfound : strstr (cString block) headEnd = some headerEnd) :
    strstr block headEnd = some headerEnd := by
  obtain ⟨more, hmore⟩ : cString block <+: block := List.takeWhile_prefix _
  rw [← hmore]
  exact search_append more hfound

theorem numberInBlock_eq {text : List UInt8} (h : numberInBlock text ≠ none) :
    numberInBlock text = some (atoi (cString text)) := by
  rw [numberInBlock] at h ⊢
  split_ifs at h ⊢ <;> first | rfl | exact absurd rfl h

/-- What is read of a head: header lines that nothing behind it changes, and the status, unless the
search for it runs off. -/
theorem libuvReadHead_behind (alloc : ResponseAlloc)
    (hfound : strstr (cString block) headEnd = some headerEnd) :
    ∃ headers, ∀ t,
      (StatusRunsOff (block.take (headerEnd + 4) ++ t) →
        libuvReadHead alloc (block.take (headerEnd + 4) ++ t) headerEnd = none) ∧
      (¬ StatusRunsOff (block.take (headerEnd + 4) ++ t) →
        libuvReadHead alloc (block.take (headerEnd + 4) ++ t) headerEnd =
          some { HttpResponse.init with
            statusCode := statusIn (block.take (headerEnd + 4) ++ t), headers := headers }) := by
  have hnul := found_noNul hfound
  have hcr : (block.take (headerEnd + 4))[headerEnd]? = some cr :=
    headOf_getElem (found_block hfound) (show 0 < 4 by omega)
  have hlf : (block.take (headerEnd + 4))[headerEnd + 1]? = some lf :=
    headOf_getElem (found_block hfound) (show 1 < 4 by omega)
  generalize block.take (headerEnd + 4) = head at hnul hcr hlf
  obtain ⟨j, -, hlfHead⟩ := strchr_le hlf
  obtain ⟨headers, hheaders⟩ := headerLines_behind alloc hnul hcr
    (Nat.succ_le_of_lt (strchr_lt hlfHead))
  refine ⟨headers, fun t => ?_⟩
  have hlfFound : strchr (cString (head ++ t)) lf = some j := by
    rw [cString_append _ hnul]
    exact strchr_append _ hlfHead
  rw [StatusRunsOff, libuvReadHead, statusIn, hlfFound]
  cases hspace : strchr (cString (head ++ t)) space with
  | none =>
    dsimp only
    constructor
    · intro hoff
      rw [inBlock, if_neg (by simp [hoff]), Option.bind_none]
    · intro hends
      rw [inBlock, if_pos (.inr (not_not.mp hends)), Option.bind_some, Option.elim_none,
        Option.bind_some, Option.bind_some, hheaders, Option.map_some]
      rfl
  | some i =>
    dsimp only
    rw [inBlock_some, Option.bind_some, Option.elim_some]
    constructor
    · intro hoff
      rw [hoff, Option.bind_none]
    · intro hends
      rw [numberInBlock_eq hends, Option.bind_some, Option.bind_some, hheaders, Option.map_some]
      rfl

/-- The status line and the header lines can be read, unless the search for the status runs off. -/
theorem libuvReadHead_isSome (alloc : ResponseAlloc)
    (hfound : strstr (cString block) headEnd = some headerEnd) :
    (libuvReadHead alloc block headerEnd).isSome ↔ ¬ StatusRunsOff block := by
  obtain ⟨headers, hread⟩ := libuvReadHead_behind alloc hfound
  have hblock := hread (block.drop (headerEnd + 4))
  rw [List.take_append_drop] at hblock
  by_cases hoff : StatusRunsOff block
  · rw [hblock.1 hoff]
    exact iff_of_false (by simp) (not_not_intro hoff)
  · rw [hblock.2 hoff]
    exact iff_of_true rfl hoff

/-- In a block that ends with a NUL, the search for the status stops there. -/
theorem not_statusRunsOff_nul {head : List UInt8} (hnul : 0 ∉ head) :
    ¬ StatusRunsOff (head ++ [0]) := by
  rw [StatusRunsOff, cString_nul [] hnul]
  cases hspace : strchr head space with
  | none => simp
  | some i =>
    dsimp only
    have hlt := strchr_lt hspace
    rw [List.drop_append_of_le_length hlt, numberInBlock_of_nul (by simp)]
    exact Option.some_ne_none _

/-- Nothing behind a head changes a status that it gives. -/
theorem statusIn_append {head : List UInt8} (hnul : 0 ∉ head) (hlast : head.getLast? = some lf)
    (hgives : GivesStatus head) (t u : List UInt8) :
    statusIn (head ++ t) = statusIn (head ++ u) := by
  obtain ⟨i, hfound, hbegins⟩ := hgives
  have hlt := strchr_lt hfound
  have hnulRest : 0 ∉ head.drop (i + 1) := fun hmem => hnul (List.mem_of_mem_drop hmem)
  have hlastRest : (head.drop (i + 1)).getLast? = some lf := by
    obtain ⟨b, hb, -⟩ := hbegins
    have hne : ¬ head.length ≤ i + 1 := fun hle => by
      rw [List.drop_of_length_le hle] at hb
      exact absurd hb List.not_mem_nil
    rw [List.getLast?_drop, if_neg hne, hlast]
  have hnumber (t : List UInt8) :
      atoi (cString ((head ++ t).drop (i + 1))) = atoi (head.drop (i + 1)) := by
    rw [List.drop_append_of_le_length hlt, cString_append _ hnulRest]
    exact atoi_append hbegins hlastRest (by decide) _
  have hspace (t : List UInt8) : strchr (cString (head ++ t)) space = some i := by
    rw [cString_append _ hnul]
    exact strchr_append _ hfound
  rw [statusIn, statusIn, hspace, hspace, Option.elim_some, Option.elim_some, hnumber, hnumber]

/-- In a head that gives none, the status reads as 0. -/
theorem statusIn_of_not {head : List UInt8} (hnul : 0 ∉ head) (hgives : ¬ GivesStatus head) :
    statusIn (head ++ [0]) = 0 := by
  rw [statusIn, cString_nul [] hnul]
  cases hfound : strchr head space with
  | none => rfl
  | some i =>
    have hlt := strchr_lt hfound
    have hnulRest : 0 ∉ head.drop (i + 1) := fun hmem => hnul (List.mem_of_mem_drop hmem)
    have hspaces : ∀ b ∈ head.drop (i + 1), isSpaceByte b = true := by
      intro b hb
      by_contra hnot
      exact hgives ⟨i, hfound, b, hb, Bool.eq_false_of_not_eq_true hnot⟩
    have hnumber := atoi_spaces hspaces []
    rw [List.append_nil] at hnumber
    rw [Option.elim_some, List.drop_append_of_le_length hlt, cString_nul [] hnulRest, hnumber]
    rfl

/-- What was read is what the head says, unless the status comes from elsewhere. -/
theorem readFrom_iff {received : List UInt8}
    (hfound : strstr (cString block) headEnd = some headerEnd)
    (hreceived : strstr received headEnd = some headerEnd)
    (hhead : received.take (headerEnd + 4) = block.take (headerEnd + 4))
    (hread : libuvReadHead alloc block headerEnd = some r) :
    ReadFrom alloc received r ↔ ¬ StatusElsewhere block := by
  have hnul := found_noNul hfound
  obtain ⟨headers, hreads⟩ := libuvReadHead_behind alloc hfound
  have hblock := hreads (block.drop (headerEnd + 4))
  rw [List.take_append_drop, hread] at hblock
  have halone := (hreads [0]).2 (not_statusRunsOff_nul hnul)
  obtain rfl : r = { HttpResponse.init with statusCode := statusIn block, headers := headers } := by
    have hends : ¬ StatusRunsOff block := fun hoff => Option.some_ne_none r (hblock.1 hoff)
    exact Option.some.inj (hblock.2 hends)
  have hfrom : ReadFrom alloc received
      { HttpResponse.init with statusCode := statusIn block, headers := headers } ↔
      statusIn (block.take (headerEnd + 4) ++ [0]) = statusIn block := by
    constructor
    · rintro ⟨i, hi, hmade⟩
      obtain rfl : headerEnd = i := Option.some.inj (hreceived.symm.trans hi)
      rw [hhead, halone, Option.map_some] at hmade
      exact (Prod.mk.inj (Option.some.inj hmade)).1
    · intro hsame
      refine ⟨headerEnd, hreceived, ?_⟩
      rw [hhead, halone, Option.map_some, hsame]
  have hlast : (block.take (headerEnd + 4)).getLast? = some lf := by
    have hle : headerEnd + 4 ≤ block.length := search_le (found_block hfound)
    rw [List.getLast?_eq_getElem?, List.length_take, min_eq_left hle]
    exact headOf_getElem (found_block hfound) (show 3 < 4 by omega)
  rw [hfrom]
  by_cases hgives : GivesStatus (block.take (headerEnd + 4))
  · have hsame := statusIn_append hnul hlast hgives [0] (block.drop (headerEnd + 4))
    rw [List.take_append_drop] at hsame
    refine iff_of_true hsame ?_
    · rintro ⟨i, hi, hnot, -⟩
      obtain rfl : headerEnd = i := Option.some.inj (hfound.symm.trans hi)
      exact hnot hgives
  · rw [statusIn_of_not hnul hgives]
    constructor
    · rintro hzero ⟨i, -, -, hne⟩
      exact hne hzero.symm
    · intro hnot
      by_contra hne
      exact hnot ⟨headerEnd, hfound, hgives, Ne.symm hne⟩

/-- A transfer that ended with an error. -/
def LibuvState.Failed (s : LibuvState) : Prop := s.done = true ∧ s.errorCode ≠ 0

theorem libuvFinish_failed {error : ℤ} (hrunning : s.done = false) (herror : error ≠ 0) :
    (libuvFinish s error).Failed := by
  rw [libuvFinish, if_neg (by simp [hrunning])]
  exact ⟨rfl, herror⟩

/-- The transfer has not found a head in what was received. -/
structure LibuvState.Waits (received : List UInt8) (s : LibuvState) : Prop where
  running : s.done = false
  success : s.errorCode = 0
  unparsed : s.headersParsed = false
  noResponse : s.res = none
  filled : s.filled = received
  unfound : strstr (cString received) headEnd = none

/-- The response has what the head of the received bytes says, unless the status comes from
elsewhere in the block that was searched. -/
def MadeFrom (alloc : ResponseAlloc) (received block : List UInt8) (r : HttpResponse) : Prop :=
  (∃ headerEnd, strstr received headEnd = some headerEnd) ∧
    (ReadFrom alloc received r ↔ ¬ StatusElsewhere block)

/-- The transfer goes on behind the head that its response was read from. -/
structure LibuvState.Parsed (alloc : ResponseAlloc) (received block : List UInt8)
    (s : LibuvState) : Prop where
  running : s.done = false
  success : s.errorCode = 0
  parsed : s.headersParsed = true
  response : ∃ r, s.res = some r ∧ MadeFrom alloc received block r

/-- What follows a head changes neither the status nor the headers. -/
theorem libuvTakeBody_within {hdrLen : ℕ} (hle : hdrLen ≤ s.filled.length)
    (hrunning : s.done = false) (hsuccess : s.errorCode = 0) (hparsed : s.headersParsed = true)
    {received : List UInt8} (hread : MadeFrom alloc received block r) :
    ∃ t, libuvTakeBody alloc onChunk answer hdrLen r s = some t ∧
      (t.Failed ∨ t.Parsed alloc received block) := by
  have hcanceled : ecanceled ≠ 0 := by decide
  have hnomem : ErrorCode.nomem.value ≠ 0 := by decide
  rw [libuvTakeBody, if_neg (by omega)]
  dsimp only
  split_ifs with hchunk hbody hbody halloc
  · refine ⟨_, rfl, ?_⟩
    rw [libuvChunk]
    split_ifs
    · exact .inl (libuvFinish_failed hrunning hcanceled)
    · exact .inr ⟨hrunning, hsuccess, hparsed, r, rfl, hread⟩
  · exact ⟨_, rfl, .inr ⟨hrunning, hsuccess, hparsed, r, rfl, hread⟩⟩
  · exact ⟨_, rfl, .inr ⟨hrunning, hsuccess, hparsed, _, rfl, hread⟩⟩
  · exact ⟨_, rfl, .inl (libuvFinish_failed hrunning hnomem)⟩
  · exact ⟨_, rfl, .inr ⟨hrunning, hsuccess, hparsed, _, rfl, hread⟩⟩

/-- A head that ends behind the received bytes. -/
theorem libuvTakeBody_beyond {hdrLen : ℕ} (hlt : s.filled.length < hdrLen)
    (hrunning : s.done = false) :
    (onChunk = true ∨ alloc .body ((2 ^ 64 - (hdrLen - s.filled.length) + 1) % 2 ^ 64) = true) ∧
        libuvTakeBody alloc onChunk answer hdrLen r s = none ∨
      ¬ (onChunk = true ∨
          alloc .body ((2 ^ 64 - (hdrLen - s.filled.length) + 1) % 2 ^ 64) = true) ∧
        ∃ t, libuvTakeBody alloc onChunk answer hdrLen r s = some t ∧ t.Failed := by
  have hnomem : ErrorCode.nomem.value ≠ 0 := by decide
  rw [libuvTakeBody, if_pos hlt]
  dsimp only
  split_ifs with hchunk halloc
  · exact .inl ⟨.inl hchunk, rfl⟩
  · exact .inl ⟨.inr halloc, rfl⟩
  · exact .inr ⟨not_or.mpr ⟨hchunk, halloc⟩, _, rfl, libuvFinish_failed hrunning hnomem⟩

/-- A head that is found within the received bytes is found there without the rest. -/
theorem found_filled (hfound : strstr (cString (s.block rest)) headEnd = some headerEnd)
    (hle : headerEnd + 4 ≤ s.filled.length) :
    strstr s.filled headEnd = some headerEnd ∧
      s.filled.take (headerEnd + 4) = (s.block rest).take (headerEnd + 4) ∧
      strstr (cString s.filled) headEnd ≠ none := by
  have hfilled : strstr s.filled headEnd = some headerEnd :=
    search_of_append (found_block hfound) hle
  have htake : (s.block rest).take (headerEnd + 4) = s.filled.take (headerEnd + 4) :=
    List.take_append_of_le_length hle
  have hnul := found_noNul hfound
  rw [htake] at hnul
  have hhead : strstr (s.filled.take (headerEnd + 4)) headEnd = some headerEnd := by
    rw [← List.take_append_drop (headerEnd + 4) s.filled] at hfilled
    refine search_of_append hfilled ?_
    rw [List.length_take, min_eq_left hle]
    exact le_rfl
  refine ⟨hfilled, htake.symm, ?_⟩
  rw [← List.take_append_drop (headerEnd + 4) s.filled, cString_append _ hnul,
    strstr, search_append _ hhead]
  exact Option.some_ne_none _

theorem unfound_filled (hnone : strstr (cString (s.block rest)) headEnd = none) :
    strstr (cString s.filled) headEnd = none := by
  have hpre : cString s.filled <+: cString (s.block rest) := by
    rw [cString, cString, LibuvState.block, List.takeWhile_append]
    split_ifs with hall
    · rw [(List.takeWhile_prefix _).eq_of_length hall]
      exact List.prefix_append _ _
    · exact List.prefix_rfl
  obtain ⟨more, hmore⟩ := hpre
  by_contra hfound
  obtain ⟨i, hi⟩ := Option.ne_none_iff_exists'.mp hfound
  have hblock := search_append more hi
  rw [hmore] at hblock
  exact absurd (hnone.symm.trans hblock) (Option.some_ne_none i).symm

/-- How a search for the head ends: there is none, the transfer has failed, or it has a response. -/
theorem libuvParseHeaders_result (answer : List (List UInt8) → ℤ)
    (hdefined : ¬ ParseUndefined alloc onChunk rest s) (hcap : s.resCap ≠ 0)
    (hrunning : s.done = false) (hsuccess : s.errorCode = 0) (hparsed : s.headersParsed = false) :
    ∃ t, libuvParseHeaders alloc onChunk answer rest s = some t ∧
      (strstr (cString (s.block rest)) headEnd = none ∧ t = s ∨
        strstr (cString (s.block rest)) headEnd ≠ none ∧
          (t.Failed ∨ strstr (cString s.filled) headEnd ≠ none ∧
            t.Parsed alloc s.filled (s.block rest))) := by
  have hnomem : ErrorCode.nomem.value ≠ 0 := by decide
  rw [ParseUndefined] at hdefined
  cases hfound : strstr (cString (s.block rest)) headEnd with
  | none =>
    rw [hfound, not_not] at hdefined
    refine ⟨s, ?_, .inl ⟨rfl, rfl⟩⟩
    rw [libuvParseHeaders_unfound hcap hparsed hfound, if_pos hdefined]
  | some headerEnd =>
    rw [hfound] at hdefined
    dsimp only at hdefined
    cases hresponse : alloc .response responseSize with
    | false =>
      refine ⟨libuvFinish { s with headersParsed := true } ErrorCode.nomem.value, ?_,
        .inr ⟨Option.some_ne_none _, .inl (libuvFinish_failed hrunning hnomem)⟩⟩
      rw [libuvParseHeaders, if_neg (by simp [hparsed]), if_neg hcap]
      dsimp only
      rw [hfound, inBlock_some]
      dsimp only
      rw [if_pos hresponse]
    | true =>
      obtain ⟨hspace, hbody⟩ := not_or.mp fun h => hdefined ⟨hresponse, h⟩
      obtain ⟨head, hhead⟩ := Option.isSome_iff_exists.mp
        ((libuvReadHead_isSome alloc hfound).mpr hspace)
      rw [libuvParseHeaders_found hcap hparsed hresponse hfound, hhead, Option.bind_some]
      by_cases hle : headerEnd + 4 ≤ s.filled.length
      · obtain ⟨hreceived, htake, hbegins⟩ := found_filled hfound hle
        have hmade : MadeFrom alloc s.filled (s.block rest) head :=
          ⟨⟨headerEnd, hreceived⟩, readFrom_iff hfound hreceived htake hhead⟩
        obtain ⟨t, ht, hresult⟩ := libuvTakeBody_within (s := { s with headersParsed := true }) hle
          hrunning hsuccess rfl hmade
        exact ⟨t, ht, .inr ⟨Option.some_ne_none _, hresult.imp_right fun h => ⟨hbegins, h⟩⟩⟩
      · have hlt : s.filled.length < headerEnd + 4 := not_le.mp hle
        rcases libuvTakeBody_beyond (s := { s with headersParsed := true }) hlt hrunning with
          ⟨hwraps, -⟩ | ⟨-, t, ht, hfailed⟩
        · exact absurd ⟨hlt, hwraps⟩ hbody
        · exact ⟨t, ht, .inr ⟨Option.some_ne_none _, .inl hfailed⟩⟩

theorem libuvParseHeaders_undefined (hundefined : ParseUndefined alloc onChunk rest s)
    (hcap : s.resCap ≠ 0) (hrunning : s.done = false) (hparsed : s.headersParsed = false) :
    libuvParseHeaders alloc onChunk answer rest s = none := by
  rw [ParseUndefined] at hundefined
  cases hfound : strstr (cString (s.block rest)) headEnd with
  | none =>
    rw [hfound] at hundefined
    rw [libuvParseHeaders_unfound hcap hparsed hfound, if_neg hundefined]
  | some headerEnd =>
    rw [hfound] at hundefined
    obtain ⟨hresponse, hwhere⟩ := hundefined
    rw [libuvParseHeaders_found hcap hparsed hresponse hfound]
    rcases hwhere with hspace | ⟨hlt, hwraps⟩
    · have hnone : libuvReadHead alloc (s.block rest) headerEnd = none := by
        rw [← Option.not_isSome_iff_eq_none, libuvReadHead_isSome alloc hfound]
        exact not_not_intro hspace
      rw [hnone, Option.bind_none]
    · refine Option.bind_eq_none_iff.mpr fun head _ => ?_
      rcases libuvTakeBody_beyond (s := { s with headersParsed := true }) hlt hrunning with
        ⟨-, hnone⟩ | ⟨hfine, -⟩
      · exact hnone
      · exact absurd hwraps hfine

end Parsing

/-! Runs. -/

/-- What holds between two events: the transfer waits for a head, goes on behind it, has failed or
has succeeded with a response. -/
inductive LibuvDelivery.Sound (alloc : ResponseAlloc) (d : LibuvDelivery) : Prop where
  | waiting : d.state.Waits d.received → Sound alloc d
  | parsed {block : List UInt8} : d.searched = some block →
      d.state.Parsed alloc d.received block → Sound alloc d
  | failed : d.state.Failed → Sound alloc d
  | succeeded : d.state.done = true → d.state.errorCode = 0 →
      (∃ r, d.state.res = some r ∧ ReadFrom alloc d.received r) → Sound alloc d

/-- The transfer ended with success and without a response that was read from a head. -/
def LibuvDelivery.Headless (alloc : ResponseAlloc) (d : LibuvDelivery) : Prop :=
  d.state.done = true ∧ d.state.errorCode = 0 ∧
    ∀ r, d.state.res = some r → ¬ ReadFrom alloc d.received r

section Runs

variable {alloc : ResponseAlloc} {onChunk : Bool} {answer : List (List UInt8) → ℤ}
  {s t : LibuvState} {d e : LibuvDelivery} {event : LibuvEvent} {block : List UInt8}

/-- More bytes do not change what was read from a head. -/
theorem MadeFrom.append {received : List UInt8} {r : HttpResponse}
    (h : MadeFrom alloc received block r) (more : List UInt8) :
    MadeFrom alloc (received ++ more) block r := by
  obtain ⟨⟨headerEnd, hfound⟩, hread⟩ := h
  have hle : headerEnd + 4 ≤ received.length := search_le hfound
  have hfound' : strstr (received ++ more) headEnd = some headerEnd := search_append more hfound
  refine ⟨⟨headerEnd, hfound'⟩, Iff.trans ?_ hread⟩
  rw [ReadFrom, ReadFrom, hfound, hfound']
  simp only [Option.some.injEq, exists_eq_left', List.take_append_of_le_length hle]

theorem libuvDeliver_done (hdone : d.state.done = true) :
    libuvDeliver alloc onChunk answer d event = some d := by
  rw [libuvDeliver, if_pos hdone]

theorem libuvDeliver_running (hrunning : d.state.done = false)
    (hstep : libuvStep alloc onChunk answer d.state event = some t) :
    libuvDeliver alloc onChunk answer d event = some (d.after alloc event t) := by
  rw [libuvDeliver, if_neg (by simp [hrunning]), hstep]
  rfl

/-- `libuv_alloc_cb` changes nothing but the size of `res_buf`. -/
theorem libuvAllocCb_some (h : libuvAllocCb alloc s = some t) :
    ∃ cap, cap ≠ 0 ∧ t = { s with resCap := cap } := by
  rw [libuvAllocCb, Option.ite_none_right_eq_some] at h
  obtain rfl := Option.some.inj h.2
  exact ⟨_, libuvRoom_ne_zero _ _, rfl⟩

theorem LibuvState.Waits.allocCb {received : List UInt8} (hwaits : s.Waits received)
    (h : libuvAllocCb alloc s = some t) : t.Waits received ∧ t.resCap ≠ 0 := by
  obtain ⟨cap, hcap, rfl⟩ := libuvAllocCb_some h
  exact ⟨⟨hwaits.running, hwaits.success, hwaits.unparsed, hwaits.noResponse, hwaits.filled,
    hwaits.unfound⟩, hcap⟩

theorem LibuvState.Parsed.allocCb {received : List UInt8} (hparsed : s.Parsed alloc received block)
    (h : libuvAllocCb alloc s = some t) : t.Parsed alloc received block ∧ t.resCap ≠ 0 := by
  obtain ⟨cap, hcap, rfl⟩ := libuvAllocCb_some h
  exact ⟨⟨hparsed.running, hparsed.success, hparsed.parsed, hparsed.response⟩, hcap⟩

/-- Events that end a transfer with an error. -/
theorem libuvStep_fails (hrunning : s.done = false)
    (hevent : event = .failed ∨ event = .timeout ∨
      libuvAllocCb alloc s = none ∧ ∃ bytes rest, event = .read bytes rest ∨ event = .eof rest) :
    ∃ t, libuvStep alloc onChunk answer s event = some t ∧ t.Failed := by
  have hrefused := libuvFinish_failed hrunning (show econnrefused ≠ 0 by decide)
  have htimeout := libuvFinish_failed hrunning (show ErrorCode.timeout.value ≠ 0 by decide)
  rcases hevent with rfl | rfl | ⟨hroom, bytes, rest, rfl | rfl⟩
  · rw [libuvStep, if_neg (by simp [hrunning])]
    exact ⟨_, rfl, hrefused⟩
  · rw [libuvStep, if_neg (by simp [hrunning])]
    exact ⟨_, rfl, htimeout⟩
  · rw [libuvStep, if_neg (by simp [hrunning]), hroom]
    exact ⟨_, rfl, hrefused⟩
  · rw [libuvStep, if_neg (by simp [hrunning]), hroom]
    exact ⟨_, rfl, hrefused⟩

theorem deliver_fails (hrunning : d.state.done = false)
    (hevent : event = .failed ∨ event = .timeout ∨ libuvAllocCb alloc d.state = none ∧
      ∃ bytes rest, event = .read bytes rest ∨ event = .eof rest) :
    ∃ e, libuvDeliver alloc onChunk answer d event = some e ∧ e.Sound alloc := by
  obtain ⟨t, hstep, hfailed⟩ := libuvStep_fails hrunning hevent
  exact ⟨_, libuvDeliver_running hrunning hstep, .failed hfailed⟩

/-- A read behind the head. -/
theorem libuvOnRead_parsed {received : List UInt8} (h : s.Parsed alloc received block)
    (hcap : s.resCap ≠ 0) (bytes : List UInt8) (rest : Memory UInt8) :
    ∃ t, libuvOnRead alloc onChunk answer bytes rest s = some t ∧
      (t.Failed ∨ t.Parsed alloc (received ++ bytes) block) := by
  have hcanceled : ecanceled ≠ 0 := by decide
  have hnomem : ErrorCode.nomem.value ≠ 0 := by decide
  obtain ⟨hrunning, hsuccess, hparsed, r, hres, hread⟩ := h
  have hmore := hread.append bytes
  rw [libuvOnRead, if_neg hcap]
  dsimp only
  rw [if_neg (by simp [hparsed])]
  split_ifs with hchunk
  · refine ⟨_, rfl, ?_⟩
    rw [libuvChunk]
    split_ifs
    · exact .inl (libuvFinish_failed hrunning hcanceled)
    · exact .inr ⟨hrunning, hsuccess, hparsed, r, hres, hmore⟩
  · rw [libuvExtendBody, hres, Option.map_some]
    refine ⟨_, rfl, ?_⟩
    split_ifs
    · exact .inr ⟨hrunning, hsuccess, hparsed, _, rfl, hmore⟩
    · exact .inl (libuvFinish_failed hrunning hnomem)

/-- What an event does once there is room to read into. -/
theorem libuvStep_room (hrunning : s.done = false) (hroom : libuvAllocCb alloc s = some t)
    (bytes : List UInt8) (rest : Memory UInt8) :
    libuvStep alloc onChunk answer s (.read bytes rest) =
        libuvOnRead alloc onChunk answer bytes rest t ∧
      libuvStep alloc onChunk answer s (.eof rest) = libuvOnEof alloc onChunk answer rest t := by
  rw [libuvStep, libuvStep, if_neg (by simp [hrunning]), if_neg (by simp [hrunning]), hroom]
  exact ⟨rfl, rfl⟩

/-- Before a head has been found, `parse_headers` searches all of `res_buf`. -/
theorem searched_after (hunparsed : d.state.headersParsed = false)
    (hroom : libuvAllocCb alloc d.state = some s) (event : LibuvEvent) (t : LibuvState) :
    (d.after alloc event t).searched = some (event.block s) := by
  rw [LibuvDelivery.after]
  dsimp only
  rw [if_neg (by simp [hunparsed]), hroom, Option.map_some]

theorem searched_after_parsed (hparsed : d.state.headersParsed = true) (event : LibuvEvent)
    (t : LibuvState) : (d.after alloc event t).searched = d.searched :=
  if_pos hparsed

/-- The transfer waits for a head, and the event is none at which it ends without one. -/
theorem waiting_sound (h : d.state.Waits d.received)
    (hevent : ¬ EndsHeadless alloc onChunk d event) :
    ∃ e, libuvDeliver alloc onChunk answer d event = some e ∧ e.Sound alloc := by
  have hrunning := h.running
  have hunparsed : ¬ d.state.headersParsed = true := by simp [h.unparsed]
  cases event with
  | failed => exact deliver_fails hrunning (.inl rfl)
  | timeout => exact deliver_fails hrunning (.inr (.inl rfl))
  | read bytes rest =>
    cases hroom : libuvAllocCb alloc d.state with
    | none => exact deliver_fails hrunning (.inr (.inr ⟨hroom, bytes, rest, .inl rfl⟩))
    | some s =>
      obtain ⟨hwaits, hcap⟩ := h.allocCb hroom
      have hdefined : ¬ ParseUndefined alloc onChunk rest { s with filled := s.filled ++ bytes } :=
        fun hundefined => hevent ⟨hrunning, s, hroom, by rwa [if_neg hunparsed]⟩
      obtain ⟨t, hparse, hresult⟩ := libuvParseHeaders_result answer hdefined hcap hwaits.running
        hwaits.success hwaits.unparsed
      have hstep : libuvStep alloc onChunk answer d.state (.read bytes rest) = some t := by
        rw [(libuvStep_room hrunning hroom bytes rest).1,
          libuvOnRead_unparsed bytes rest hcap hwaits.unparsed, hparse]
      refine ⟨_, libuvDeliver_running hrunning hstep, ?_⟩
      have hfilled : s.filled ++ bytes = d.received ++ bytes := by rw [hwaits.filled]
      rcases hresult with ⟨hnone, rfl⟩ | ⟨-, hfailed | ⟨-, hparsed⟩⟩
      · have hunfound := unfound_filled hnone
        dsimp only at hunfound
        rw [hfilled] at hunfound
        exact .waiting ⟨hwaits.running, hwaits.success, hwaits.unparsed, hwaits.noResponse, hfilled,
          hunfound⟩
      · exact .failed hfailed
      · refine .parsed (searched_after h.unparsed hroom _ t) ?_
        change t.Parsed alloc (d.received ++ bytes) _
        rw [← hfilled]
        exact hparsed
  | eof rest =>
    cases hroom : libuvAllocCb alloc d.state with
    | none => exact deliver_fails hrunning (.inr (.inr ⟨hroom, [], rest, .inr rfl⟩))
    | some s =>
      obtain ⟨hwaits, hcap⟩ := h.allocCb hroom
      have hheadless : ¬ (ParseUndefined alloc onChunk rest s ∨
          strstr (cString (s.block rest)) headEnd = none) :=
        fun hends => hevent ⟨hrunning, s, hroom, by rwa [if_neg hunparsed]⟩
      obtain ⟨hdefined, hfound⟩ := not_or.mp hheadless
      obtain ⟨t, hparse, hresult⟩ := libuvParseHeaders_result answer hdefined hcap hwaits.running
        hwaits.success hwaits.unparsed
      have hstep : libuvStep alloc onChunk answer d.state (.eof rest) = some (libuvFinish t 0) := by
        rw [(libuvStep_room hrunning hroom [] rest).2, libuvOnEof, hparse, Option.map_some]
      -- the received bytes were searched before, so a head can only end behind them
      have hfailed : t.Failed := by
        rcases hresult with ⟨hnone, -⟩ | ⟨-, hfailed | ⟨hbegins, -⟩⟩
        · exact absurd hnone hfound
        · exact hfailed
        · rw [hwaits.filled] at hbegins
          exact absurd hwaits.unfound hbegins
      refine ⟨_, libuvDeliver_running hrunning hstep, .failed ?_⟩
      rw [libuvFinish, if_pos hfailed.1]
      exact hfailed

/-- The transfer goes on behind the head. -/
theorem parsed_sound (hsearched : d.searched = some block)
    (h : d.state.Parsed alloc d.received block) (hevent : ¬ EndsHeadless alloc onChunk d event) :
    ∃ e, libuvDeliver alloc onChunk answer d event = some e ∧ e.Sound alloc := by
  have hrunning := h.running
  cases event with
  | failed => exact deliver_fails hrunning (.inl rfl)
  | timeout => exact deliver_fails hrunning (.inr (.inl rfl))
  | read bytes rest =>
    cases hroom : libuvAllocCb alloc d.state with
    | none => exact deliver_fails hrunning (.inr (.inr ⟨hroom, bytes, rest, .inl rfl⟩))
    | some s =>
      obtain ⟨hparsed, hcap⟩ := h.allocCb hroom
      obtain ⟨t, hread, hresult⟩ := libuvOnRead_parsed hparsed hcap bytes rest
      have hstep : libuvStep alloc onChunk answer d.state (.read bytes rest) = some t :=
        (libuvStep_room hrunning hroom bytes rest).1.trans hread
      refine ⟨_, libuvDeliver_running hrunning hstep, ?_⟩
      rcases hresult with hfailed | hparsed
      · exact .failed hfailed
      · exact .parsed ((searched_after_parsed h.parsed _ t).trans hsearched) hparsed
  | eof rest =>
    cases hroom : libuvAllocCb alloc d.state with
    | none => exact deliver_fails hrunning (.inr (.inr ⟨hroom, [], rest, .inr rfl⟩))
    | some s =>
      obtain ⟨hparsed, hcap⟩ := h.allocCb hroom
      have hstep : libuvStep alloc onChunk answer d.state (.eof rest) = some (libuvFinish s 0) := by
        rw [(libuvStep_room hrunning hroom [] rest).2, libuvOnEof, libuvParseHeaders,
          if_pos hparsed.parsed, Option.map_some]
      have hgiven : ¬ StatusElsewhere block := fun helsewhere => hevent
        ⟨hrunning, s, hroom, by
          rw [if_pos h.parsed]
          exact ⟨rest, rfl, block, hsearched, helsewhere⟩⟩
      refine ⟨_, libuvDeliver_running hrunning hstep, ?_⟩
      obtain ⟨r, hres, -, hread⟩ := hparsed.response
      rw [libuvFinish, if_neg (by simp [hparsed.running])]
      refine .succeeded rfl rfl ⟨r, hres, ?_⟩
      rw [LibuvDelivery.after, LibuvEvent.bytes_eof, List.append_nil]
      exact hread.mpr hgiven

/-- An event at which a waiting transfer ends without a head, if there is a state behind it. -/
theorem waiting_headless (hwaits : d.state.Waits d.received)
    (hevent : EndsHeadless alloc onChunk d event)
    (h : libuvDeliver alloc onChunk answer d event = some e) : e.Headless alloc := by
  obtain ⟨hrunning, s, hroom, hwhere⟩ := hevent
  rw [if_neg (by simp [hwaits.unparsed])] at hwhere
  obtain ⟨hwaits, hcap⟩ := hwaits.allocCb hroom
  rw [libuvDeliver, if_neg (by simp [hrunning])] at h
  obtain ⟨t, hstep, rfl⟩ := Option.map_eq_some_iff.mp h
  cases event with
  | failed => exact hwhere.elim
  | timeout => exact hwhere.elim
  | read bytes rest =>
    rw [(libuvStep_room hrunning hroom bytes rest).1,
      libuvOnRead_unparsed bytes rest hcap hwaits.unparsed,
      libuvParseHeaders_undefined hwhere hcap hwaits.running hwaits.unparsed] at hstep
    cases hstep
  | eof rest =>
    rw [(libuvStep_room hrunning hroom [] rest).2, libuvOnEof] at hstep
    by_cases hundefined : ParseUndefined alloc onChunk rest s
    · rw [libuvParseHeaders_undefined hundefined hcap hwaits.running hwaits.unparsed] at hstep
      cases hstep
    · obtain ⟨u, hparse, hresult⟩ := libuvParseHeaders_result answer hundefined hcap hwaits.running
        hwaits.success hwaits.unparsed
      have hnone := hwhere.resolve_left hundefined
      obtain ⟨-, rfl⟩ := hresult.resolve_right fun hfound => hfound.1 hnone
      rw [hparse, Option.map_some, libuvFinish, if_neg (by simp [hwaits.running])] at hstep
      obtain rfl := Option.some.inj hstep
      refine ⟨rfl, rfl, fun r hr => ?_⟩
      rw [LibuvDelivery.after, hwaits.noResponse] at hr
      cases hr

/-- The end of a stream whose head did not say what the status is. -/
theorem parsed_headless (hsearched : d.searched = some block)
    (hparsed : d.state.Parsed alloc d.received block) (hevent : EndsHeadless alloc onChunk d event)
    (h : libuvDeliver alloc onChunk answer d event = some e) : e.Headless alloc := by
  obtain ⟨hrunning, s, hroom, hwhere⟩ := hevent
  rw [if_pos hparsed.parsed] at hwhere
  obtain ⟨rest, rfl, block', hblock', helsewhere⟩ := hwhere
  obtain rfl : block = block' := Option.some.inj (hsearched.symm.trans hblock')
  obtain ⟨hparsed, -⟩ := hparsed.allocCb hroom
  have hstep : libuvStep alloc onChunk answer d.state (.eof rest) = some (libuvFinish s 0) := by
    rw [(libuvStep_room hrunning hroom [] rest).2, libuvOnEof, libuvParseHeaders,
      if_pos hparsed.parsed, Option.map_some]
  rw [libuvDeliver_running hrunning hstep, libuvFinish, if_neg (by simp [hparsed.running])] at h
  obtain rfl := Option.some.inj h
  obtain ⟨r, hres, -, hread⟩ := hparsed.response
  refine ⟨rfl, rfl, fun r' hr' => ?_⟩
  obtain rfl : r = r' := Option.some.inj (hres.symm.trans hr')
  rw [LibuvDelivery.after, LibuvEvent.bytes_eof, List.append_nil, hread]
  exact not_not_intro helsewhere

theorem endsHeadless_headless (hsound : d.Sound alloc) (hevent : EndsHeadless alloc onChunk d event)
    (h : libuvDeliver alloc onChunk answer d event = some e) : e.Headless alloc := by
  obtain ⟨hrunning, -⟩ := id hevent
  cases hsound with
  | waiting hwaits => exact waiting_headless hwaits hevent h
  | parsed hsearched hparsed => exact parsed_headless hsearched hparsed hevent h
  | failed hfailed =>
    rw [hfailed.1] at hrunning
    cases hrunning
  | succeeded hdone =>
    rw [hdone] at hrunning
    cases hrunning

theorem Sound.successHasResponse (h : d.Sound alloc) : d.SuccessHasResponse alloc := by
  intro hdone hreturns
  cases h with
  | waiting hwaits =>
    rw [hwaits.running] at hdone
    cases hdone
  | parsed _ hparsed =>
    rw [hparsed.running] at hdone
    cases hdone
  | failed hfailed =>
    rw [libuvSendReturns, if_pos hfailed.2] at hreturns
    exact absurd hreturns hfailed.2
  | succeeded _ hsuccess hresponse =>
    rw [libuvSendReturns, if_neg (not_not_intro hsuccess)]
    exact hresponse

theorem Headless.not_success (h : d.Headless alloc) : ¬ d.SuccessHasResponse alloc := by
  obtain ⟨hdone, hsuccess, hres⟩ := h
  intro hresponse
  rw [LibuvDelivery.SuccessHasResponse, libuvSendReturns, if_neg (not_not_intro hsuccess)]
    at hresponse
  obtain ⟨r, hr, hread⟩ := hresponse hdone rfl
  exact hres r hr hread

/-- For every sequence of events, a success comes with a response that was read from a complete
head exactly as long as no event ends the transfer, or leaves its buffers, before there is one, and
none ends it with a status that comes from behind the head. -/
theorem success_hasResponse_iff (alloc : ResponseAlloc) (onChunk : Bool)
    (answer : List (List UInt8) → ℤ) (events : List LibuvEvent) :
    (∃ d, Run (libuvDeliver alloc onChunk answer) .init events d ∧ d.SuccessHasResponse alloc) ↔
      Avoids (libuvDeliver alloc onChunk answer) (EndsHeadless alloc onChunk) .init events := by
  refine exists_run_iff_avoids (P := LibuvDelivery.Sound alloc) ?_
    (fun d event e => endsHeadless_headless) ?_ (fun d => Sound.successHasResponse)
    (fun d => Headless.not_success) (.waiting ⟨rfl, rfl, rfl, rfl, rfl, rfl⟩) events
  · intro d event hsound hevent
    cases hsound with
    | waiting hwaits => exact waiting_sound hwaits hevent
    | parsed hsearched hparsed => exact parsed_sound hsearched hparsed hevent
    | failed hfailed => exact ⟨d, libuvDeliver_done hfailed.1, .failed hfailed⟩
    | succeeded hdone hsuccess hresponse =>
      exact ⟨d, libuvDeliver_done hdone, .succeeded hdone hsuccess hresponse⟩
  · intro d event e hheadless h
    rw [libuvDeliver_done hheadless.1] at h
    exact Option.some.inj h ▸ hheadless

end Runs

/-- The peer closes the connection behind the status line. -/
def earlyClose : List LibuvEvent := [.read startOfOk fun _ => 0, .eof fun _ => 0]

/-- `http_libuv_send` returns success, and `*res` is NULL. -/
theorem earlyClose_noResponse :
    ∃ d, Run (libuvDeliver realMemory false acceptAll) .init earlyClose d ∧
      d.state.done = true ∧ libuvSendReturns d.state = (0, none) := by
  have hroom : libuvAllocCb realMemory .init = some (libuvWaiting [] 8192) := rfl
  have hroom' : libuvAllocCb realMemory (libuvWaiting startOfOk 8192) =
      some (libuvWaiting startOfOk 8192) := rfl
  have hwaits : libuvParseHeaders realMemory false acceptAll (fun _ => 0)
      (libuvWaiting startOfOk 8192) = some (libuvWaiting startOfOk 8192) := by
    refine libuvParseHeaders_waits (by omega) (by decide) (staleHarmless_zeros (by decide) ?_)
    exact show 17 < 8192 by omega
  have hread : libuvStep realMemory false acceptAll .init (.read startOfOk fun _ => 0) =
      some (libuvWaiting startOfOk 8192) := by
    rw [(libuvStep_room rfl hroom startOfOk _).1,
      libuvOnRead_unparsed startOfOk _ (Nat.succ_ne_zero _) rfl]
    exact hwaits
  have heof : libuvStep realMemory false acceptAll (libuvWaiting startOfOk 8192) (.eof fun _ => 0) =
      some (libuvFinish (libuvWaiting startOfOk 8192) 0) := by
    rw [(libuvStep_room rfl hroom' [] _).2,
      libuvOnEof, hwaits, Option.map_some]
  have hfirst := libuvDeliver_running (d := .init) rfl hread
  have hlast := libuvDeliver_running
    (d := LibuvDelivery.init.after realMemory (.read startOfOk fun _ => 0)
      (libuvWaiting startOfOk 8192)) rfl heof
  exact ⟨_, (Run.start.next hfirst).next hlast, rfl, rfl⟩

end AbstractHttp.Transport
