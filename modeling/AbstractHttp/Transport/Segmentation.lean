import AbstractHttp.EventStream.Numbers
import AbstractHttp.Transport.LibuvResponse

/-!
# Response streams in any segmentation in the libuv transport

The head is searched for with string functions over a block that nothing terminates.
Once it is found, what follows is handed on or appended piece by piece; before that, the
bytes behind the received ones count as if they had been received.
-/
namespace AbstractHttp.Transport
open Http EventStream Library

/-- The bytes of a stream up to the empty line, or all of them if there is none yet. -/
def headOf (stream : List UInt8) : List UInt8 :=
  match strstr stream headEnd with
  | some headerEnd => stream.take (headerEnd + 4)
  | none => stream

/-- A stream whose head has no NUL and, when it is complete, a digit behind its first space, as a
status line has. -/
structure ResponseStream (stream : List UInt8) : Prop where
  noNul : 0 ∉ headOf stream
  status : ∀ headerEnd, strstr stream headEnd = some headerEnd →
    ∃ i d, strchr stream space = some i ∧ i + 1 < headerEnd ∧ stream[i + 1]? = some d ∧
      isDigitByte d = true

/-- What the caller of a transfer gets: the error, the response if there is none, and the data
that `on_chunk` was given. -/
structure LibuvOutcome where
  error : ℤ
  response : Option (Int32 × List HttpHeader × List UInt8)
  streamed : List UInt8

def LibuvState.outcome (s : LibuvState) : LibuvOutcome where
  error := s.errorCode
  response := if s.errorCode ≠ 0 then none else s.res.map HttpResponse.content
  streamed := s.chunks.flatten

/-- Bytes of a read, and what `res_buf` holds behind them. -/
abbrev LibuvRead := List UInt8 × Memory UInt8

/-- The reads one by one, then the end of the stream. -/
def libuvTransfer (alloc : ResponseAlloc) (onChunk : Bool) (reads : List LibuvRead)
    (last : Memory UInt8) : Option LibuvOutcome :=
  (libuvRun alloc onChunk acceptAll .init
    (reads.map (fun x => .read x.1 x.2) ++ [.eof last])).map LibuvState.outcome

/-- The whole stream in one read into a block of zeros, then its end. -/
def libuvWhole (alloc : ResponseAlloc) (onChunk : Bool) (stream : List UInt8) :
    Option LibuvOutcome :=
  ((libuvOnRead alloc onChunk acceptAll stream (fun _ => 0)
    { LibuvState.init with resCap := stream.length + 1 }).bind
      (libuvOnEof alloc onChunk acceptAll fun _ => 0)).map LibuvState.outcome

/-- While no head is complete, the bytes behind the received ones have a NUL and complete none
before it. -/
def StaleHarmless (received : List UInt8) (cap : ℕ) (rest : Memory UInt8) : Prop :=
  let stale := rest.read received.length (cap - received.length)
  strstr received headEnd = none →
    0 ∈ stale ∧ strstr (cString (received ++ stale)) headEnd = none

/-- That at every read, the block growing as it does, and at the end of the stream. -/
def AllHarmless : List UInt8 → ℕ → List LibuvRead → Memory UInt8 → Prop
  | received, cap, [], last => StaleHarmless received (libuvRoom cap received.length) last
  | received, cap, (bytes, rest) :: reads, last =>
    StaleHarmless (received ++ bytes) (libuvRoom cap received.length) rest ∧
      AllHarmless (received ++ bytes) (libuvRoom cap received.length) reads last

/-- Enough memory for a stream, whatever way it arrives. -/
def Suffices (alloc : ResponseAlloc) (stream : List UInt8) : Prop :=
  ∀ b n, n ≤ 2 * stream.length + 8192 → alloc b n = true

/-! The head of a stream, read with anything behind it. -/

theorem atoi_digit_append {d : UInt8} (s t : List UInt8) (h : isDigitByte d = true) :
    atoi (d :: s ++ cr :: t) = atoi (d :: s) := by
  have hcr : isDigitByte cr = false := by decide
  have hdigits : (d :: s ++ cr :: t).takeWhile isDigitByte = (d :: s).takeWhile isDigitByte := by
    generalize d :: s = u
    induction u with
    | nil => simp [hcr]
    | cons b u ih =>
      rw [List.cons_append, List.takeWhile_cons, List.takeWhile_cons, ih]
  rw [List.cons_append, atoi_of_digit h, atoi_of_digit h, ← List.cons_append, hdigits]

theorem headEnd_length : headEnd.length = 4 := rfl

theorem headOf_of_found {stream : List UInt8} {headerEnd : ℕ}
    (hfound : strstr stream headEnd = some headerEnd) :
    headOf stream = stream.take (headerEnd + 4) := by
  rw [headOf, hfound]

/-- A complete head ends in an empty line. -/
theorem headOf_getElem {stream : List UInt8} {headerEnd : ℕ}
    (hfound : strstr stream headEnd = some headerEnd) {k : ℕ} (hk : k < 4) :
    (stream.take (headerEnd + 4))[headerEnd + k]? = headEnd[k]? := by
  obtain ⟨more, hmore⟩ := search_found hfound
  rw [List.getElem?_take_of_lt (by omega), ← List.getElem?_drop, ← hmore,
    List.getElem?_append_left (by rw [headEnd_length]; exact hk)]

/-- A number ends before the line it stands in does. -/
theorem atoi_line {text : List UInt8} {d : UInt8} {k : ℕ} (hd : text[0]? = some d)
    (hdigit : isDigitByte d = true) (hk : 0 < k) (hcr : text[k]? = some cr) (t : List UInt8) :
    atoi (text ++ t) = atoi (text.take k) := by
  cases text with
  | nil => cases hd
  | cons b text =>
    obtain rfl := Option.some.inj hd
    obtain ⟨k, rfl⟩ := Nat.exists_eq_add_one.mpr hk
    rw [List.getElem?_cons_succ] at hcr
    have hcut := cut_at hcr
    have hsplit : b :: text ++ t = b :: text.take k ++ cr :: (text.drop (k + 1) ++ t) := by
      rw [List.cons_append, List.cons_append]
      congr 1
      rw [← List.cons_append, ← List.append_assoc, ← hcut]
    rw [hsplit, atoi_digit_append _ _ hdigit, List.take_succ_cons]

/-- The status is the number in the head, whatever the block holds behind it. -/
theorem atoi_behind {head : List UInt8} {headerEnd start : ℕ} {d : UInt8} (hnul : 0 ∉ head)
    (hcr : head[headerEnd]? = some cr) (hd : head[start]? = some d) (hdigit : isDigitByte d = true)
    (hlt : start < headerEnd) (t : List UInt8) :
    atoi (cString ((head ++ t).drop start)) =
      atoi ((head.drop start).take (headerEnd - start)) := by
  have hstart : start < head.length := (List.getElem?_eq_some_iff.mp hd).1
  have hnulRest : 0 ∉ head.drop start := fun hmem => hnul (List.mem_of_mem_drop hmem)
  have hfirst : (head.drop start)[0]? = some d := by rw [List.getElem?_drop, ← hd, Nat.add_zero]
  have hend : (head.drop start)[headerEnd - start]? = some cr := by
    rw [List.getElem?_drop, ← hcr, Nat.add_sub_cancel' hlt.le]
  rw [List.drop_append_of_le_length hstart.le, cString_append _ hnulRest]
  exact atoi_line hfirst hdigit (by omega) hend _

/-- So are the header lines those of the head. -/
theorem headerLines_behind (alloc : ResponseAlloc) {head : List UInt8} {headerEnd start : ℕ}
    (hnul : 0 ∉ head) (hcr : head[headerEnd]? = some cr) (hstart : start ≤ head.length) :
    ∃ headers, ∀ t,
      libuvHeaderLines alloc ((head ++ t).drop start) (headerEnd - start) .init = some headers := by
  by_cases hmore : headerEnd - start = 0
  · exact ⟨.init, fun t => by rw [libuvHeaderLines, dif_pos hmore]⟩
  · have hend : (head.drop start)[headerEnd - start]? = some cr := by
      rw [List.getElem?_drop, ← hcr]
      congr 1
      omega
    obtain ⟨headers, hheaders⟩ := libuvHeaderLines_append alloc .init
      (fun hmem => hnul (List.mem_of_mem_drop hmem)) hend
    refine ⟨headers, fun t => ?_⟩
    rw [List.drop_append_of_le_length hstart, hheaders]

/-- Nothing behind a head changes what is read from it. -/
theorem libuvReadHead_append (alloc : ResponseAlloc) {stream : List UInt8} {headerEnd : ℕ}
    (hstream : ResponseStream stream) (hfound : strstr stream headEnd = some headerEnd) :
    ∃ head, (head.body = none ∧ head.bodyLen = 0) ∧
      ∀ t, libuvReadHead alloc (stream.take (headerEnd + 4) ++ t) headerEnd = some head := by
  obtain ⟨i, d, hspace, hlt, hd, hdigit⟩ := hstream.status headerEnd hfound
  have hnul : 0 ∉ stream.take (headerEnd + 4) := headOf_of_found hfound ▸ hstream.noNul
  have hcr : (stream.take (headerEnd + 4))[headerEnd]? = some cr :=
    headOf_getElem hfound (show 0 < 4 by omega)
  have hlf : (stream.take (headerEnd + 4))[headerEnd + 1]? = some lf :=
    headOf_getElem hfound (show 1 < 4 by omega)
  have hspaceHead := strchr_take hspace (show i < headerEnd + 4 by omega)
  have hdHead : (stream.take (headerEnd + 4))[i + 1]? = some d := by
    rw [List.getElem?_take_of_lt (by omega), hd]
  generalize stream.take (headerEnd + 4) = head at hnul hcr hlf hspaceHead hdHead ⊢
  obtain ⟨j, -, hlfHead⟩ := strchr_le hlf
  have hjlt := strchr_lt hlfHead
  have hstatus := atoi_behind hnul hcr hdHead hdigit hlt
  obtain ⟨headers, hheaders⟩ := headerLines_behind alloc hnul hcr (Nat.succ_le_of_lt hjlt)
  refine ⟨{ HttpResponse.init with
      statusCode := Int32.ofInt (atoi ((head.drop (i + 1)).take (headerEnd - (i + 1))))
      headers := headers }, ⟨rfl, rfl⟩, fun t => ?_⟩
  have hnumber : numberInBlock ((head ++ t).drop (i + 1)) =
      some (atoi (cString ((head ++ t).drop (i + 1)))) := by
    obtain ⟨hilt, rfl⟩ := List.getElem?_eq_some_iff.mp hdHead
    have hmem : cr ∈ head.drop (i + 2) := by
      refine List.mem_of_getElem? (i := headerEnd - (i + 2)) ?_
      rw [List.getElem?_drop, ← hcr]
      congr 1
      omega
    rw [List.drop_append_of_le_length hilt.le, ← List.getElem_cons_drop hilt, List.cons_append]
    exact numberInBlock_of_digit hdigit ⟨cr, List.mem_append_left _ hmem, by decide⟩
  rw [libuvReadHead, cString_append _ hnul, strchr_append _ hspaceHead, inBlock_some,
    Option.bind_some, Option.elim_some, hnumber, Option.bind_some, strchr_append _ hlfHead,
    Option.bind_some]
  dsimp only
  rw [hstatus, hheaders, Option.map_some]

/-! What has been received of a stream. -/

section Received

variable {stream received : List UInt8}

theorem strstr_of_received (hpre : received <+: stream) {headerEnd : ℕ}
    (hfound : strstr received headEnd = some headerEnd) :
    strstr stream headEnd = some headerEnd ∧
      received = stream.take (headerEnd + 4) ++ received.drop (headerEnd + 4) := by
  obtain ⟨more, rfl⟩ := hpre
  have hle : headerEnd + 4 ≤ received.length := search_le hfound
  refine ⟨search_append more hfound, ?_⟩
  rw [List.take_append_of_le_length hle, List.take_append_drop]

theorem received_noNul (hstream : ResponseStream stream) (hpre : received <+: stream)
    (hnone : strstr received headEnd = none) : 0 ∉ received := by
  have hpart : received <+: headOf stream := by
    cases hfound : strstr stream headEnd with
    | none => rwa [headOf, hfound]
    | some headerEnd =>
      rw [headOf_of_found hfound]
      obtain ⟨more, rfl⟩ := hpre
      refine List.prefix_of_prefix_length_le (List.prefix_append _ _) (List.take_prefix _ _) ?_
      have hle : headerEnd + 4 ≤ (received ++ more).length := search_le hfound
      rw [List.length_take, Nat.min_eq_left hle]
      by_contra hlong
      have hearly : strstr received headEnd = some headerEnd :=
        search_of_append hfound (by rw [headEnd_length]; omega)
      rw [hearly] at hnone
      cases hnone
  exact fun hmem => hstream.noNul (hpart.subset hmem)

end Received

/-- The transfer before a head is complete. -/
def libuvWaiting (received : List UInt8) (cap : ℕ) : LibuvState :=
  { LibuvState.init with filled := received, resCap := cap }

section Waiting

variable {alloc : ResponseAlloc} {onChunk : Bool} {stream received : List UInt8} {cap : ℕ}
  {rest : Memory UInt8}

theorem cString_waiting (hnul : 0 ∉ received) :
    cString ((libuvWaiting received cap).block rest) =
      received ++ cString (rest.read received.length (cap - received.length)) :=
  cString_append _ hnul

/-- The head completed: parsing goes by the received bytes alone. -/
theorem libuvParseHeaders_complete (hstream : ResponseStream stream)
    (hpre : received <+: stream) (hcap : cap ≠ 0) {headerEnd : ℕ}
    (hfound : strstr received headEnd = some headerEnd)
    (hresponse : alloc .response responseSize = true)
    (hbody : alloc .body (((received.drop (headerEnd + 4)).length + 1) % 2 ^ 64) = true)
    {head : HttpResponse} (hhead : head.body = none ∧ head.bodyLen = 0)
    (hread : ∀ t, libuvReadHead alloc (stream.take (headerEnd + 4) ++ t) headerEnd = some head) :
    ∃ s, libuvParseHeaders alloc onChunk acceptAll rest (libuvWaiting received cap) = some s ∧
      LibuvStreams onChunk head (received.drop (headerEnd + 4)) s ∧
      s.filled.length ≤ received.length := by
  obtain ⟨hstreamFound, hsplit⟩ := strstr_of_received hpre hfound
  have hnul : 0 ∉ stream.take (headerEnd + 4) := headOf_of_found hstreamFound ▸ hstream.noNul
  have hle : headerEnd + 4 ≤ received.length := search_le hfound
  have hblock : (libuvWaiting received cap).block rest = stream.take (headerEnd + 4) ++
      (received.drop (headerEnd + 4) ++ rest.read received.length (cap - received.length)) := by
    rw [← List.append_assoc, ← hsplit]
    rfl
  have hstring : strstr (cString ((libuvWaiting received cap).block rest)) headEnd =
      some headerEnd := by
    have hlong : headerEnd + headEnd.length ≤ (stream.take (headerEnd + 4)).length := by
      rw [headEnd_length, List.length_take]
      have hstreamLe : headerEnd + 4 ≤ stream.length := search_le hstreamFound
      omega
    rw [hblock, cString_append _ hnul]
    apply search_append
    rw [hsplit] at hfound
    exact search_of_append hfound hlong
  obtain ⟨s, htake, hstreams, hshort⟩ : ∃ s, libuvTakeBody alloc onChunk acceptAll (headerEnd + 4)
      head { libuvWaiting received cap with headersParsed := true } = some s ∧
      LibuvStreams onChunk head (received.drop (headerEnd + 4)) s ∧
      s.filled.length ≤ received.length :=
    libuvTakeBody_streams hle hbody hhead rfl rfl rfl hcap rfl
  refine ⟨s, ?_, hstreams, hshort⟩
  rw [libuvParseHeaders_found hcap rfl hresponse hstring, hblock, hread, Option.bind_some]
  exact htake

/-- The head incomplete and nothing behind it that would complete it. -/
theorem libuvParseHeaders_waits (hcap : cap ≠ 0) (hnone : strstr received headEnd = none)
    (hharmless : StaleHarmless received cap rest) :
    libuvParseHeaders alloc onChunk acceptAll rest (libuvWaiting received cap) =
      some (libuvWaiting received cap) := by
  obtain ⟨hzero, hquiet⟩ := hharmless hnone
  have hunfound : strstr (cString ((libuvWaiting received cap).block rest)) headEnd = none := hquiet
  rw [libuvParseHeaders_unfound hcap rfl hunfound]
  exact if_pos (List.mem_append_right _ hzero)

variable (onChunk) in
/-- The head incomplete, and stale bytes that complete it or on which the search runs off. -/
theorem libuvParseHeaders_broken (hcap : cap ≠ 0) (hnul : 0 ∉ received)
    (hresponse : alloc .response responseSize = true)
    (hnone : strstr received headEnd = none) (hharmful : ¬ StaleHarmless received cap rest) :
    Broken (libuvParseHeaders alloc onChunk acceptAll rest (libuvWaiting received cap)) := by
  cases hfound : strstr (cString ((libuvWaiting received cap).block rest)) headEnd with
  | none =>
    have hunended : 0 ∉ (libuvWaiting received cap).block rest := by
      intro hmem
      refine hharmful fun _ => ⟨?_, hfound⟩
      exact (List.mem_append.mp hmem).resolve_left hnul
    rw [libuvParseHeaders_unfound hcap rfl hfound, if_neg hunended]
    simp [Broken]
  | some headerEnd =>
    -- The occurrence does not lie among the received bytes.
    have hbeyond : received.length < headerEnd + 4 := by
      by_contra hwithin
      rw [cString_waiting hnul] at hfound
      have hearly : strstr received headEnd = some headerEnd :=
        search_of_append hfound (by rw [headEnd_length]; omega)
      rw [hearly] at hnone
      cases hnone
    rw [libuvParseHeaders_found hcap rfl hresponse hfound]
    intro s hs
    obtain ⟨head, -, htake⟩ := Option.bind_eq_some_iff.mp hs
    exact libuvTakeBody_broken hbeyond rfl s htake

end Waiting

/-! From a complete head to the end of the stream. -/

theorem libuvRoom_ne_zero (cap len : ℕ) : libuvRoom cap len ≠ 0 := by
  rw [libuvRoom]
  split_ifs <;> omega

theorem libuvAllocCb_suffices {alloc : ResponseAlloc} {stream : List UInt8} {s : LibuvState}
    (halloc : Suffices alloc stream) (hshort : s.filled.length ≤ stream.length) :
    libuvAllocCb alloc s = some { s with resCap := libuvRoom s.resCap s.filled.length } := by
  rw [libuvAllocCb]
  apply if_pos
  by_cases hgrows : s.resCap - s.filled.length < 4096
  · right
    apply halloc
    rw [libuvRoom, if_pos hgrows]
    split <;> omega
  · left
    rw [libuvRoom, if_neg hgrows]

/-- The outcome of a transfer that got this head and this body. -/
def streamOutcome (onChunk : Bool) (head : HttpResponse) (body : List UInt8) : LibuvOutcome where
  error := 0
  response := some (head.statusCode, head.headers.headers, if onChunk then [] else body)
  streamed := if onChunk then body else []

section Streaming

variable {alloc : ResponseAlloc} {onChunk : Bool} {stream body : List UInt8}
  {head : HttpResponse} {s : LibuvState}

theorem LibuvStreams.read (halloc : Suffices alloc stream)
    (hs : LibuvStreams onChunk head body s) (bytes : List UInt8) (rest : Memory UInt8)
    (hfilled : s.filled.length ≤ stream.length)
    (hbody : body.length + bytes.length ≤ stream.length) :
    ∃ s', libuvStep alloc onChunk acceptAll s (.read bytes rest) = some s' ∧
      LibuvStreams onChunk head (body ++ bytes) s' ∧
      s'.filled.length ≤ s.filled.length + bytes.length := by
  obtain ⟨hparsed, hrunning, hsuccess, hcap, hchunks, r, hres, hlen, hcontent⟩ := hs
  have hroom := libuvRoom_ne_zero s.resCap s.filled.length
  rw [libuvStep, if_neg (by simp [hrunning]), libuvAllocCb_suffices halloc hfilled]
  dsimp only
  rw [libuvOnRead, if_neg hroom]
  dsimp only
  rw [if_neg (by simp [hparsed])]
  cases onChunk with
  | true =>
    rw [if_pos rfl, libuvChunk_acceptAll]
    refine ⟨_, rfl, ⟨hparsed, hrunning, hsuccess, hroom, ?_, r, hres, hlen, hcontent⟩, ?_⟩
    · simp [hchunks]
    · exact Nat.le_add_right _ _
  | false =>
    have hall : r.body.getD [] = body := by
      have htake := (Prod.mk.inj (Prod.mk.inj hcontent).2).2
      rwa [hlen, List.take_length, if_neg Bool.false_ne_true] at htake
    have hgrant : alloc .body (r.bodyLen + bytes.length + 1) = true :=
      halloc _ _ (by rw [hlen, hall]; omega)
    rw [if_neg Bool.false_ne_true, libuvExtendBody, hres, Option.map_some, hgrant, if_pos rfl]
    refine ⟨_, rfl, ⟨hparsed, hrunning, hsuccess, hroom, ?_, _, rfl, ?_, ?_⟩, ?_⟩
    · simp [hchunks]
    · simp [hlen]
    · simp only [HttpResponse.content, Prod.mk.injEq] at hcontent ⊢
      refine ⟨hcontent.1, hcontent.2.1, ?_⟩
      rw [Option.getD_some, hlen, ← List.length_append, List.take_length, hall]
      rfl
    · rw [List.length_append]

theorem LibuvStreams.onEof (hs : LibuvStreams onChunk head body s) (rest : Memory UInt8) :
    (libuvOnEof alloc onChunk acceptAll rest s).map LibuvState.outcome =
      some (streamOutcome onChunk head body) := by
  obtain ⟨hparsed, hrunning, hsuccess, -, hchunks, r, hres, -, hcontent⟩ := hs
  rw [libuvOnEof, libuvParseHeaders, if_pos hparsed, Option.map_some, Option.map_some,
    libuvFinish, if_neg (by simp [hrunning])]
  simp [LibuvState.outcome, streamOutcome, hres, hcontent, hchunks]

theorem LibuvStreams.eof (halloc : Suffices alloc stream)
    (hs : LibuvStreams onChunk head body s) (rest : Memory UInt8)
    (hfilled : s.filled.length ≤ stream.length) :
    (libuvStep alloc onChunk acceptAll s (.eof rest)).map LibuvState.outcome =
      some (streamOutcome onChunk head body) := by
  have hgrown : LibuvStreams onChunk head body
      { s with resCap := libuvRoom s.resCap s.filled.length } :=
    ⟨hs.parsed, hs.running, hs.success, libuvRoom_ne_zero _ _, hs.chunks, hs.response⟩
  rw [libuvStep, if_neg (by simp [hs.running]), libuvAllocCb_suffices halloc hfilled]
  exact hgrown.onEof rest

theorem LibuvStreams.run (halloc : Suffices alloc stream) (reads : List LibuvRead)
    (last : Memory UInt8) (hs : LibuvStreams onChunk head body s) {n : ℕ}
    (hfilled : s.filled.length ≤ n) (hbody : body.length ≤ n)
    (hn : n + (reads.map Prod.fst).flatten.length ≤ stream.length) :
    (libuvRun alloc onChunk acceptAll s
      (reads.map (fun x => .read x.1 x.2) ++ [.eof last])).map LibuvState.outcome =
        some (streamOutcome onChunk head (body ++ (reads.map Prod.fst).flatten)) := by
  induction reads generalizing s body n with
  | nil =>
    have hend := hs.eof halloc last (by omega)
    simpa [libuvRun] using hend
  | cons x reads ih =>
    obtain ⟨bytes, rest⟩ := x
    rw [List.map_cons, List.flatten_cons, List.length_append] at hn
    dsimp only at hn
    obtain ⟨s', hstep, hs', hfilled'⟩ := hs.read halloc bytes rest (by omega) (by omega)
    have hrest := ih hs' (n := n + bytes.length) (by omega) (by rw [List.length_append]; omega)
      (by omega)
    rw [libuvRun, List.map_cons, List.cons_append, List.foldlM_cons, hstep]
    rw [List.append_assoc] at hrest
    exact hrest

end Streaming

/-! From the start of a stream. -/

/-- The outcome of a transfer that got no complete head. -/
def headlessOutcome : LibuvOutcome := ⟨0, none, []⟩

theorem libuvRun_done {alloc : ResponseAlloc} {onChunk : Bool} {s : LibuvState}
    (h : s.done = true) (events : List LibuvEvent) :
    libuvRun alloc onChunk acceptAll s events = some s := by
  induction events with
  | nil => rfl
  | cons event events ih =>
    rw [libuvRun, List.foldlM_cons, libuvStep.eq_def, if_pos h]
    exact ih

/-- A broken transfer is no success. -/
theorem Broken.outcome_ne {o : Option LibuvState} (h : Broken o) {outcome : LibuvOutcome}
    (hsuccess : outcome.error = 0) : o.map LibuvState.outcome ≠ some outcome := by
  cases o with
  | none => exact Option.some_ne_none outcome |>.symm
  | some s =>
    rw [Option.map_some, Ne, Option.some.injEq]
    intro heq
    exact (h s rfl).2 ((congrArg LibuvOutcome.error heq).trans hsuccess)

/-- It stays broken. -/
theorem Broken.run {o : Option LibuvState} (h : Broken o) (alloc : ResponseAlloc) (onChunk : Bool)
    (events : List LibuvEvent) :
    Broken (o.bind fun s => libuvRun alloc onChunk acceptAll s events) := by
  intro t ht
  obtain ⟨s, hs, hrun⟩ := Option.bind_eq_some_iff.mp ht
  rw [libuvRun_done (h s hs).1] at hrun
  obtain rfl := Option.some.inj hrun
  exact h s hs

theorem Broken.finish {o : Option LibuvState} (h : Broken o) (error : ℤ) :
    Broken (o.map (libuvFinish · error)) := by
  intro t ht
  obtain ⟨s, hs, rfl⟩ := Option.map_eq_some_iff.mp ht
  rw [libuvFinish, if_pos (h s hs).1]
  exact h s hs

section Whole

variable {alloc : ResponseAlloc} {onChunk : Bool} {stream : List UInt8}

theorem libuvWaiting_onEof {received : List UInt8} {cap : ℕ} {rest : Memory UInt8} (hcap : cap ≠ 0)
    (hnone : strstr received headEnd = none) (hharmless : StaleHarmless received cap rest) :
    (libuvOnEof alloc onChunk acceptAll rest (libuvWaiting received cap)).map LibuvState.outcome =
      some headlessOutcome := by
  rw [libuvOnEof, libuvParseHeaders_waits hcap hnone hharmless]
  rfl

theorem staleHarmless_zeros {received : List UInt8} {cap : ℕ} (hnul : 0 ∉ received)
    (hcap : received.length < cap) : StaleHarmless received cap fun _ => 0 := by
  obtain ⟨k, hk⟩ : ∃ k, cap - received.length = 1 + k := ⟨cap - received.length - 1, by omega⟩
  have hzeros : Memory.read (fun _ => (0 : UInt8)) received.length (cap - received.length) =
      0 :: Memory.read (fun _ => 0) (received.length + 1) k := by
    rw [hk, Memory.read_add]
    rfl
  intro hnone
  rw [hzeros, cString_nul _ hnul]
  exact ⟨List.mem_cons_self .., hnone⟩

theorem libuvWhole_eq : libuvWhole alloc onChunk stream =
    ((libuvParseHeaders alloc onChunk acceptAll (fun _ => 0)
      (libuvWaiting stream (stream.length + 1))).bind
        (libuvOnEof alloc onChunk acceptAll fun _ => 0)).map LibuvState.outcome := by
  rw [libuvWhole, libuvOnRead_unparsed _ _ (Nat.succ_ne_zero _) rfl]
  rfl

theorem libuvWhole_headless (hstream : ResponseStream stream)
    (hnone : strstr stream headEnd = none) :
    libuvWhole alloc onChunk stream = some headlessOutcome := by
  have hharmless := staleHarmless_zeros (received_noNul hstream List.prefix_rfl hnone)
    (Nat.lt_succ_self stream.length)
  rw [libuvWhole_eq, libuvParseHeaders_waits (Nat.succ_ne_zero _) hnone hharmless,
    Option.bind_some, libuvWaiting_onEof (Nat.succ_ne_zero _) hnone hharmless]

/-- Enough memory for what `parse_headers` allocates. -/
theorem Suffices.parse (halloc : Suffices alloc stream) {received : List UInt8}
    (hpre : received <+: stream) (hdrLen : ℕ) :
    alloc .response responseSize = true ∧
      alloc .body (((received.drop hdrLen).length + 1) % 2 ^ 64) = true := by
  have hle := hpre.length_le
  constructor
  · exact halloc _ _ (by rw [responseSize]; omega)
  · apply halloc
    have hmod := Nat.mod_le ((received.drop hdrLen).length + 1) (2 ^ 64)
    rw [List.length_drop] at hmod ⊢
    omega

theorem libuvWhole_complete (halloc : Suffices alloc stream) (hstream : ResponseStream stream)
    {headerEnd : ℕ} (hfound : strstr stream headEnd = some headerEnd) {head : HttpResponse}
    (hhead : head.body = none ∧ head.bodyLen = 0)
    (hread : ∀ t, libuvReadHead alloc (stream.take (headerEnd + 4) ++ t) headerEnd = some head) :
    libuvWhole alloc onChunk stream =
      some (streamOutcome onChunk head (stream.drop (headerEnd + 4))) := by
  obtain ⟨hresponse, hbody⟩ := halloc.parse List.prefix_rfl (headerEnd + 4)
  obtain ⟨s, hparse, hs, -⟩ : ∃ s, libuvParseHeaders alloc onChunk acceptAll (fun _ => 0)
      (libuvWaiting stream (stream.length + 1)) = some s ∧
      LibuvStreams onChunk head (stream.drop (headerEnd + 4)) s ∧
      s.filled.length ≤ stream.length :=
    libuvParseHeaders_complete hstream List.prefix_rfl (Nat.succ_ne_zero _) hfound hresponse hbody
      hhead hread
  rw [libuvWhole_eq, hparse, Option.bind_some, hs.onEof]

/-- A completed head leaves nothing to harm. -/
theorem allHarmless_of_found {received : List UInt8} {headerEnd : ℕ}
    (hfound : strstr received headEnd = some headerEnd) (cap : ℕ) (reads : List LibuvRead)
    (last : Memory UInt8) : AllHarmless received cap reads last := by
  have hvacuous : ∀ more cap rest, StaleHarmless (received ++ more) cap rest := by
    intro more cap rest hnone
    have hstill : strstr (received ++ more) headEnd = some headerEnd := search_append more hfound
    rw [hstill] at hnone
    cases hnone
  induction reads generalizing received cap with
  | nil => simpa [AllHarmless] using hvacuous [] _ last
  | cons x reads ih =>
    refine ⟨hvacuous _ _ _, ih (search_append x.1 hfound) _ fun more => ?_⟩
    rw [List.append_assoc]
    exact hvacuous (x.1 ++ more)

variable (onChunk) in
/-- The end of the stream with the head incomplete. -/
theorem waiting_eof_iff (halloc : Suffices alloc stream) (hstream : ResponseStream stream)
    (last : Memory UInt8) (cap : ℕ) (hnone : strstr stream headEnd = none) :
    (libuvStep alloc onChunk acceptAll (libuvWaiting stream cap) (.eof last)).map
        LibuvState.outcome = libuvWhole alloc onChunk stream ↔
      StaleHarmless stream (libuvRoom cap stream.length) last := by
  have hroom := libuvRoom_ne_zero cap stream.length
  have hnul := received_noNul hstream List.prefix_rfl hnone
  have hgrown : libuvAllocCb alloc (libuvWaiting stream cap) =
      some (libuvWaiting stream (libuvRoom cap stream.length)) :=
    libuvAllocCb_suffices halloc le_rfl
  have hstep : libuvStep alloc onChunk acceptAll (libuvWaiting stream cap) (.eof last) =
      libuvOnEof alloc onChunk acceptAll last
        (libuvWaiting stream (libuvRoom cap stream.length)) := by
    rw [libuvStep, hgrown]
    rfl
  rw [libuvWhole_headless hstream hnone, hstep]
  by_cases hharmless : StaleHarmless stream (libuvRoom cap stream.length) last
  · exact iff_of_true (libuvWaiting_onEof hroom hnone hharmless) hharmless
  · refine iff_of_false ?_ hharmless
    have hbroken : Broken (libuvOnEof alloc onChunk acceptAll last
        (libuvWaiting stream (libuvRoom cap stream.length))) :=
      (libuvParseHeaders_broken onChunk hroom hnul (halloc.parse List.prefix_rfl 0).1 hnone
        hharmless).finish 0
    exact hbroken.outcome_ne rfl

theorem libuvStep_waiting (halloc : Suffices alloc stream) {received : List UInt8}
    (hpre : received <+: stream) (cap : ℕ) (bytes : List UInt8) (rest : Memory UInt8) :
    libuvStep alloc onChunk acceptAll (libuvWaiting received cap) (.read bytes rest) =
      libuvParseHeaders alloc onChunk acceptAll rest
        (libuvWaiting (received ++ bytes) (libuvRoom cap received.length)) := by
  have hgrown : libuvAllocCb alloc (libuvWaiting received cap) =
      some (libuvWaiting received (libuvRoom cap received.length)) :=
    libuvAllocCb_suffices halloc hpre.length_le
  rw [libuvStep, hgrown]
  exact libuvOnRead_unparsed bytes rest (libuvRoom_ne_zero _ _) rfl

variable (onChunk) in
theorem libuvWhole_success (halloc : Suffices alloc stream) (hstream : ResponseStream stream) :
    ∃ outcome, libuvWhole alloc onChunk stream = some outcome ∧ outcome.error = 0 := by
  cases hfound : strstr stream headEnd with
  | none => exact ⟨_, libuvWhole_headless hstream hfound, rfl⟩
  | some headerEnd =>
    obtain ⟨head, hhead, hread⟩ := libuvReadHead_append alloc hstream hfound
    exact ⟨_, libuvWhole_complete halloc hstream hfound hhead hread, rfl⟩

/-- The read that completes the head, and the reads after it. -/
theorem waiting_complete (halloc : Suffices alloc stream) (hstream : ResponseStream stream)
    (reads : List LibuvRead) (last rest : Memory UInt8) {received : List UInt8} {cap headerEnd : ℕ}
    (hcap : cap ≠ 0) (hfound : strstr received headEnd = some headerEnd)
    (hreads : received ++ (reads.map Prod.fst).flatten = stream) :
    ((libuvParseHeaders alloc onChunk acceptAll rest (libuvWaiting received cap)).bind fun s =>
      libuvRun alloc onChunk acceptAll s
        (reads.map (fun x => .read x.1 x.2) ++ [.eof last])).map LibuvState.outcome =
      libuvWhole alloc onChunk stream := by
  have hpre : received <+: stream := ⟨_, hreads⟩
  obtain ⟨hstreamFound, -⟩ := strstr_of_received hpre hfound
  obtain ⟨head, hhead, hread⟩ := libuvReadHead_append alloc hstream hstreamFound
  obtain ⟨hresponse, hbody⟩ := halloc.parse hpre (headerEnd + 4)
  obtain ⟨s, hparse, hs, hfilled⟩ : ∃ s, libuvParseHeaders alloc onChunk acceptAll rest
      (libuvWaiting received cap) = some s ∧
      LibuvStreams onChunk head (received.drop (headerEnd + 4)) s ∧
      s.filled.length ≤ received.length :=
    libuvParseHeaders_complete hstream hpre hcap hfound hresponse hbody hhead hread
  have hle : headerEnd + 4 ≤ received.length := search_le hfound
  have hall : received.drop (headerEnd + 4) ++ (reads.map Prod.fst).flatten =
      stream.drop (headerEnd + 4) := by
    rw [← hreads, List.drop_append_of_le_length hle]
  have hdrop : (received.drop (headerEnd + 4)).length ≤ received.length := by
    rw [List.length_drop]
    omega
  have hlength : received.length + (reads.map Prod.fst).flatten.length ≤ stream.length := by
    rw [← hreads, List.length_append]
  rw [hparse, Option.bind_some, hs.run halloc reads last hfilled hdrop hlength, hall,
    libuvWhole_complete halloc hstream hstreamFound hhead hread]

/-- The first read of a transfer that waits, and the others behind it. -/
theorem waiting_run_cons (halloc : Suffices alloc stream) {received : List UInt8}
    (hbefore : received <+: stream) (bytes : List UInt8) (rest : Memory UInt8)
    (reads : List LibuvRead) (last : Memory UInt8) (cap : ℕ) :
    libuvRun alloc onChunk acceptAll (libuvWaiting received cap)
      (((bytes, rest) :: reads).map (fun x => .read x.1 x.2) ++ [.eof last]) =
      (libuvParseHeaders alloc onChunk acceptAll rest
        (libuvWaiting (received ++ bytes) (libuvRoom cap received.length))).bind fun s =>
          libuvRun alloc onChunk acceptAll s
            (reads.map (fun x => .read x.1 x.2) ++ [.eof last]) := by
  rw [libuvRun, List.map_cons, List.cons_append, List.foldlM_cons,
    libuvStep_waiting halloc hbefore]
  rfl

/-- The transfer up to the read that completes the head, by induction on the reads. -/
theorem waiting_run_iff (halloc : Suffices alloc stream) (hstream : ResponseStream stream)
    (reads : List LibuvRead) (last : Memory UInt8) {received : List UInt8} (cap : ℕ)
    (hnone : strstr received headEnd = none)
    (hreads : received ++ (reads.map Prod.fst).flatten = stream) :
    (libuvRun alloc onChunk acceptAll (libuvWaiting received cap)
      (reads.map (fun x => .read x.1 x.2) ++ [.eof last])).map LibuvState.outcome =
        libuvWhole alloc onChunk stream ↔ AllHarmless received cap reads last := by
  induction reads generalizing received cap with
  | nil =>
    obtain rfl : received = stream := by simpa using hreads
    have heof := waiting_eof_iff onChunk halloc hstream last cap hnone
    simpa [libuvRun, AllHarmless] using heof
  | cons x reads ih =>
    obtain ⟨bytes, rest⟩ := x
    rw [List.map_cons, List.flatten_cons, ← List.append_assoc] at hreads
    have hpre : received ++ bytes <+: stream := ⟨_, hreads⟩
    have hbefore : received <+: stream := (List.prefix_append _ _).trans hpre
    have hroom := libuvRoom_ne_zero cap received.length
    rw [waiting_run_cons halloc hbefore, AllHarmless]
    cases hfound : strstr (received ++ bytes) headEnd with
    | some headerEnd =>
      have hlater := allHarmless_of_found hfound (libuvRoom cap received.length)
      refine iff_of_true (waiting_complete halloc hstream reads last rest hroom hfound hreads)
        ⟨fun hnone' => ?_, hlater reads last⟩
      rw [hfound] at hnone'
      cases hnone'
    | none =>
      by_cases hharmless : StaleHarmless (received ++ bytes) (libuvRoom cap received.length) rest
      · rw [libuvParseHeaders_waits hroom hfound hharmless, Option.bind_some,
          ih (libuvRoom cap received.length) hfound hreads]
        exact (and_iff_right hharmless).symm
      · have hnul := received_noNul hstream hpre hfound
        have hresponse := (halloc.parse hpre 0).1
        obtain ⟨outcome, hwhole, hsuccess⟩ := libuvWhole_success onChunk halloc hstream
        have hbroken := (libuvParseHeaders_broken onChunk hroom hnul hresponse hfound
          hharmless).run alloc onChunk (reads.map (fun x => .read x.1 x.2) ++ [.eof last])
        rw [hwhole]
        exact iff_of_false (hbroken.outcome_ne hsuccess) fun h => hharmless h.1

end Whole

/-- A response in the format is such a stream. -/
theorem responseStream_text (r : ResponseText) : ResponseStream r.text := by
  have hlength := head_length r
  have hfound : strstr r.text headEnd = some (r.head.length - 2) := r.search_text
  have hstatus : r.statusLine.length = 13 + r.reason.length := by
    simp only [ResponseText.statusLine, ResponseText.statusDigits, List.length_append,
      List.length_cons, List.length_nil]
    have hpre : statusPrefix.length = 7 := rfl
    omega
  constructor
  · have hcrlf : 0 ∉ [cr, lf] := by decide
    have hend : r.head.length - 2 + 4 = r.head.length + 2 := by omega
    have htake : r.text.take (r.head.length + 2) = r.head ++ [cr, lf] := by
      rw [ResponseText.text, List.take_append, List.take_of_length_le (by omega)]
      simp
    rw [headOf_of_found hfound, hend, htake, List.mem_append]
    exact not_or.mpr ⟨r.head_noNul, hcrlf⟩
  · intro headerEnd hheaderEnd
    obtain rfl := Option.some.inj (hfound.symm.trans hheaderEnd)
    have hsplit : r.text = (statusPrefix ++ [digitByte r.minor]) ++ space ::
        (digitByte r.status.1 :: ([digitByte r.status.2.1, digitByte r.status.2.2] ++
          space :: r.reason ++ cr :: lf :: (fieldLines r ++ cr :: lf :: r.body))) := by
      have htext := text_append r []
      simp only [List.append_nil] at htext
      rw [htext]
      simp [ResponseText.statusLine, ResponseText.statusDigits]
    have hbefore : space ∉ statusPrefix ++ [digitByte r.minor] := by
      generalize r.minor = d
      revert d
      decide
    refine ⟨8, digitByte r.status.1, ?_, by omega, ?_, (digitByte_digit _).1⟩
    · rw [hsplit]
      exact strchr_first _ hbefore
    · rw [hsplit]
      rfl

/-- The outcome is that of the stream as a whole exactly when no read, while the head is incomplete,
finds bytes behind the received ones that complete it or no NUL at all. -/
theorem libuvTransfer_iff {alloc : ResponseAlloc} {stream : List UInt8}
    (halloc : Suffices alloc stream) (hstream : ResponseStream stream) (onChunk : Bool)
    (reads : List LibuvRead) (last : Memory UInt8)
    (hreads : (reads.map Prod.fst).flatten = stream) :
    libuvTransfer alloc onChunk reads last = libuvWhole alloc onChunk stream ↔
      AllHarmless [] 0 reads last :=
  waiting_run_iff halloc hstream reads last 0 rfl hreads

/-- `HTTP/1.0 200 OK`, no headers, no body, up to the empty line. -/
def startOfOk : List UInt8 := statusPrefix ++ asciiBytes ['0', ' ', '2', '0', '0', ' ', 'O', 'K'] ++ crlf

def okStream : List UInt8 := startOfOk ++ crlf

theorem okStream_stream : ResponseStream okStream where
  noNul := by decide
  status headerEnd hfound := by
    obtain rfl : 15 = headerEnd := Option.some.inj hfound
    exact ⟨8, 0x32, by decide, by decide, by decide, by decide⟩

/-- Memory of which a block of 256 TiB is not to be had. -/
def realMemory : ResponseAlloc := fun _ n => decide (n < 2 ^ 48)

theorem realMemory_okStream : Suffices realMemory okStream := by
  intro b n hn
  have hlength : okStream.length = 19 := rfl
  rw [realMemory, decide_eq_true_eq]
  omega

theorem libuvTransfer_iff_example :
    libuvTransfer realMemory true [(startOfOk, fun _ => 0), (crlf, fun _ => 0)] (fun _ => 0) =
      libuvWhole realMemory true okStream := by
  refine (libuvTransfer_iff realMemory_okStream okStream_stream true _ _ rfl).mpr ?_
  have hroom : libuvRoom 0 0 = 8192 := rfl
  have hstart : startOfOk.length = 17 := rfl
  have hfound : strstr ([] ++ startOfOk ++ crlf) headEnd = some 15 := rfl
  refine ⟨staleHarmless_zeros (by decide) ?_, fun hnone => ?_, ?_⟩
  · rw [List.nil_append, List.length_nil, hroom, hstart]
    decide
  · rw [hfound] at hnone
    cases hnone
  · exact allHarmless_of_found hfound _ [] _

/-- What `malloc` may give for `res_buf`: CR and LF at offsets 17 and 18. -/
def leftover : Memory UInt8 := fun i => if i = 17 then cr else if i = 18 then lf else 0

/-- The leftover bytes complete the head before the peer does. -/
theorem leftover_completes :
    libuvTransfer realMemory false [(startOfOk, leftover), (crlf, fun _ => 0)] (fun _ => 0) ≠
      libuvWhole realMemory false okStream := by
  intro hequal
  have hreads : [] ++ ([(startOfOk, leftover), (crlf, fun _ => 0)].map Prod.fst).flatten =
      okStream := rfl
  have hall := (waiting_run_iff realMemory_okStream okStream_stream _ _ 0 rfl hreads).mp hequal
  have hquiet := (hall.1 (by decide)).2
  have hstale : Memory.read leftover (startOfOk.length) (8192 - startOfOk.length) =
      crlf ++ Memory.read leftover 19 8173 := by
    have hlength : startOfOk.length = 17 := rfl
    rw [hlength]
    exact (Memory.read_cut leftover 17 (show 2 ≤ 8175 by omega)).symm
  have hfound : strstr (startOfOk ++ crlf) headEnd = some 15 := rfl
  have hnul : 0 ∉ startOfOk ++ crlf := by decide
  have hroom : libuvRoom 0 ([] : List UInt8).length = 8192 := rfl
  rw [hroom, List.nil_append, hstale, ← List.append_assoc, cString_append _ hnul,
    show strstr _ headEnd = some 15 from search_append _ hfound] at hquiet
  cases hquiet

end AbstractHttp.Transport
