import AbstractHttp.Http.Types

/-!
# Streams of the Apple transport

CFNetwork calls `apple_stream_cb` for each event of a stream until the request is
done; `apple_extract_response` then fills the response in.  URLs that begin with
`http://fail_` are test hooks of the sources and left out.
-/
namespace AbstractHttp.Transport
open Http

/-- `CFStreamEventType`. With bytes available comes what `CFReadStreamRead` then reads, `none` for a
negative result, and whether `CFDataCreateMutable` makes a buffer. -/
inductive StreamEvent where
  | hasBytesAvailable (read : Option (List UInt8)) (created : Bool)
  | errorOccurred
  | endEncountered
  deriving DecidableEq

/-- `struct AppleReqState`, with the blocks that `on_chunk` has been given. -/
structure AppleReqState where
  bodyData : Option (List UInt8)
  passed : List (List UInt8)
  error : ℤ
  done : Bool
  deriving DecidableEq

/-- After `memset`. -/
def AppleReqState.zero : AppleReqState := ⟨none, [], 0, false⟩

/-- `on_chunk`, if the request has one: what it returns for a block depends on the blocks so far. -/
abbrev OnChunk := Option (List (List UInt8) → ℤ)

/-- `apple_stream_cb` as far as the state of the request goes. -/
def appleStreamCb (onChunk : OnChunk) (state : AppleReqState) (type : StreamEvent) :
    AppleReqState :=
  if state.done then state
  else
    match type with
    | .hasBytesAvailable none _ => { state with error := ErrorCode.io.value, done := true }
    | .hasBytesAvailable (some []) _ => state
    | .hasBytesAvailable (some (b :: bs)) created =>
      match onChunk with
      | some onChunk =>
        let state := { state with passed := state.passed ++ [b :: bs] }
        let rc := onChunk state.passed
        if rc ≠ 0 then { state with error := rc, done := true } else state
      | none =>
        -- A buffer is made for every block, and the one before is forgotten.
        let state := { state with bodyData := if created then some [] else none }
        match state.bodyData with
        | some data => { state with bodyData := some (data ++ b :: bs) }
        | none => { state with error := ErrorCode.nomem.value, done := true }
    | .errorOccurred => { state with error := ErrorCode.io.value, done := true }
    | .endEncountered => { state with done := true }

/-- The state after a stream's events. -/
def appleStream (onChunk : OnChunk) (events : List StreamEvent) : AppleReqState :=
  events.foldl (appleStreamCb onChunk) .zero

/-- `apple_extract_response`: the response and the code. `status` is the status code of the
response header, if there is one, and `granted` whether `malloc` makes the body. -/
def appleExtractResponse (granted : Bool) (status : Option Int32) (state : AppleReqState)
    (res : HttpResponse) : HttpResponse × ℤ :=
  let res := status.elim res fun code => { res with statusCode := code }
  match state.bodyData with
  | some data =>
    if granted then ({ res with body := some (data ++ [0]), bodyLen := data.length }, 0)
    else ({ res with body := none }, ErrorCode.nomem.value)
  | none => (res, 0)

/-- `http_apple_send` from the stream's opening on, with no result while the run loop runs. -/
def appleSend (onChunk : OnChunk) (granted : Bool) (status : Option Int32)
    (events : List StreamEvent) : Option (Except ℤ HttpResponse) :=
  let state := appleStream onChunk events
  if state.done then
    if state.error ≠ 0 then some (.error state.error)
    else
      let (res, rc) := appleExtractResponse granted status state .init
      if rc ≠ 0 then some (.error rc) else some (.ok res)
  else none

/-- The events of a stream that delivers these blocks and ends, memory being there for each. -/
def blockEvents (blocks : List (List UInt8)) : List StreamEvent :=
  blocks.map (fun block => .hasBytesAvailable (some block) true) ++ [.endEncountered]

/-- The blocks that `CFReadStreamRead` can deliver into a buffer of 8192 bytes. -/
def ReadBlocks (blocks : List (List UInt8)) : Prop :=
  ∀ block ∈ blocks, 1 ≤ block.length ∧ block.length ≤ 8192

/-- The body of a response is this string. -/
def HasBody (res : HttpResponse) (bytes : List UInt8) : Prop :=
  (res.body.getD []).take res.bodyLen = bytes ∧ res.bodyLen = bytes.length

section Blocks

variable {blocks : List (List UInt8)} {block : List UInt8}

theorem appleStream_append (onChunk : OnChunk) (events : List StreamEvent) (type : StreamEvent) :
    appleStream onChunk (events ++ [type]) =
      appleStreamCb onChunk (appleStream onChunk events) type := by
  rw [appleStream, List.foldl_append]
  rfl

/-- A request that is done ignores further events. -/
theorem appleStreamCb_of_done {onChunk : OnChunk} {state : AppleReqState} (h : state.done = true)
    (type : StreamEvent) : appleStreamCb onChunk state type = state := if_pos h

/-- A block replaces what came before it. -/
theorem appleStream_blocks (h : ReadBlocks blocks) :
    appleStream none (blocks.map fun block => .hasBytesAvailable (some block) true) =
      ⟨blocks.getLast?, [], 0, false⟩ := by
  induction blocks using List.reverseRecOn with
  | nil => rfl
  | append_singleton blocks block ih =>
    have hblock := (h block (by simp)).1
    obtain ⟨b, bs, rfl⟩ := List.exists_cons_of_length_pos hblock
    rw [List.map_append, List.map_singleton, appleStream_append,
      ih fun block hmem => h block (List.mem_append_left _ hmem)]
    simp [appleStreamCb]

/-- Blocks are passed on to an `on_chunk` that returns 0, all of them in order. -/
theorem appleStream_passed (h : ReadBlocks blocks) :
    appleStream (some fun _ => 0) (blocks.map fun block => .hasBytesAvailable (some block) true) =
      ⟨none, blocks, 0, false⟩ := by
  induction blocks using List.reverseRecOn with
  | nil => rfl
  | append_singleton blocks block ih =>
    have hblock := (h block (by simp)).1
    obtain ⟨b, bs, rfl⟩ := List.exists_cons_of_length_pos hblock
    rw [List.map_append, List.map_singleton, appleStream_append,
      ih fun block hmem => h block (List.mem_append_left _ hmem)]
    simp [appleStreamCb]

theorem appleStream_blockEvents (h : ReadBlocks blocks) :
    appleStream none (blockEvents blocks) = ⟨blocks.getLast?, [], 0, true⟩ := by
  rw [blockEvents, appleStream_append, appleStream_blocks h]
  rfl

theorem appleStream_blockEvents_passed (h : ReadBlocks blocks) :
    (appleStream (some fun _ => 0) (blockEvents blocks)).passed = blocks := by
  rw [blockEvents, appleStream_append, appleStream_passed h]
  rfl

/-- The last block is the whole string only where there is no other block. -/
theorem getLast?_eq_flatten_iff (h : ReadBlocks blocks) :
    blocks.getLast?.getD [] = blocks.flatten ↔ blocks.length ≤ 1 := by
  rcases blocks.eq_nil_or_concat with rfl | ⟨front, last, rfl⟩
  · simp
  · rw [List.concat_eq_append] at *
    simp only [List.getLast?_append, List.getLast?_singleton, Option.some_or, Option.getD_some,
      List.flatten_append, List.flatten_singleton, List.length_append, List.length_singleton]
    constructor
    · intro hsame
      have hempty : ∀ block ∈ front, block = [] :=
        List.flatten_eq_nil_iff.mp (List.self_eq_append_left.mp hsame)
      rcases front with _ | ⟨block, front⟩
      · simp
      · have hpos := (h block (by simp)).1
        rw [hempty block (by simp)] at hpos
        simp at hpos
    · intro hlen
      obtain rfl : front = [] := List.length_eq_zero_iff.mp (by omega)
      rfl

/-- With memory for it, the buffer of the state becomes the body. -/
theorem hasBody_appleExtractResponse (status : Option Int32) (state : AppleReqState)
    (bytes : List UInt8) :
    (appleExtractResponse true status state .init).2 = 0 ∧
      (HasBody (appleExtractResponse true status state .init).1 bytes ↔
        state.bodyData.getD [] = bytes) := by
  have hinit : HasBody (status.elim .init fun code => { HttpResponse.init with statusCode := code })
      bytes ↔ [] = bytes := by
    rw [HasBody]
    cases status with
    | none => simp [HttpResponse.init, eq_comm]
    | some code => simp [HttpResponse.init, eq_comm]
  rw [appleExtractResponse]
  cases state.bodyData with
  | none => exact ⟨rfl, hinit⟩
  | some data =>
    refine ⟨rfl, ?_⟩
    simp only [HasBody, if_true, Option.getD_some, List.take_left']
    constructor
    · exact And.left
    · rintro rfl
      exact ⟨rfl, rfl⟩

/-- What is extracted from a stream of blocks is the last of them. -/
theorem appleExtractResponse_blocks (status : Option Int32) (h : ReadBlocks blocks) :
    HasBody (appleExtractResponse true status (appleStream none (blockEvents blocks)) .init).1
      blocks.flatten ↔ blocks.length ≤ 1 := by
  rw [(hasBody_appleExtractResponse status _ _).2, appleStream_blockEvents h,
    getLast?_eq_flatten_iff h]

/-- `http_apple_send` stores the blocks of a stream exactly when there is at most one. -/
theorem appleSend_body_iff (status : Option Int32) (h : ReadBlocks blocks) :
    (∃ res, appleSend none true status (blockEvents blocks) = some (.ok res) ∧
      HasBody res blocks.flatten) ↔ blocks.length ≤ 1 := by
  rw [← appleExtractResponse_blocks status h]
  have hrc := (hasBody_appleExtractResponse status (appleStream none (blockEvents blocks)) []).1
  have hsend : appleSend none true status (blockEvents blocks) = some (.ok
      (appleExtractResponse true status (appleStream none (blockEvents blocks)) .init).1) := by
    rw [appleSend]
    simp only [hrc]
    simp [appleStream_blockEvents h]
  rw [hsend]
  constructor
  · rintro ⟨res, hres, hbody⟩
    rw [Except.ok.inj (Option.some.inj hres)]
    exact hbody
  · exact fun hbody => ⟨_, rfl, hbody⟩

end Blocks

end AbstractHttp.Transport
