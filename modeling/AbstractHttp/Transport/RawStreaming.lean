import AbstractHttp.Transport.RawResponse

/-!
# Streaming in the raw transport

With `on_chunk` set, the receive loop passes on whatever arrives, the head included,
and nothing is parsed.
-/
namespace AbstractHttp.Transport
open Http EventStream Library

/-- A stream as successive calls of `recv` deliver it. -/
structure Segmentation (stream : List UInt8) where
  segments : List Segment
  whole : (segments.map Segment.bytes).flatten = stream

def Segmentation.results {stream : List UInt8} (seg : Segmentation stream) : List RecvResult :=
  seg.segments.map .data

theorem rawReceive_streamed (alloc : ResponseAlloc) (segments : List Segment) (s : RawReceived) :
    rawReceive alloc true acceptAll (segments.map .data) s =
      ({ s with chunks := s.chunks ++ segments.map Segment.bytes }, 0) := by
  induction segments generalizing s with
  | nil => simp [rawReceive]
  | cons segment segments ih =>
    rw [List.map_cons, rawReceive, if_pos rfl]
    dsimp only
    rw [if_neg (by simp [acceptAll]), ih]
    simp

theorem rawGather_granted (s : RawReceived) (bytes : List UInt8) :
    ∃ cap, rawGather grantResponse s bytes =
      .ok { s with body := s.body ++ bytes, bodyCap := cap } := by
  rw [rawGather]
  split
  · exact ⟨_, rfl⟩
  · exact ⟨_, rfl⟩

theorem rawReceive_gathered (answer : List (List UInt8) → ℤ) (segments : List Segment)
    (s : RawReceived) :
    ∃ cap, rawReceive grantResponse false answer (segments.map .data) s =
      ({ s with body := s.body ++ (segments.map Segment.bytes).flatten, bodyCap := cap }, 0) := by
  induction segments generalizing s with
  | nil => exact ⟨s.bodyCap, by simp [rawReceive]⟩
  | cons segment segments ih =>
    obtain ⟨cap, hgather⟩ := rawGather_granted s segment.bytes
    obtain ⟨cap', hrest⟩ := ih { s with body := s.body ++ segment.bytes, bodyCap := cap }
    refine ⟨cap', ?_⟩
    rw [List.map_cons, rawReceive, if_neg Bool.false_ne_true, hgather]
    dsimp only
    rw [hrest]
    simp

/-- What `on_chunk` is handed, and the response: nothing of the stream goes into it. -/
theorem rawRespond_streamed {alloc : ResponseAlloc} {req : HttpRequest} (hreq : req.onChunk = true)
    (hresponse : alloc .response responseSize = true)
    (hbuffer : alloc .buffer RawReceived.init.bodyCap = true) {stream : List UInt8}
    (seg : Segmentation stream) :
    rawRespond alloc req acceptAll seg.results =
      (seg.segments.map Segment.bytes, .ok .init) := by
  rw [rawRespond, hresponse, hbuffer, hreq, Segmentation.results, rawReceive_streamed]
  rfl

/-- Without `on_chunk`, the whole stream is parsed, however it arrived. -/
theorem rawRespond_buffered (req : HttpRequest) (hreq : req.onChunk = false)
    (answer : List (List UInt8) → ℤ) (r : ResponseText) (seg : Segmentation r.text) :
    ∃ parsed, rawRespond grantResponse req answer seg.results = ([], .ok parsed) ∧
      parsed.content = (Int32.ofInt r.statusCode, r.headers.map textHeader, r.body) := by
  obtain ⟨cap, hreceive⟩ := rawReceive_gathered answer seg.segments .init
  obtain ⟨parsed, hparse, hcontent⟩ := rawParse_text r
  refine ⟨parsed, ?_, hcontent⟩
  have hpos : 0 < r.text.length := by simp [ResponseText.text]
  have hgranted : ∀ b n, grantResponse b n = true := fun _ _ => rfl
  rw [rawRespond, Segmentation.results, hreq, hreceive, seg.whole]
  simp only [hgranted, Bool.true_eq_false, if_false, ne_eq, not_true_eq_false, RawReceived.init,
    List.nil_append, hpos, and_self, if_true, hparse]
  rfl

/-- The chunks are the body, and the response has the status and the headers that it has when
nothing is streamed. -/
def RawStreamingAgrees (alloc : ResponseAlloc) (req : HttpRequest) (r : ResponseText)
    (seg : Segmentation r.text) : Prop :=
  let streamed := rawRespond alloc { req with onChunk := true } acceptAll seg.results
  let buffered := rawRespond alloc { req with onChunk := false } acceptAll seg.results
  streamed.1.flatten = r.body ∧ ∃ parsed parsed', streamed.2 = .ok parsed ∧
    buffered.2 = .ok parsed' ∧ parsed.statusCode = parsed'.statusCode ∧
      parsed.headers.headers = parsed'.headers.headers

theorem text_ne_body (r : ResponseText) : r.text ≠ r.body := by
  intro heq
  have hlength := congrArg List.length heq
  simp only [ResponseText.text, List.length_append, List.length_cons] at hlength
  omega

/-- The head of a response is never empty, and it is among the chunks. -/
theorem rawStreaming_disagrees (alloc : ResponseAlloc) (req : HttpRequest) (r : ResponseText)
    (seg : Segmentation r.text) : ¬ RawStreamingAgrees alloc req r seg := by
  rintro ⟨hchunks, parsed, -, hparsed, -⟩
  by_cases hresponse : alloc .response responseSize = true
  · by_cases hbuffer : alloc .buffer RawReceived.init.bodyCap = true
    · rw [rawRespond_streamed rfl hresponse hbuffer seg, seg.whole] at hchunks
      exact text_ne_body r hchunks
    · simp [rawRespond, hresponse, hbuffer] at hparsed
  · simp [rawRespond, hresponse] at hparsed

/-- `HTTP/1.0 200 OK`, no headers, the body `hi`. -/
def greetingResponse : ResponseText where
  minor := 0
  status := (2, 0, 0)
  reason := asciiBytes ['O', 'K']
  headers := []
  body := asciiBytes ['h', 'i']
  reasonClean := List.forall_iff_forall_mem.mp (by decide)
  namesClean := by simp
  valuesClean := by simp

def greetingSegment : Segment := ⟨greetingResponse.text, by decide, by decide⟩

def greetingArrives : Segmentation greetingResponse.text := ⟨[greetingSegment], by decide⟩

/-- The chunk holds the head. -/
theorem greeting_streamed_with_head :
    ¬ RawStreamingAgrees grantResponse .init greetingResponse greetingArrives := by
  rintro ⟨hchunks, -⟩
  revert hchunks
  decide

end AbstractHttp.Transport
