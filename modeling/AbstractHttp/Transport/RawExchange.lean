import AbstractHttp.Transport.RawStreaming
import AbstractHttp.Transport.RequestText

/-!
# A whole exchange over the raw transport

`http_raw_send` from the URL to the response. The network decides whether there is a connection,
how much of what it is offered each call of `send` takes, and what each call of `recv` brings.
-/
namespace AbstractHttp.Transport
open Library Outcome Http

/-- What the network does during a call: the error with which the connection fails, how many bytes
the calls of `send` take, with `none` and 0 for a failure, and what is received. -/
structure RawNetwork where
  unreachable : Option ErrorCode
  takes : ℕ → Option ℕ
  recvs : List RecvResult

/-- The loop around `send` from its turn `t` on: the bytes that were taken, and the error. -/
def rawSendLoop (takes : ℕ → Option ℕ) (t : ℕ) (p : List UInt8) :
    List UInt8 × Option ErrorCode :=
  if p = [] then ([], none)
  else
    match takes t with
    | none => ([], some .io)
    | some n =>
      if _hn : min n p.length = 0 then ([], some .io)
      else
        let rest := rawSendLoop takes (t + 1) (p.drop (min n p.length))
        (p.take (min n p.length) ++ rest.1, rest.2)
termination_by p.length
decreasing_by
  rw [List.length_drop]
  omega

/-- What a call leaves: the bytes that went to the peer, the chunks that `on_chunk` was given, and
the response or the error. -/
structure RawExchange where
  wire : List UInt8
  chunks : List (List UInt8)
  result : Except ℤ HttpResponse

/-- A call that ends before anything is received. -/
def RawExchange.failed (wire : List UInt8) (e : ErrorCode) : RawExchange :=
  ⟨wire, [], .error e.value⟩

/-- `http_raw_send`. -/
def rawSend (requestAlloc : RequestAlloc) (alloc : ResponseAlloc) (net : RawNetwork)
    (answer : List (List UInt8) → ℤ) (req : HttpRequest) : RawExchange :=
  match rawParseUrl requestAlloc req.url with
  | .error e => .failed [] e
  | .ok url =>
    match net.unreachable with
    | some e => .failed [] e
    | none =>
      let built := rawBuild requestAlloc req url
      match built.failure with
      | some e => .failed [] e
      | none =>
        let (wire, rcSend) := rawSendLoop net.takes 0 built.state.text
        match rcSend with
        | some e => .failed wire e
        | none =>
          let (chunks, result) := rawRespond alloc req answer net.recvs
          ⟨wire, chunks, result⟩

section Sending

variable {takes : ℕ → Option ℕ}

/-- What is taken is a beginning of the text, and all of it unless a call fails. -/
theorem rawSendLoop_begins (takes : ℕ → Option ℕ) (t : ℕ) (p : List UInt8) :
    (rawSendLoop takes t p).1 <+: p ∧
      ((rawSendLoop takes t p).2 = none → (rawSendLoop takes t p).1 = p) := by
  fun_induction rawSendLoop takes t p with
  | case1 => exact ⟨List.prefix_rfl, fun _ => rfl⟩
  | case2 t p hp hfailed => exact ⟨List.nil_prefix, fun h => by cases h⟩
  | case3 t p hp n htakes hn => exact ⟨List.nil_prefix, fun h => by cases h⟩
  | case4 t p hp n htakes hn rest ih =>
    obtain ⟨hbegins, hall⟩ := ih
    have hsplit := List.take_append_drop (min n p.length) p
    refine ⟨?_, fun hnone => ?_⟩
    · have hboth := (List.prefix_append_right_inj (p.take (min n p.length))).mpr hbegins
      rwa [hsplit] at hboth
    · change p.take (min n p.length) ++ rest.1 = p
      rw [hall hnone, hsplit]

/-- A network that takes something at every call takes everything. -/
theorem rawSendLoop_taken (htakes : ∀ t, ∃ n, takes t = some n ∧ 0 < n) (t : ℕ)
    (p : List UInt8) : rawSendLoop takes t p = (p, none) := by
  fun_induction rawSendLoop takes t p with
  | case1 => rfl
  | case2 t p hp hfailed =>
    obtain ⟨n, hn, -⟩ := htakes t
    cases hn.symm.trans hfailed
  | case3 t p hp n hn hnone =>
    obtain ⟨n', hn', hpos⟩ := htakes t
    obtain rfl : n = n' := Option.some.inj (hn.symm.trans hn')
    have hlength := List.length_pos_iff.mpr hp
    omega
  | case4 t p hp n hn hsome rest ih =>
    rw [show rest = (p.drop (min n p.length), none) from ih, List.take_append_drop]

end Sending

section Exchange

variable {requestAlloc : RequestAlloc} {alloc : ResponseAlloc} {net : RawNetwork}
  {answer : List (List UInt8) → ℤ} {req : HttpRequest} {url : UrlParts}

/-- How a call ends: before the request is complete, with a beginning of its text sent, or with
what the response to all of it is. -/
theorem rawSend_cases (requestAlloc : RequestAlloc) (alloc : ResponseAlloc) (net : RawNetwork)
    (answer : List (List UInt8) → ℤ) (req : HttpRequest) :
    (∃ wire e, rawSend requestAlloc alloc net answer req = .failed wire e ∧
      wire <+: (rawRequest requestAlloc req).state.text) ∨
    (rawRequest requestAlloc req).failure = none ∧ net.unreachable = none ∧
      rawSend requestAlloc alloc net answer req =
        ⟨(rawRequest requestAlloc req).state.text, (rawRespond alloc req answer net.recvs).1,
          (rawRespond alloc req answer net.recvs).2⟩ := by
  rw [rawSend, rawRequest]
  cases rawParseUrl requestAlloc req.url with
  | error e => exact .inl ⟨[], e, rfl, List.nil_prefix⟩
  | ok url =>
    dsimp only
    cases net.unreachable with
    | some e => exact .inl ⟨[], e, rfl, List.nil_prefix⟩
    | none =>
      dsimp only
      cases hbuilt : (rawBuild requestAlloc req url).failure with
      | some e => exact .inl ⟨[], e, rfl, List.nil_prefix⟩
      | none =>
        obtain ⟨hbegins, hall⟩ :=
          rawSendLoop_begins net.takes 0 (rawBuild requestAlloc req url).state.text
        dsimp only
        cases hsent : (rawSendLoop net.takes 0 (rawBuild requestAlloc req url).state.text).2 with
        | some e => exact .inl ⟨_, e, rfl, hbegins⟩
        | none => exact .inr ⟨rfl, rfl, by rw [hall hsent]⟩

/-- A network that fails nowhere, and a request that can be built. -/
structure Reached (requestAlloc : RequestAlloc) (net : RawNetwork) (req : HttpRequest) : Prop where
  reachable : net.unreachable = none
  built : (rawRequest requestAlloc req).failure = none
  taken : ∀ t, ∃ n, net.takes t = some n ∧ 0 < n

theorem Reached.rawSend_eq (h : Reached requestAlloc net req) :
    rawSend requestAlloc alloc net answer req =
      ⟨(rawRequest requestAlloc req).state.text, (rawRespond alloc req answer net.recvs).1,
        (rawRespond alloc req answer net.recvs).2⟩ := by
  have hbuilt := h.built
  rw [rawSend, rawRequest]
  rw [rawRequest] at hbuilt
  cases hurl : rawParseUrl requestAlloc req.url with
  | error e =>
    rw [hurl] at hbuilt
    cases hbuilt
  | ok url =>
    rw [hurl] at hbuilt
    have hfailure : (rawBuild requestAlloc req url).failure = none := hbuilt
    dsimp only
    rw [h.reachable]
    dsimp only
    rw [hfailure]
    dsimp only
    rw [rawSendLoop_taken h.taken]

/-- A server that answers what it reads, however the bytes of both directions are cut, answers the
request that was meant, and its answer is the response. -/
theorem Reached.served (h : Reached requestAlloc net req)
    (hurl : rawParseUrl requestAlloc req.url = .ok url) (hfree : FreeOfDelimiters req url)
    (hreq : req.onChunk = false) {serve : RequestText → ResponseText}
    (seg : Segmentation (serve (rawSent req url)).text) (hrecvs : net.recvs = seg.results) :
    readRequest (rawSend requestAlloc grantResponse net answer req).wire =
        some (rawSent req url) ∧
      ∃ parsed, (rawSend requestAlloc grantResponse net answer req).result = .ok parsed ∧
        parsed.content = (Int32.ofInt (serve (rawSent req url)).statusCode,
          (serve (rawSent req url)).headers.map textHeader, (serve (rawSent req url)).body) := by
  rw [h.rawSend_eq, hrecvs]
  obtain ⟨parsed, hparsed, hcontent⟩ :=
    rawRespond_buffered req hreq answer (serve (rawSent req url)) seg
  refine ⟨?_, parsed, congrArg Prod.snd hparsed, hcontent⟩
  rw [rawRequest_eq hurl h.built, rawBuild_text]
  exact readRequest_text (rawSent_clean_iff.mpr hfree)

end Exchange

end AbstractHttp.Transport
