import AbstractHttp.Library.Stores
import AbstractHttp.Process.Serialize

/-!
# The estimated size of a message

`est_size` is summed up field by field before the block is allocated, the header
count and the length of the body in another place than they are written.  The
fields are stored one behind the other, so their lengths say how far they reach.
-/
namespace AbstractHttp.Process
open Library Outcome Http

/-- `est_size` of a request before it is cut to a `size_t`. -/
def requestTotal (req : HttpRequest) : ℕ :=
  sizeofInt + sizeofSize + (sizeofSize + strLength req.url) + sizeofSize +
    headersEst req.headers + req.bodyLen

/-- `est_size` of a response before it is cut to a `size_t`. -/
def responseTotal (res : HttpResponse) : ℕ :=
  sizeofInt + sizeofSize + sizeofSize + headersEst res.headers + res.bodyLen

/-- A request whose body pointer is NULL or stands before these bytes, of which `body_len` are
copied. -/
def withRequestBody (req : HttpRequest) (body : Option (Memory UInt8)) : HttpRequest :=
  { req with body := body.map fun m => m.read 0 req.bodyLen }

/-- The same of a response. -/
def withResponseBody (res : HttpResponse) (body : Option (Memory UInt8)) : HttpResponse :=
  { res with body := body.map fun m => m.read 0 res.bodyLen }

/-- The byte at an offset of the block is stored by one of these stores. -/
def StoredAt (stores : List Extent) (i : ℕ) : Prop :=
  ∃ e ∈ stores, e.start ≤ i ∧ i < e.start + e.len

/-- A call stores only within the block of `est` bytes that it asks for, and stores every byte of it
and returns its whole length exactly when the condition holds. -/
structure FillsBlock (malloc : ℕ → Bool) (est : ℕ) (condition : Prop) (o : IpcOutcome) : Prop where
  within : ∀ e ∈ o.output, e.capacity = est ∧ e.InBounds
  stored_iff : malloc est = true → ((∀ i < est, StoredAt o.output i) ↔ condition)
  length_iff : malloc est = true → (o.state.length = est ↔ condition)

section Stores
variable {estSize : ℕ} {write write' : List UInt8 → IpcOutcome} {bs : List UInt8}

/-- A write stores from the cursor to where it leaves the cursor. -/
def StoresInOrder (estSize : ℕ) (write : List UInt8 → IpcOutcome) : Prop :=
  ∀ buf, Consecutive estSize buf.length (write buf).output (write buf).state.length

theorem storesInOrder_done (estSize : ℕ) : StoresInOrder estSize done :=
  fun buf => .nil buf.length

theorem storesInOrder_put (estSize : ℕ) (bs : List UInt8) :
    StoresInOrder estSize (put estSize bs) := by
  intro buf
  rw [put, List.length_append]
  exact .single estSize buf.length bs.length

theorem StoresInOrder.andThen (h : StoresInOrder estSize write) (happends : Appends write bs)
    (h' : StoresInOrder estSize write') :
    StoresInOrder estSize fun buf => (write buf).andThen write' := by
  intro buf
  simp only [andThen_of_none (happends buf).1]
  exact (h buf).append (h' (write buf).state)

theorem fillsBlock_of_stores (happends : Appends write bs) (hstores : StoresInOrder estSize write)
    (hle : bs.length ≤ estSize) {condition : Prop} (hfull : bs.length = estSize ↔ condition)
    (malloc : ℕ → Bool) :
    FillsBlock malloc estSize condition
      (if malloc estSize then write [] else fail [] [] .nomem) := by
  have hrun := hstores []
  have hlength : (write []).state.length = bs.length := by rw [(happends []).2, List.nil_append]
  rw [hlength, List.length_nil] at hrun
  cases hmalloc : malloc estSize with
  | false =>
    refine ⟨fun e he => ?_, fun h => ?_, fun h => ?_⟩
    · cases he
    · cases hmalloc.symm.trans h
    · cases hmalloc.symm.trans h
  | true =>
    rw [if_pos rfl]
    refine ⟨fun e he => ⟨(hrun.between he).2.2, hrun.inBounds hle he⟩, fun _ => ?_, fun _ => ?_⟩
    · rw [← hfull]
      simp only [StoredAt, hrun.stored_iff, Nat.zero_le, true_and]
      refine ⟨fun hall => le_antisymm hle (not_lt.mp fun hlt => ?_), fun heq i hi => heq ▸ hi⟩
      exact lt_irrefl _ (hall bs.length hlt)
    · rw [hlength, hfull]

end Stores

section Fields
variable (order : ByteOrder) (estSize : ℕ)

theorem storesInOrder_writeStr (str : Option CString) :
    StoresInOrder estSize (writeStr order estSize str) := by
  apply (storesInOrder_put estSize _).andThen (appends_writeSize order estSize (strLength str))
  cases str with
  | none => exact storesInOrder_done estSize
  | some s =>
    intro buf
    by_cases h : s.length > 0
    · simp only [if_pos h]
      exact storesInOrder_put estSize s.bytes buf
    · simp only [if_neg h]
      exact storesInOrder_done estSize buf

theorem storesInOrder_writeHeaders (hs : List HttpHeader) :
    StoresInOrder estSize (writeHeaders order estSize hs) := by
  induction hs with
  | nil => exact storesInOrder_done estSize
  | cons h hs ih =>
    have hkey := appends_writeStr order estSize h.key
    have hvalue := appends_writeStr order estSize h.value
    exact ((storesInOrder_writeStr order estSize h.key).andThen hkey
      (storesInOrder_writeStr order estSize h.value)).andThen (hkey.andThen hvalue) ih

theorem storesInOrder_writeHeaderList (headers : HttpHeaders) :
    StoresInOrder estSize (writeHeaderList order estSize headers) :=
  (storesInOrder_put estSize _).andThen (appends_writeSize order estSize headers.count)
    (storesInOrder_writeHeaders order estSize headers.headers)

theorem storesInOrder_writeBody (body : Option (List UInt8)) (bodyLen : ℕ) :
    StoresInOrder estSize (writeBody order estSize body bodyLen) := by
  apply (storesInOrder_put estSize _).andThen (appends_writeSize order estSize bodyLen)
  cases body with
  | none => exact storesInOrder_done estSize
  | some bs =>
    intro buf
    by_cases h : bodyLen > 0
    · simp only [if_pos h]
      exact storesInOrder_put estSize _ buf
    · simp only [if_neg h]
      exact storesInOrder_done estSize buf

theorem storesInOrder_writeRequest (req : HttpRequest) :
    StoresInOrder estSize (writeRequest order estSize req) := by
  have hint := appends_writeInt order estSize req.method.code
  have hurl := appends_writeStr order estSize req.url
  have hheaders := appends_writeHeaderList order estSize req.headers
  exact (((storesInOrder_put estSize _).andThen hint
    (storesInOrder_writeStr order estSize req.url)).andThen (hint.andThen hurl)
      (storesInOrder_writeHeaderList order estSize req.headers)).andThen
        ((hint.andThen hurl).andThen hheaders)
          (storesInOrder_writeBody order estSize req.body req.bodyLen)

theorem storesInOrder_writeResponse (res : HttpResponse) :
    StoresInOrder estSize (writeResponse order estSize res) := by
  have hint := appends_writeInt order estSize res.statusCode
  have hheaders := appends_writeHeaderList order estSize res.headers
  exact ((storesInOrder_put estSize _).andThen hint
    (storesInOrder_writeHeaderList order estSize res.headers)).andThen (hint.andThen hheaders)
      (storesInOrder_writeBody order estSize res.body res.bodyLen)

theorem strBytes_length (str : Option CString) :
    (strBytes order str).length = sizeofSize + strLength str := by
  rw [strBytes, List.length_append, sizeBytes, ByteOrder.toBytes_length]
  cases str <;> rfl

theorem headersBytes_length (headers : HttpHeaders) :
    (headersBytes order headers.headers).length = headersEst headers := by
  rw [headersBytes, headersEst, List.length_flatMap]
  simp only [List.length_append, strBytes_length]

theorem tailBytes_length (headers : HttpHeaders) (body : Option (Memory UInt8)) (bodyLen : ℕ) :
    (tailBytes order headers (body.map fun m => m.read 0 bodyLen) bodyLen).length =
      sizeofSize + headersEst headers + sizeofSize + if body = none then 0 else bodyLen := by
  simp only [tailBytes, bodyBytes, List.length_append, headersBytes_length, sizeBytes,
    ByteOrder.toBytes_length]
  cases body <;> simp [Nat.add_assoc]

end Fields

theorem bodyCopied_le (body : Option (Memory UInt8)) (bodyLen : ℕ) :
    (if body = none then 0 else bodyLen) ≤ bodyLen := by
  split
  · exact Nat.zero_le _
  · exact le_rfl

/-- What is left out when the body pointer is NULL is the whole body. -/
theorem add_body_eq_iff {body : Option (Memory UInt8)} {n bodyLen : ℕ} :
    (n + if body = none then 0 else bodyLen) = n + bodyLen ↔ body ≠ none ∨ bodyLen = 0 := by
  by_cases h : body = none
  · simp [h]
  · simp [h]

theorem requestBytes_length (order : ByteOrder) (req : HttpRequest)
    (body : Option (Memory UInt8)) :
    (intBytes order req.method.code ++ (strBytes order req.url ++
      tailBytes order req.headers (body.map fun m => m.read 0 req.bodyLen) req.bodyLen)).length =
      (sizeofInt + sizeofSize + (sizeofSize + strLength req.url) + sizeofSize +
        headersEst req.headers) + if body = none then 0 else req.bodyLen := by
  rw [List.length_append, List.length_append, strBytes_length, tailBytes_length, intBytes,
    ByteOrder.toBytes_length]
  omega

theorem responseBytes_length (order : ByteOrder) (res : HttpResponse)
    (body : Option (Memory UInt8)) :
    (intBytes order res.statusCode ++
      tailBytes order res.headers (body.map fun m => m.read 0 res.bodyLen) res.bodyLen).length =
      (sizeofInt + sizeofSize + sizeofSize + headersEst res.headers) +
        if body = none then 0 else res.bodyLen := by
  rw [List.length_append, tailBytes_length, intBytes, ByteOrder.toBytes_length]
  omega

/-- Where the estimate does not wrap around, neither function stores beyond it, and both fill the
block exactly when the body pointer is given or there is no body to copy. -/
theorem serialize_fillsBlock (order : ByteOrder) (malloc : ℕ → Bool) (req : HttpRequest)
    (res : HttpResponse) (reqBody resBody : Option (Memory UInt8))
    (hreq : requestTotal req < 2 ^ 64) (hres : responseTotal res < 2 ^ 64) :
    FillsBlock malloc (requestEst req) (reqBody ≠ none ∨ req.bodyLen = 0)
        (serializeRequest order malloc (withRequestBody req reqBody)) ∧
      FillsBlock malloc (responseEst res) (resBody ≠ none ∨ res.bodyLen = 0)
        (serializeResponse order malloc (withResponseBody res resBody)) := by
  have hreqEst : requestEst req = requestTotal req := Nat.mod_eq_of_lt hreq
  have hresEst : responseEst res = responseTotal res := Nat.mod_eq_of_lt hres
  constructor
  · have hlength := requestBytes_length order req reqBody
    refine fillsBlock_of_stores (appends_writeRequest order _ (withRequestBody req reqBody))
      (storesInOrder_writeRequest order _ _) ?_ ?_ malloc
    · refine hlength.le.trans ?_
      rw [hreqEst, requestTotal]
      exact Nat.add_le_add_left (bodyCopied_le reqBody req.bodyLen) _
    · rw [hreqEst]
      exact (Eq.congr_left hlength).trans add_body_eq_iff
  · have hlength := responseBytes_length order res resBody
    refine fillsBlock_of_stores (appends_writeResponse order _ (withResponseBody res resBody))
      (storesInOrder_writeResponse order _ _) ?_ ?_ malloc
    · refine hlength.le.trans ?_
      rw [hresEst, responseTotal]
      exact Nat.add_le_add_left (bodyCopied_le resBody res.bodyLen) _
    · rw [hresEst]
      exact (Eq.congr_left hlength).trans add_body_eq_iff

/-- A request with a header that has no name, and with a NULL body of three bytes. -/
def requestWithoutBody : HttpRequest :=
  { HttpRequest.init with headers := ⟨[⟨none, some (.ofBytes [0x62])⟩], 1⟩, bodyLen := 3 }

/-- A response with a body of two bytes. -/
def responseWithBody : HttpResponse := { HttpResponse.init with bodyLen := 2 }

theorem serialize_fillsBlock_twoMessages :
    FillsBlock (fun _ => true) (requestEst requestWithoutBody)
        ((none : Option (Memory UInt8)) ≠ none ∨ requestWithoutBody.bodyLen = 0)
        (serializeRequest .little (fun _ => true) (withRequestBody requestWithoutBody none)) ∧
      FillsBlock (fun _ => true) (responseEst responseWithBody)
        (some (fun _ => 0x61) ≠ (none : Option (Memory UInt8)) ∨ responseWithBody.bodyLen = 0)
        (serializeResponse .little (fun _ => true)
          (withResponseBody responseWithBody (some fun _ => 0x61))) :=
  serialize_fillsBlock .little (fun _ => true) requestWithoutBody responseWithBody none
    (some fun _ => 0x61) (by decide) (by decide)

end AbstractHttp.Process
