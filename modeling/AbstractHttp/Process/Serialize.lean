import AbstractHttp.Http.Types
import AbstractHttp.Library.Bytes
import AbstractHttp.Library.Outcome

/-!
# Messages between processes, sender's side

A message is a method or a status code, then length-prefixed fields. The state of
the functions below is what has been written before the cursor `*p`; every store
into the block of `est_size` bytes is an output.
-/
namespace AbstractHttp.Process
open Library Outcome Http

/-- Bytes written so far, the stores that wrote them, and the failure. -/
abbrev IpcOutcome := Outcome (List UInt8) Extent ErrorCode

def sizeofInt : ℕ := 4
def sizeofSize : ℕ := 8

/-- `size_t` arithmetic. -/
def sizeT (n : ℕ) : ℕ := n % 2 ^ 64

section Writers
variable (order : ByteOrder) (estSize : ℕ)

/-- `memcpy(*p, bs, ...)` and the move of the cursor behind it. -/
def put (bs buf : List UInt8) : IpcOutcome :=
  ⟨buf ++ bs, [⟨buf.length, bs.length, estSize⟩], none⟩

def writeInt (val : Int32) (buf : List UInt8) : IpcOutcome :=
  put estSize (order.toBytes sizeofInt val.toUInt32.toNat) buf

def writeSize (val : ℕ) (buf : List UInt8) : IpcOutcome :=
  put estSize (order.toBytes sizeofSize val) buf

/-- `str ? strlen(str) : 0`. -/
def strLength : Option CString → ℕ
  | some s => s.length
  | none => 0

def writeStr (str : Option CString) (buf : List UInt8) : IpcOutcome :=
  (writeSize order estSize (strLength str) buf).andThen fun buf =>
    match str with
    | some s => if s.length > 0 then put estSize s.bytes buf else done buf
    | none => done buf

def writeHeaders : List HttpHeader → List UInt8 → IpcOutcome
  | [], buf => done buf
  | h :: hs, buf =>
    ((writeStr order estSize h.key buf).andThen (writeStr order estSize h.value)).andThen
      (writeHeaders hs)

/-- The header count and the headers. -/
def writeHeaderList (headers : HttpHeaders) (buf : List UInt8) : IpcOutcome :=
  (writeSize order estSize headers.count buf).andThen
    (writeHeaders order estSize headers.headers)

def writeBody (body : Option (List UInt8)) (bodyLen : ℕ) (buf : List UInt8) : IpcOutcome :=
  (writeSize order estSize bodyLen buf).andThen fun buf =>
    match body with
    | some bs => if bodyLen > 0 then put estSize (bs.take bodyLen) buf else done buf
    | none => done buf

def writeRequest (req : HttpRequest) (buf : List UInt8) : IpcOutcome :=
  (((writeInt order estSize req.method.code buf).andThen
    (writeStr order estSize req.url)).andThen
      (writeHeaderList order estSize req.headers)).andThen
        (writeBody order estSize req.body req.bodyLen)

def writeResponse (res : HttpResponse) (buf : List UInt8) : IpcOutcome :=
  ((writeInt order estSize res.statusCode buf).andThen
    (writeHeaderList order estSize res.headers)).andThen
      (writeBody order estSize res.body res.bodyLen)

end Writers

/-- What the headers add to `est_size`. -/
def headersEst (headers : HttpHeaders) : ℕ :=
  (headers.headers.map fun h =>
    sizeofSize + strLength h.key + (sizeofSize + strLength h.value)).sum

/-- `est_size` of a request. -/
def requestEst (req : HttpRequest) : ℕ :=
  sizeT (sizeofInt + sizeofSize + (sizeofSize + strLength req.url) + sizeofSize +
    headersEst req.headers + req.bodyLen)

/-- `abstract_http_ipc_serialize_request`; `malloc` says whether the block is granted. -/
def serializeRequest (order : ByteOrder) (malloc : ℕ → Bool) (req : HttpRequest) : IpcOutcome :=
  if malloc (requestEst req) then writeRequest order (requestEst req) req []
  else fail [] [] .nomem

/-- `est_size` of a response. -/
def responseEst (res : HttpResponse) : ℕ :=
  sizeT (sizeofInt + sizeofSize + sizeofSize + headersEst res.headers + res.bodyLen)

/-- `abstract_http_ipc_serialize_response`. -/
def serializeResponse (order : ByteOrder) (malloc : ℕ → Bool) (res : HttpResponse) :
    IpcOutcome :=
  if malloc (responseEst res) then writeResponse order (responseEst res) res []
  else fail [] [] .nomem

/-! The bytes of a message, field by field. -/

section Layout
variable (order : ByteOrder)

def intBytes (val : Int32) : List UInt8 := order.toBytes sizeofInt val.toUInt32.toNat

def sizeBytes (val : ℕ) : List UInt8 := order.toBytes sizeofSize val

def strBytes (str : Option CString) : List UInt8 :=
  sizeBytes order (strLength str) ++ (str.map CString.bytes).getD []

def headersBytes (hs : List HttpHeader) : List UInt8 :=
  hs.flatMap fun h => strBytes order h.key ++ strBytes order h.value

def bodyBytes (body : Option (List UInt8)) (bodyLen : ℕ) : List UInt8 :=
  sizeBytes order bodyLen ++ (body.getD []).take bodyLen

/-- The part that requests and responses share. -/
def tailBytes (headers : HttpHeaders) (body : Option (List UInt8)) (bodyLen : ℕ) : List UInt8 :=
  sizeBytes order headers.count ++ (headersBytes order headers.headers ++
    bodyBytes order body bodyLen)

end Layout

section Written
variable (order : ByteOrder) (estSize : ℕ)

/-- A write that succeeds and appends `bs`. -/
def Appends (write : List UInt8 → IpcOutcome) (bs : List UInt8) : Prop :=
  ∀ buf, (write buf).failure = none ∧ (write buf).state = buf ++ bs

theorem Appends.andThen {write write' : List UInt8 → IpcOutcome} {bs bs' : List UInt8}
    (h : Appends write bs) (h' : Appends write' bs') :
    Appends (fun buf => (write buf).andThen write') (bs ++ bs') := by
  intro buf
  obtain ⟨hfail, hstate⟩ := h buf
  obtain ⟨hfail', hstate'⟩ := h' (buf ++ bs)
  simp only [andThen_of_none hfail, hstate]
  exact ⟨hfail', by rw [hstate', List.append_assoc]⟩

theorem appends_done : Appends done [] := fun buf => ⟨rfl, (List.append_nil buf).symm⟩

theorem appends_put (bs : List UInt8) : Appends (put estSize bs) bs :=
  fun _ => ⟨rfl, rfl⟩

theorem appends_writeInt (val : Int32) : Appends (writeInt order estSize val) (intBytes order val) :=
  appends_put estSize _

theorem appends_writeSize (val : ℕ) : Appends (writeSize order estSize val) (sizeBytes order val) :=
  appends_put estSize _

theorem appends_writeStr (str : Option CString) :
    Appends (writeStr order estSize str) (strBytes order str) := by
  apply (appends_writeSize order estSize (strLength str)).andThen
  cases str with
  | none => exact appends_done
  | some s =>
    intro buf
    by_cases h : s.length > 0
    · simp only [if_pos h, Option.map_some, Option.getD_some]
      exact appends_put estSize s.bytes buf
    · have hnil : s.bytes = [] := List.eq_nil_of_length_eq_zero (by simpa [CString.length] using h)
      simp only [if_neg h, Option.map_some, Option.getD_some, hnil]
      exact appends_done buf

theorem appends_writeHeaders (hs : List HttpHeader) :
    Appends (writeHeaders order estSize hs) (headersBytes order hs) := by
  induction hs with
  | nil => exact appends_done
  | cons h hs ih =>
    exact ((appends_writeStr order estSize h.key).andThen
      (appends_writeStr order estSize h.value)).andThen ih

theorem appends_writeHeaderList (headers : HttpHeaders) :
    Appends (writeHeaderList order estSize headers)
      (sizeBytes order headers.count ++ headersBytes order headers.headers) :=
  (appends_writeSize order estSize headers.count).andThen
    (appends_writeHeaders order estSize headers.headers)

theorem appends_writeBody (body : Option (List UInt8)) (bodyLen : ℕ) :
    Appends (writeBody order estSize body bodyLen) (bodyBytes order body bodyLen) := by
  apply (appends_writeSize order estSize bodyLen).andThen
  cases body with
  | none =>
    simp only [Option.getD_none, List.take_nil]
    exact appends_done
  | some bs =>
    intro buf
    by_cases h : bodyLen > 0
    · simp only [if_pos h, Option.getD_some]
      exact appends_put estSize _ buf
    · have hzero : bodyLen = 0 := by omega
      simp only [hzero, List.take_zero]
      exact appends_done buf

/-- The bytes of a request message. -/
theorem appends_writeRequest (req : HttpRequest) :
    Appends (writeRequest order estSize req)
      (intBytes order req.method.code ++ (strBytes order req.url ++
        tailBytes order req.headers req.body req.bodyLen)) := by
  have h := (((appends_writeInt order estSize req.method.code).andThen
    (appends_writeStr order estSize req.url)).andThen
      (appends_writeHeaderList order estSize req.headers)).andThen
        (appends_writeBody order estSize req.body req.bodyLen)
  simp only [List.append_assoc] at h
  exact h

/-- The bytes of a response message. -/
theorem appends_writeResponse (res : HttpResponse) :
    Appends (writeResponse order estSize res)
      (intBytes order res.statusCode ++ tailBytes order res.headers res.body res.bodyLen) := by
  have h := ((appends_writeInt order estSize res.statusCode).andThen
    (appends_writeHeaderList order estSize res.headers)).andThen
      (appends_writeBody order estSize res.body res.bodyLen)
  simp only [List.append_assoc] at h
  exact h

end Written

end AbstractHttp.Process
