import AbstractHttp.Process.Serialize

/-!
# Messages between processes, receiver's side

The decoder compares addresses: before it copies `w` bytes from the cursor `*p` it
asks whether `*p + w > end`, in pointer arithmetic that wraps around at `2 ^ 64`. A
cursor is the offset from the start of the buffer; what is parsed comes with the cursor
behind it. A copy that leaves the buffer or the block it goes to is undefined in C and
ends the run here.
-/
namespace AbstractHttp.Process
open Library Http

/-- A buffer at an address of a 64-bit address space. -/
structure Placed where
  base : ℕ
  bytes : List UInt8
  fits : base + bytes.length ≤ 2 ^ 64

/-- The address of an offset. -/
def Placed.address (m : Placed) (p : ℕ) : ℕ := (m.base + p) % 2 ^ 64

/-- `*p + w > end`. -/
def Placed.beyond (m : Placed) (p w : ℕ) : Bool :=
  m.address (p + w) > m.address m.bytes.length

theorem Placed.beyond_iff {m : Placed} {p w : ℕ} :
    m.beyond p w = true ↔ m.address m.bytes.length < m.address (p + w) := by
  simp [beyond]

/-- Why a run stops: the error that is returned, or a copy of `w` bytes from offset `p` that is
out of bounds. -/
inductive Stop where
  | error (e : ErrorCode)
  | fault (p w : ℕ)
  deriving DecidableEq, Repr

/-- The blocks that decoding allocates; a header has an index. -/
inductive IpcBlock where
  | url
  | key (i : ℕ)
  | value (i : ℕ)
  | header (i : ℕ) (block : HeadersBlock)
  | body
  deriving DecidableEq, Repr

/-- Which requests for memory are granted, by block and size. -/
abbrev IpcAlloc := IpcBlock → ℕ → Bool

@[simp] theorem ok_bind {α β : Type} (a : α) (k : α → Except Stop β) :
    (Except.ok a >>= k) = k a := rfl

@[simp] theorem error_bind {α β : Type} (e : Stop) (k : α → Except Stop β) :
    (Except.error e >>= k) = Except.error e := rfl

section Decoder
variable (order : ByteOrder) (bytes : List UInt8) (beyond : ℕ → ℕ → Bool)

/-- `memcpy` of `w` bytes from offset `p` into a block of `size` bytes. -/
def copyFrom (p w size : ℕ) : Except Stop (List UInt8) :=
  if p + w ≤ bytes.length ∧ w ≤ size then .ok ((bytes.drop p).take w) else .error (.fault p w)

def parseInt (p : ℕ) : Except Stop (Int32 × ℕ) :=
  if beyond p sizeofInt then .error (.error .inval)
  else do
    let bs ← copyFrom bytes p sizeofInt sizeofInt
    return ((UInt32.ofNat (order.ofBytes bs)).toInt32, p + sizeofInt)

def parseSize (p : ℕ) : Except Stop (ℕ × ℕ) :=
  if beyond p sizeofSize then .error (.error .inval)
  else do
    let bs ← copyFrom bytes p sizeofSize sizeofSize
    return (order.ofBytes bs, p + sizeofSize)

/-- A check, a block of `size` bytes and a copy of `len` bytes into it. -/
def parseBlock (malloc : ℕ → Bool) (len size p : ℕ) : Except Stop (List UInt8 × ℕ) :=
  if beyond p len then .error (.error .inval)
  else if malloc size = false then .error (.error .nomem)
  else do
    let bs ← copyFrom bytes p len size
    return (bs, p + len)

/-- The block has room for a NUL behind the string. -/
def parseStr (malloc : ℕ → Bool) (p : ℕ) : Except Stop (Option CString × ℕ) := do
  let (len, p) ← parseSize order bytes beyond p
  if len = 0 then return (none, p)
  else
    let (bs, p) ← parseBlock bytes beyond malloc len (sizeT (len + 1)) p
    return (some (.ofBytes bs), p)

/-- One pass of the header loop. -/
def parseHeader (alloc : IpcAlloc) (i : ℕ) (headers : HttpHeaders) (p : ℕ) :
    Except Stop (HttpHeaders × ℕ) := do
  let (key, p) ← parseStr order bytes beyond (alloc (.key i)) p
  let (value, p) ← parseStr order bytes beyond (alloc (.value i)) p
  match headersAdd (fun block => alloc (.header i block)) headers key value with
  | (headers, none) => return (headers, p)
  | (_, some e) => throw (.error e)

/-- The header loop, with `left` passes to go from pass `i`. -/
def parseHeaders (alloc : IpcAlloc) : ℕ → ℕ → HttpHeaders → ℕ → Except Stop (HttpHeaders × ℕ)
  | 0, _, headers, p => return (headers, p)
  | left + 1, i, headers, p => do
    let (headers, p) ← parseHeader order bytes beyond alloc i headers p
    parseHeaders alloc left (i + 1) headers p

/-- The body and its length. -/
def parseBody (malloc : ℕ → Bool) (p : ℕ) : Except Stop ((Option (List UInt8) × ℕ) × ℕ) := do
  let (bodyLen, p) ← parseSize order bytes beyond p
  if bodyLen = 0 then return ((none, 0), p)
  else
    let (bs, p) ← parseBlock bytes beyond malloc bodyLen bodyLen p
    return ((some bs, bodyLen), p)

/-- The part that requests and responses share: header list, body and body length. -/
def parseTail (alloc : IpcAlloc) (p : ℕ) :
    Except Stop (HttpHeaders × Option (List UInt8) × ℕ) := do
  let (hcount, p) ← parseSize order bytes beyond p
  let (headers, p) ← parseHeaders order bytes beyond alloc hcount 0 .init p
  let (body, _) ← parseBody order bytes beyond (alloc .body) p
  return (headers, body)

def parseRequest (alloc : IpcAlloc) : Except Stop HttpRequest := do
  let (method, p) ← parseInt order bytes beyond 0
  let (url, p) ← parseStr order bytes beyond (alloc .url) p
  let (headers, body, bodyLen) ← parseTail order bytes beyond alloc p
  return { HttpRequest.init with method := .ofCode method, url, headers, body, bodyLen }

def parseResponse (alloc : IpcAlloc) : Except Stop HttpResponse := do
  let (statusCode, p) ← parseInt order bytes beyond 0
  let (headers, body, bodyLen) ← parseTail order bytes beyond alloc p
  return { statusCode, headers, body, bodyLen }

end Decoder

/-- `abstract_http_ipc_deserialize_request`, as far as it returns: what a failed call leaves in
the request is not kept. -/
def deserializeRequest (order : ByteOrder) (alloc : IpcAlloc) (m : Placed) :
    Except Stop HttpRequest :=
  if m.base = 0 then .error (.error .inval) else parseRequest order m.bytes m.beyond alloc

/-- `abstract_http_ipc_deserialize_response`. -/
def deserializeResponse (order : ByteOrder) (alloc : IpcAlloc) (m : Placed) :
    Except Stop HttpResponse :=
  if m.base = 0 then .error (.error .inval) else parseResponse order m.bytes m.beyond alloc

end AbstractHttp.Process
