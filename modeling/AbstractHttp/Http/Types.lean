import AbstractHttp.ErrorCode
import Mathlib.Data.List.TakeWhile
import Mathlib.Tactic

/-!
# Requests, responses and header lists

The structures that every transport and the process channel share, and
`http_headers_add`, the one way in which the library fills a header list.
-/
namespace AbstractHttp.Http

/-- A NUL-terminated string, given by the bytes before its NUL. -/
structure CString where
  bytes : List UInt8
  noNul : 0 ∉ bytes
  deriving DecidableEq

namespace CString

/-- The string in a block: its bytes up to the first NUL. -/
def ofBytes (bs : List UInt8) : CString where
  bytes := bs.takeWhile (· ≠ 0)
  noNul h := by simpa using List.mem_takeWhile_imp h

/-- `strlen`. -/
def length (s : CString) : ℕ := s.bytes.length

@[ext] theorem ext {s t : CString} (h : s.bytes = t.bytes) : s = t := by
  cases s
  cases t
  simpa using h

theorem ofBytes_of_noNul {bs : List UInt8} (h : 0 ∉ bs) : (ofBytes bs).bytes = bs := by
  apply List.takeWhile_eq_self_iff.mpr
  intro b hb
  simp only [ne_eq, decide_eq_true_eq]
  rintro rfl
  exact h hb

@[simp] theorem ofBytes_bytes (s : CString) : ofBytes s.bytes = s :=
  CString.ext (ofBytes_of_noNul s.noNul)

/-- A string is read up to its NUL, whatever the block holds behind it. -/
theorem ofBytes_append_nul {bs : List UInt8} (h : 0 ∉ bs) (rest : List UInt8) :
    (ofBytes (bs ++ 0 :: rest)).bytes = bs := by
  have hall : ∀ b ∈ bs, decide (b ≠ 0) = true := by
    intro b hb
    rw [decide_eq_true_eq]
    rintro rfl
    exact h hb
  change (bs ++ 0 :: rest).takeWhile (· ≠ 0) = bs
  rw [List.takeWhile_append_of_pos hall, List.takeWhile_cons_of_neg (by simp), List.append_nil]

end CString

/-- `enum HttpMethod`. An object of this type may hold a value that no enumerator names. -/
inductive HttpMethod where
  | get
  | post
  | put
  | delete
  | patch
  | head
  | options
  | trace
  | query
  | connect
  | other (code : Int32) (unnamed : code.toInt < 0 ∨ 9 < code.toInt)
  deriving DecidableEq

namespace HttpMethod

/-- `(int)method`. -/
def code : HttpMethod → Int32
  | .get => 0
  | .post => 1
  | .put => 2
  | .delete => 3
  | .patch => 4
  | .head => 5
  | .options => 6
  | .trace => 7
  | .query => 8
  | .connect => 9
  | .other code _ => code

/-- `(enum HttpMethod)code`. -/
def ofCode (code : Int32) : HttpMethod :=
  if unnamed : code.toInt < 0 ∨ 9 < code.toInt then .other code unnamed
  else
    match code.toInt with
    | 0 => .get
    | 1 => .post
    | 2 => .put
    | 3 => .delete
    | 4 => .patch
    | 5 => .head
    | 6 => .options
    | 7 => .trace
    | 8 => .query
    | _ => .connect

@[simp] theorem ofCode_code (method : HttpMethod) : ofCode method.code = method := by
  cases method with
  | other code unnamed => exact dif_pos unnamed
  | _ => rfl

end HttpMethod

/-- `struct HttpHeader`: two strings, `none` for NULL. -/
structure HttpHeader where
  key : Option CString
  value : Option CString
  deriving DecidableEq

/-- `struct HttpHeaders`; its `count` is the length of the list. -/
structure HttpHeaders where
  headers : List HttpHeader
  capacity : ℕ
  deriving DecidableEq

/-- `http_headers_init`. -/
def HttpHeaders.init : HttpHeaders := ⟨[], 0⟩

def HttpHeaders.count (headers : HttpHeaders) : ℕ := headers.headers.length

/-- What `http_headers_add` allocates: the array and the two copies. -/
inductive HeadersBlock where
  | array
  | key
  | value
  deriving DecidableEq, Repr

/-- Which requests `malloc` and `realloc` grant during a call, by block and size. -/
abbrev HeadersAlloc := HeadersBlock → ℕ → Bool

/-- Bytes in a `struct HttpHeader`. -/
def headerSize : ℕ := 16

/-- The growth of the array when it is full. -/
def headersGrow (alloc : HeadersAlloc) (headers : HttpHeaders) : Option HttpHeaders :=
  if headers.count ≥ headers.capacity then
    let newCap := if headers.capacity = 0 then 8 else headers.capacity * 2
    if alloc .array (newCap * headerSize) then some { headers with capacity := newCap } else none
  else some headers

/-- `http_headers_add`. A call that fails leaves the list, but may have grown the array. -/
def headersAdd (alloc : HeadersAlloc) (headers : HttpHeaders) (key value : Option CString) :
    HttpHeaders × Option ErrorCode :=
  match key, value with
  | some key, some value =>
    match headersGrow alloc headers with
    | none => (headers, some .nomem)
    | some headers =>
      if alloc .key (key.length + 1) = false then (headers, some .nomem)
      else if alloc .value (value.length + 1) = false then (headers, some .nomem)
      else ({ headers with headers := headers.headers ++ [⟨some key, some value⟩] }, none)
  | _, _ => (headers, some .inval)

@[simp] theorem headersGrow_headers {alloc : HeadersAlloc} {headers grown : HttpHeaders}
    (h : headersGrow alloc headers = some grown) : grown.headers = headers.headers := by
  rw [headersGrow] at h
  split at h
  · simp only [Option.ite_none_right_eq_some, Option.some.injEq] at h
    rw [← h.2]
  · rw [← Option.some.inj h]

theorem headersGrow_of_granted {alloc : HeadersAlloc} (hgrant : ∀ b n, alloc b n = true)
    (headers : HttpHeaders) : ∃ grown, headersGrow alloc headers = some grown := by
  rw [headersGrow]
  split
  · simp [hgrant]
  · exact ⟨_, rfl⟩

/-- With memory at hand, two strings are appended as a pair. -/
theorem headersAdd_of_granted {alloc : HeadersAlloc} (hgrant : ∀ b n, alloc b n = true)
    (headers : HttpHeaders) (key value : CString) :
    ∃ grown, headersAdd alloc headers (some key) (some value) = (grown, none) ∧
      grown.headers = headers.headers ++ [⟨some key, some value⟩] := by
  obtain ⟨grown, hgrown⟩ := headersGrow_of_granted hgrant headers
  refine ⟨{ grown with headers := grown.headers ++ [⟨some key, some value⟩] }, ?_, ?_⟩
  · simp [headersAdd, hgrown, hgrant]
  · simp [headersGrow_headers hgrown]

/-- A pair of strings is appended, or the entries stay as they are. -/
theorem headersAdd_headers (alloc : HeadersAlloc) (headers : HttpHeaders) (key value : CString) :
    ((headersAdd alloc headers (some key) (some value)).2 = none ∧
      (headersAdd alloc headers (some key) (some value)).1.headers =
        headers.headers ++ [⟨some key, some value⟩]) ∨
    (∃ e, (headersAdd alloc headers (some key) (some value)).2 = some e) ∧
      (headersAdd alloc headers (some key) (some value)).1.headers = headers.headers := by
  rw [headersAdd]
  cases hgrown : headersGrow alloc headers with
  | none => exact Or.inr ⟨⟨_, rfl⟩, rfl⟩
  | some grown =>
    have hentries := headersGrow_headers hgrown
    dsimp only
    split_ifs
    · exact Or.inr ⟨⟨_, rfl⟩, hentries⟩
    · exact Or.inr ⟨⟨_, rfl⟩, hentries⟩
    · exact Or.inl ⟨rfl, by rw [hentries]⟩

/-- Every entry has both strings. -/
def HttpHeaders.Filled (headers : HttpHeaders) : Prop :=
  ∀ h ∈ headers.headers, ∃ key value, h = ⟨some key, some value⟩

theorem HttpHeaders.filled_init : HttpHeaders.init.Filled := fun _ h => absurd h List.not_mem_nil

/-- NULL is refused on either side. -/
theorem headersAdd_of_null (alloc : HeadersAlloc) (headers : HttpHeaders)
    {key value : Option CString} (h : key = none ∨ value = none) :
    headersAdd alloc headers key value = (headers, some .inval) := by
  rcases h with rfl | rfl
  · rfl
  · cases key <;> rfl

/-- A list stays filled, whether or not the call fails. -/
theorem headersAdd_filled (alloc : HeadersAlloc) {headers : HttpHeaders} (h : headers.Filled)
    (key value : Option CString) : (headersAdd alloc headers key value).1.Filled := by
  by_cases hnull : key = none ∨ value = none
  · rw [headersAdd_of_null alloc headers hnull]
    exact h
  · obtain ⟨hkey, hvalue⟩ := not_or.mp hnull
    obtain ⟨key, rfl⟩ := Option.ne_none_iff_exists'.mp hkey
    obtain ⟨value, rfl⟩ := Option.ne_none_iff_exists'.mp hvalue
    intro entry hentry
    rcases headersAdd_headers alloc headers key value with ⟨-, hadded⟩ | ⟨-, hkept⟩
    · rw [hadded, List.mem_append, List.mem_singleton] at hentry
      rcases hentry with hentry | rfl
      · exact h entry hentry
      · exact ⟨key, value, rfl⟩
    · exact h entry (hkept ▸ hentry)

/-- `struct HttpRequest` as far as the functions below read it. A body is the bytes that `body`
points to, and `none` for NULL; of a callback only its presence is kept, since its behaviour is
given where it is called. -/
structure HttpRequest where
  url : Option CString
  method : HttpMethod
  headers : HttpHeaders
  body : Option (List UInt8)
  bodyLen : ℕ
  partsCount : ℕ
  onChunk : Bool
  readChunk : Bool
  expectedBodyLen : ℕ
  deriving DecidableEq

/-- `http_request_init`. -/
def HttpRequest.init : HttpRequest where
  url := none
  method := .get
  headers := .init
  body := none
  bodyLen := 0
  partsCount := 0
  onChunk := false
  readChunk := false
  expectedBodyLen := 0

/-- `struct HttpResponse`. -/
structure HttpResponse where
  statusCode : Int32
  headers : HttpHeaders
  body : Option (List UInt8)
  bodyLen : ℕ
  deriving DecidableEq

/-- `http_response_init`. -/
def HttpResponse.init : HttpResponse where
  statusCode := 0
  headers := .init
  body := none
  bodyLen := 0

/-- Status, headers in order and body of a response, as its reader sees them. -/
def HttpResponse.content (r : HttpResponse) : Int32 × List HttpHeader × List UInt8 :=
  (r.statusCode, r.headers.headers, (r.body.getD []).take r.bodyLen)

end AbstractHttp.Http
