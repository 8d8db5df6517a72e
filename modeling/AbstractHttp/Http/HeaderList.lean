import AbstractHttp.Http.FormEncoding
import AbstractHttp.Library.History
import AbstractHttp.Library.Memory

/-!
# Header lists in their array

`http_headers_add`, `http_headers_get` and `http_headers_remove` on the array that
a header list is kept in.  What is stored refines a list of pairs, and
`strcasecmp_portable` decides equality up to the case of ASCII letters.  A call may be
given a string of the list itself, which a removal can free before it is done with it.
-/
namespace AbstractHttp.Http
open Library

section StringComparison

/-- The difference of two characters without their case, as an `int`. -/
def caseDiff (c d : UInt8) : ℤ := ((tolower c).toNat : ℤ) - (tolower d).toNat

/-- `strcasecmp_portable` from two positions on, a string's end being a NUL. -/
def strcasecmpPortable : List UInt8 → List UInt8 → ℤ
  | c :: s1, d :: s2 =>
    let diff := caseDiff c d
    if diff ≠ 0 then diff else strcasecmpPortable s1 s2
  | s1, s2 => caseDiff (s1.headD 0) (s2.headD 0)

/-- Two strings are the same up to the case of ASCII letters. -/
def SameKey (s t : CString) : Prop := s.bytes.map tolower = t.bytes.map tolower

instance (s t : CString) : Decidable (SameKey s t) := inferInstanceAs (Decidable (_ = _))

theorem caseDiff_eq_zero_iff (c d : UInt8) : caseDiff c d = 0 ↔ tolower c = tolower d := by
  rw [caseDiff, sub_eq_zero, Nat.cast_inj, UInt8.toNat_inj]

/-- Only the NUL is a NUL in lower case. -/
theorem tolower_eq_zero_iff (c : UInt8) : tolower c = 0 ↔ c = 0 := by
  have hall : ∀ i : Fin 256, tolower (UInt8.ofNat i) = 0 ↔ UInt8.ofNat i = 0 := by
    decide +kernel
  have h := hall ⟨c.toNat, c.toNat_lt⟩
  rwa [UInt8.ofNat_toNat] at h

theorem strcasecmpPortable_eq_zero_iff {s1 s2 : List UInt8} (h1 : 0 ∉ s1) (h2 : 0 ∉ s2) :
    strcasecmpPortable s1 s2 = 0 ↔ s1.map tolower = s2.map tolower := by
  have hzero : tolower 0 = 0 := rfl
  induction s1 generalizing s2 with
  | nil =>
    cases s2 with
    | nil => simp [strcasecmpPortable, caseDiff]
    | cons d s2 =>
      have hd : d ≠ 0 := fun hd => h2 (by simp [hd])
      simp [strcasecmpPortable, caseDiff_eq_zero_iff, hzero, eq_comm (a := (0 : UInt8)),
        tolower_eq_zero_iff, hd]
  | cons c s1 ih =>
    cases s2 with
    | nil =>
      have hc : c ≠ 0 := fun hc => h1 (by simp [hc])
      simp [strcasecmpPortable, caseDiff_eq_zero_iff, hzero, tolower_eq_zero_iff, hc]
    | cons d s2 =>
      have htail : 0 ∉ s2 := fun h => h2 (by simp [h])
      have hrest := ih (fun h => h1 (by simp [h])) htail
      rw [strcasecmpPortable]
      by_cases hsame : tolower c = tolower d
      · have hdiff := (caseDiff_eq_zero_iff c d).mpr hsame
        simp [hdiff, hsame, hrest]
      · have hdiff := mt (caseDiff_eq_zero_iff c d).mp hsame
        simp [hdiff, hsame]

end StringComparison

/-- `struct HttpHeaders` with the array that its pointer leads to. -/
structure HeaderArray where
  headers : Memory HttpHeader
  count : ℕ
  capacity : ℕ

namespace HeaderArray

/-- `http_headers_init`; what later blocks hold before they are written is `junk`. -/
def init (junk : Memory HttpHeader) : HeaderArray := ⟨junk, 0, 0⟩

/-- The entries that are stored. -/
def stored (headers : HeaderArray) : List HttpHeader := headers.headers.read 0 headers.count

/-- The list that the rest of the library works with. -/
def toHeaders (headers : HeaderArray) : HttpHeaders := ⟨headers.stored, headers.capacity⟩

end HeaderArray

/-- `c_abstract_http_strdup`, NULL where `malloc` fails. -/
def strdup (granted : Bool) (s : CString) : Option CString := if granted then some s else none

/-- `new_cap`, or the capacity where the array is not full. -/
def HeaderArray.grownCapacity (headers : HeaderArray) : ℕ :=
  if headers.count ≥ headers.capacity then
    if headers.capacity = 0 then 8 else headers.capacity * 2
  else headers.capacity

/-- `http_headers_add` on the array. -/
def httpHeadersAdd (alloc : HeadersAlloc) (headers : HeaderArray) (key value : Option CString) :
    HeaderArray × Option ErrorCode :=
  match key, value with
  | some key, some value =>
    if headers.count ≥ headers.capacity ∧
        alloc .array (headers.grownCapacity * headerSize) = false then
      (headers, some .nomem)
    else
      let slot := headers.headers headers.count
      let slot := { slot with key := strdup (alloc .key (key.length + 1)) key }
      let grown := { headers with
        headers := headers.headers.write headers.count [slot]
        capacity := headers.grownCapacity }
      if slot.key = none then (grown, some .nomem)
      else
        let slot := { slot with value := strdup (alloc .value (value.length + 1)) value }
        let grown := { grown with headers := grown.headers.write headers.count [slot] }
        if slot.value = none then (grown, some .nomem)
        else ({ grown with count := headers.count + 1 }, none)
  | _, _ => (headers, some .inval)

/-- The loop of `http_headers_get` from index `i` on: `*out`, with no result where a NULL key is
compared. -/
def getLoop (headers : HeaderArray) (key : CString) (i : ℕ) :
    Option (Except ErrorCode (Option CString)) :=
  if i < headers.count then
    match (headers.headers i).key with
    | none => none
    | some entry =>
      if strcasecmpPortable entry.bytes key.bytes = 0 then some (.ok (headers.headers i).value)
      else getLoop headers key (i + 1)
  else some (.error .inval)
termination_by headers.count - i

/-- `http_headers_get`. -/
def httpHeadersGet (headers : HeaderArray) (key : Option CString) :
    Option (Except ErrorCode (Option CString)) :=
  match key with
  | some key => getLoop headers key 0
  | none => some (.error .inval)

/-- The inner loop of `http_headers_remove`: the entries behind index `i` move up. -/
def shiftLeft (headers : Memory HttpHeader) (i count : ℕ) : Memory HttpHeader :=
  (List.range' i (count - 1 - i)).foldl (fun m j => m.write j [m (j + 1)]) headers

/-- Where the key that `http_headers_remove` is given lies: in none of the entries, in an entry, or
in one that the call has freed. -/
inductive KeyHome where
  | apart
  | entry (i : ℕ)
  | freed
  deriving DecidableEq

/-- Entry `i` is freed, and the entries behind it move up. -/
def KeyHome.remove (i : ℕ) : KeyHome → KeyHome
  | .entry k => if k = i then .freed else if i < k then .entry (k - 1) else .entry k
  | home => home

/-- The outer loop of `http_headers_remove` from index `i` on, with no result where a NULL key is
compared or one that has been freed. -/
def removeLoop (key : CString) (home : KeyHome) (headers : HeaderArray) (i : ℕ) (found : Bool) :
    Option (HeaderArray × Bool) :=
  if i < headers.count then
    match (headers.headers i).key with
    | none => none
    | some entry =>
      if home = .freed then none
      else if strcasecmpPortable entry.bytes key.bytes = 0 then
        removeLoop key (home.remove i) { headers with
          headers := shiftLeft headers.headers i headers.count
          count := headers.count - 1 } i true
      else removeLoop key home headers (i + 1) found
  else some (headers, found)
termination_by headers.count - i

/-- `http_headers_remove`. -/
def httpHeadersRemove (headers : HeaderArray) (key : Option CString) (home : KeyHome) :
    Option (HeaderArray × Option ErrorCode) :=
  match key with
  | some key =>
    (removeLoop key home headers 0 false).map fun (headers, found) =>
      (headers, if found then none else some .inval)
  | none => some (headers, some .inval)

/-- A string that a call is given: one apart from the list, or what the key or the value of an
entry holds from an offset on. -/
inductive StringArg where
  | apart (text : CString)
  | inKey (i offset : ℕ)
  | inValue (i offset : ℕ)
  deriving DecidableEq

/-- The string at an address inside of a string, its NUL included. -/
def CString.from? (s : CString) (offset : ℕ) : Option CString :=
  if offset ≤ s.length then some ⟨s.bytes.drop offset, fun h => s.noNul (List.mem_of_mem_drop h)⟩
  else none

/-- The text of a string, if it is there. -/
def StringArg.text (slots : List HttpHeader) : StringArg → Option CString
  | .apart text => some text
  | .inKey i offset => slots[i]?.bind fun slot => slot.key.bind (CString.from? · offset)
  | .inValue i offset => slots[i]?.bind fun slot => slot.value.bind (CString.from? · offset)

def StringArg.home : StringArg → KeyHome
  | .apart _ => .apart
  | .inKey i _ | .inValue i _ => .entry i

/-- The argument of a call, which may be NULL, if it can be read. -/
def argText (slots : List HttpHeader) : Option StringArg → Option (Option CString)
  | none => some none
  | some arg => (arg.text slots).map some

/-- A call on a header list; with an addition comes which requests for memory are granted. -/
inductive HeadersCall where
  | add (alloc : HeadersAlloc) (key value : Option StringArg)
  | remove (key : Option StringArg)
  | get (key : Option StringArg)

/-- What a call gives back: its code, and what `http_headers_get` puts in `*out`. -/
inductive HeadersAnswer where
  | done
  | value (out : Option CString)
  | failed (e : ErrorCode)
  deriving DecidableEq

def HeadersAnswer.ofCode : Option ErrorCode → HeadersAnswer
  | none => .done
  | some e => .failed e

def HeadersAnswer.ofGet : Except ErrorCode (Option CString) → HeadersAnswer
  | .ok out => .value out
  | .error e => .failed e

/-- One call, with no result where a NULL key is compared or a string that is not there. -/
def headersStep (headers : HeaderArray) : HeadersCall → Option (HeaderArray × HeadersAnswer)
  | .add alloc key value => do
    let key ← argText headers.stored key
    let value ← argText headers.stored value
    let (headers, rc) := httpHeadersAdd alloc headers key value
    pure (headers, .ofCode rc)
  | .remove key => do
    let text ← argText headers.stored key
    let (headers, rc) ← httpHeadersRemove headers text (key.elim .apart StringArg.home)
    pure (headers, .ofCode rc)
  | .get key => do
    let text ← argText headers.stored key
    let out ← httpHeadersGet headers text
    pure (headers, .ofGet out)

/-- The strings of a call. -/
def HeadersCall.strings : HeadersCall → List StringArg
  | .add _ key value => key.toList ++ value.toList
  | .remove key | .get key => key.toList

/-- A string of the call lies in an entry that is not there. -/
def Dangles (headers : HeaderArray) (call : HeadersCall) : Prop :=
  ∃ arg ∈ call.strings, arg.text headers.stored = none

/-- A removal of a key that lies in an entry with this key, behind which there are others to
compare. -/
def FreesItsKey (headers : HeaderArray) (call : HeadersCall) : Prop :=
  ∃ arg text i entry, call = .remove (some arg) ∧ arg.text headers.stored = some text ∧
    arg.home = .entry i ∧ i + 1 < headers.count ∧ (headers.headers i).key = some entry ∧
      strcasecmpPortable entry.bytes text.bytes = 0

section Specification

/-- A header as a pair of strings. -/
abbrev Field := CString × CString

def Field.entry (field : Field) : HttpHeader := ⟨some field.1, some field.2⟩

/-- Whether the argument of a call names the key of a field. -/
def Named (key : Option CString) (field : Field) : Prop :=
  ∃ k, key = some k ∧ SameKey field.1 k

instance (key : Option CString) (field : Field) : Decidable (Named key field) :=
  match key with
  | some k => decidable_of_iff (SameKey field.1 k) (by simp [Named])
  | none => .isFalse (by simp [Named])

/-- The argument of a call as a list of pairs has it. -/
def Reads (fields : List Field) (arg : Option StringArg) (text : Option CString) : Prop :=
  argText (fields.map Field.entry) arg = some text

/-- An addition appends, or it fails and changes nothing. -/
def AddSpec (fields : List Field) (alloc : HeadersAlloc) (key value : Option CString)
    (answer : HeadersAnswer) (fields' : List Field) : Prop :=
  (∃ k v, key = some k ∧ value = some v ∧ answer = .done ∧ fields' = fields ++ [(k, v)]) ∨
    (answer = .failed .inval ∧ (key = none ∨ value = none) ∨
      answer = .failed .nomem ∧ ∃ block size, alloc block size = false) ∧ fields' = fields

/-- Removal takes away all fields with the key and keeps the others in order. -/
def RemoveSpec (fields : List Field) (key : Option CString) (answer : HeadersAnswer)
    (fields' : List Field) : Prop :=
  fields' = fields.filter (¬ Named key ·) ∧
    answer = if ∃ field ∈ fields, Named key field then .done else .failed .inval

/-- Reading answers with the first field that has the key. -/
def GetSpec (fields : List Field) (key : Option CString) (answer : HeadersAnswer)
    (fields' : List Field) : Prop :=
  fields' = fields ∧
    answer = match fields.find? (Named key ·) with
      | some field => .value (some field.2)
      | none => .failed .inval

/-- A header list as a list of pairs. -/
def HeadersSpec (fields : List Field) :
    HeadersCall → HeadersAnswer → List Field → Prop
  | .add alloc key value, answer, fields' => ∃ k v, Reads fields key k ∧ Reads fields value v ∧
      AddSpec fields alloc k v answer fields'
  | .remove key, answer, fields' => ∃ k, Reads fields key k ∧ RemoveSpec fields k answer fields'
  | .get key, answer, fields' => ∃ k, Reads fields key k ∧ GetSpec fields k answer fields'

/-- The array holds the entries of the fields, and has room for them. -/
def HeaderArray.Holds (headers : HeaderArray) (fields : List Field) : Prop :=
  headers.stored = fields.map Field.entry ∧ headers.count ≤ headers.capacity

end Specification

section Operations

variable {headers : HeaderArray} {fields : List Field}

/-- An entry put into the slot behind the last one is the last one once it is counted. -/
theorem stored_write (headers : HeaderArray) (entry : HttpHeader) (capacity : ℕ) :
    HeaderArray.stored ⟨headers.headers.write headers.count [entry], headers.count + 1, capacity⟩ =
      headers.stored ++ [entry] :=
  Memory.read_write_extend headers.headers headers.count [entry]

/-- What is put behind the last entry and not counted is not stored. -/
theorem stored_write_behind (headers : HeaderArray) (entry : HttpHeader) (capacity : ℕ) :
    HeaderArray.stored ⟨headers.headers.write headers.count [entry], headers.count, capacity⟩ =
      headers.stored :=
  Memory.read_write_before headers.headers [entry] (Nat.zero_add headers.count).le

theorem HeaderArray.Holds.count_eq (h : headers.Holds fields) : headers.count = fields.length := by
  have hlen := congrArg List.length h.1
  simpa [HeaderArray.stored] using hlen

/-- The slots below the count hold the fields. -/
theorem HeaderArray.Holds.slot (h : headers.Holds fields) {i : ℕ} {field : Field}
    (hi : fields[i]? = some field) : headers.headers i = field.entry := by
  have hget := congrArg (·[i]?) h.1
  have hlt : i < headers.count := by
    rw [h.count_eq]
    exact (List.getElem?_eq_some_iff.mp hi).1
  simpa [HeaderArray.stored, Memory.read, hi, hlt] using hget

theorem HeaderArray.lt_grownCapacity {headers : HeaderArray}
    (h : headers.count ≤ headers.capacity) : headers.count < headers.grownCapacity := by
  rw [grownCapacity]
  split_ifs <;> omega

/-- What an addition of two strings does: the array is not grown, a string is not copied, or the
entry is stored. -/
inductive AddMove (alloc : HeadersAlloc) (headers : HeaderArray) (key value : CString) :
    HeaderArray → Option ErrorCode → Prop where
  | full (hfull : headers.count ≥ headers.capacity)
      (harray : alloc .array (headers.grownCapacity * headerSize) = false) :
      AddMove alloc headers key value headers (some .nomem)
  | uncopied (after : HeaderArray)
      (hroom : headers.count ≥ headers.capacity →
        alloc .array (headers.grownCapacity * headerSize) = true)
      (hcopy : alloc .key (key.length + 1) = false ∨ alloc .value (value.length + 1) = false)
      (hcapacity : after.capacity = headers.grownCapacity)
      (hstored : after.stored = headers.stored) (hcount : after.count = headers.count) :
      AddMove alloc headers key value after (some .nomem)
  | stored (after : HeaderArray)
      (hroom : headers.count ≥ headers.capacity →
        alloc .array (headers.grownCapacity * headerSize) = true)
      (hkey : alloc .key (key.length + 1) = true) (hvalue : alloc .value (value.length + 1) = true)
      (hcapacity : after.capacity = headers.grownCapacity)
      (hstored : after.stored = headers.stored ++ [⟨some key, some value⟩])
      (hcount : after.count = headers.count + 1) :
      AddMove alloc headers key value after none

theorem httpHeadersAdd_moves (alloc : HeadersAlloc) (headers : HeaderArray)
    (key value : CString) :
    AddMove alloc headers key value (httpHeadersAdd alloc headers (some key) (some value)).1
      (httpHeadersAdd alloc headers (some key) (some value)).2 := by
  have hbehind (entry : HttpHeader) :
      HeaderArray.stored ⟨headers.headers.write headers.count [entry],
      headers.count, headers.grownCapacity⟩ = headers.stored := stored_write_behind _ _ _
  rw [httpHeadersAdd]
  by_cases harray : headers.count ≥ headers.capacity ∧
      alloc .array (headers.grownCapacity * headerSize) = false
  · rw [if_pos harray]
    exact .full harray.1 harray.2
  · have hroom (hfull : headers.count ≥ headers.capacity) :
        alloc .array (headers.grownCapacity * headerSize) = true := by
      simpa [hfull] using harray
    rw [if_neg harray]
    cases hkey : alloc .key (key.length + 1) with
    | false => exact .uncopied _ hroom (Or.inl hkey) rfl (hbehind _) rfl
    | true =>
      cases hvalue : alloc .value (value.length + 1) with
      | false =>
        refine .uncopied _ hroom (Or.inr hvalue) rfl ?_ rfl
        exact (stored_write_behind ⟨_, headers.count, headers.grownCapacity⟩ _ _).trans (hbehind _)
      | true =>
        refine .stored _ hroom hkey hvalue rfl ?_ rfl
        refine (stored_write ⟨_, headers.count, headers.grownCapacity⟩ _ _).trans ?_
        rw [hbehind]
        rfl

theorem headersGrow_toHeaders (alloc : HeadersAlloc) (headers : HeaderArray) :
    headersGrow alloc headers.toHeaders =
      if headers.count ≥ headers.capacity ∧
          alloc .array (headers.grownCapacity * headerSize) = false then none
      else some ⟨headers.stored, headers.grownCapacity⟩ := by
  have hcount : headers.toHeaders.count = headers.count := by
    simp [HeaderArray.toHeaders, HttpHeaders.count, HeaderArray.stored]
  have hcapacity : headers.toHeaders.capacity = headers.capacity := rfl
  rw [headersGrow, hcount, hcapacity]
  by_cases hfull : headers.count ≥ headers.capacity
  · rw [if_pos hfull, HeaderArray.grownCapacity, if_pos hfull]
    generalize (if headers.capacity = 0 then 8 else headers.capacity * 2) = newCap
    cases halloc : alloc .array (newCap * headerSize) with
    | false => simp [hfull, halloc]
    | true =>
      simp only [halloc, hfull, if_true, Bool.true_eq_false, and_false, if_false]
      rfl
  · rw [if_neg hfull, if_neg fun h => hfull h.1, HeaderArray.grownCapacity, if_neg hfull]
    rfl

/-- The array does what the list of the library's other functions does. -/
theorem httpHeadersAdd_toHeaders (alloc : HeadersAlloc) (headers : HeaderArray)
    (key value : Option CString) :
    ((httpHeadersAdd alloc headers key value).1.toHeaders,
      (httpHeadersAdd alloc headers key value).2) =
      headersAdd alloc headers.toHeaders key value := by
  cases key with
  | none => rfl
  | some key =>
    cases value with
    | none => rfl
    | some value =>
      have hmove := httpHeadersAdd_moves alloc headers key value
      generalize httpHeadersAdd alloc headers (some key) (some value) = result at hmove ⊢
      obtain ⟨after, rc⟩ := result
      rw [headersAdd, headersGrow_toHeaders]
      cases hmove with
      | full hfull harray => rw [if_pos ⟨hfull, harray⟩]
      | uncopied _ hroom hcopy hcap hstored hcount =>
        rw [if_neg fun h => Bool.false_ne_true (h.2.symm.trans (hroom h.1))]
        dsimp only at hcap hstored
        rcases hcopy with hkey | hvalue
        · simp [hkey, HeaderArray.toHeaders, hstored, hcap]
        · simp [hvalue, HeaderArray.toHeaders, hstored, hcap]
      | stored _ hroom hkey hvalue hcap hstored hcount =>
        rw [if_neg fun h => Bool.false_ne_true (h.2.symm.trans (hroom h.1))]
        dsimp only at hcap hstored
        simp [hkey, hvalue, HeaderArray.toHeaders, hstored, hcap]

/-- An addition is one of the specification. -/
theorem httpHeadersAdd_spec (alloc : HeadersAlloc) (h : headers.Holds fields)
    (key value : Option CString) : ∃ fields',
      AddSpec fields alloc key value (.ofCode (httpHeadersAdd alloc headers key value).2)
        fields' ∧
      (httpHeadersAdd alloc headers key value).1.Holds fields' := by
  by_cases hnull : key = none ∨ value = none
  · have hcall : httpHeadersAdd alloc headers key value = (headers, some .inval) := by
      rcases hnull with rfl | rfl
      · rfl
      · cases key <;> rfl
    rw [hcall]
    exact ⟨fields, Or.inr ⟨Or.inl ⟨rfl, hnull⟩, rfl⟩, h⟩
  · obtain ⟨hkey, hvalue⟩ := not_or.mp hnull
    obtain ⟨key, rfl⟩ := Option.ne_none_iff_exists'.mp hkey
    obtain ⟨value, rfl⟩ := Option.ne_none_iff_exists'.mp hvalue
    have hlt := HeaderArray.lt_grownCapacity h.2
    have hmove := httpHeadersAdd_moves alloc headers key value
    generalize httpHeadersAdd alloc headers (some key) (some value) = result at hmove
    obtain ⟨after, rc⟩ := result
    cases hmove with
    | full hfull harray => exact ⟨fields, Or.inr ⟨Or.inr ⟨rfl, _, _, harray⟩, rfl⟩, h⟩
    | uncopied _ hroom hcopy hcap hstored hcount =>
      have hrefused : ∃ block size, alloc block size = false := by
        rcases hcopy with hkey | hvalue
        · exact ⟨_, _, hkey⟩
        · exact ⟨_, _, hvalue⟩
      have hcapacity : after.capacity = headers.grownCapacity := hcap
      have hcounted : after.count = headers.count := hcount
      exact ⟨fields, Or.inr ⟨Or.inr ⟨rfl, hrefused⟩, rfl⟩, hstored.trans h.1,
        show after.count ≤ after.capacity by omega⟩
    | stored _ hroom hkey hvalue hcap hstored hcount =>
      refine ⟨fields ++ [(key, value)], Or.inl ⟨key, value, rfl, rfl, rfl, rfl⟩, ?_, ?_⟩
      · rw [hstored, h.1, List.map_append]
        rfl
      · have hcapacity : after.capacity = headers.grownCapacity := hcap
        have hcounted : after.count = headers.count + 1 := hcount
        change after.count ≤ after.capacity
        omega

/-- A slot below the count names the key exactly when its comparison gives 0. -/
theorem strcasecmpPortable_named (field : Field) (key : CString) :
    strcasecmpPortable field.1.bytes key.bytes = 0 ↔ Named (some key) field := by
  rw [strcasecmpPortable_eq_zero_iff field.1.noNul key.noNul]
  simp [Named, SameKey]

/-- The loop answers with the first field behind its index that has the key. -/
theorem getLoop_eq (key : CString) {passed rest : List Field}
    (h : headers.Holds (passed ++ rest)) :
    getLoop headers key passed.length =
      some (match rest.find? (Named (some key) ·) with
        | some field => .ok (some field.2)
        | none => .error .inval) := by
  induction rest generalizing passed with
  | nil =>
    have hcount := h.count_eq
    rw [List.append_nil] at hcount
    rw [getLoop, if_neg (by omega)]
    rfl
  | cons field rest ih =>
    have hslot : headers.headers passed.length = field.entry := h.slot (by simp)
    have hlt : passed.length < headers.count := by simp [h.count_eq]
    rw [getLoop, if_pos hlt, hslot]
    simp only [Field.entry, strcasecmpPortable_named]
    by_cases hnamed : Named (some key) field
    · simp [hnamed]
    · have hbehind : headers.Holds ((passed ++ [field]) ++ rest) := by simpa using h
      have hnext := ih hbehind
      rw [List.length_append, List.length_singleton] at hnext
      simp [hnamed, hnext]

/-- The moves up to index `k` copy each slot's upper neighbour into it. -/
theorem foldl_shift (m : Memory HttpHeader) (i n : ℕ) :
    (List.range' i n).foldl (fun m j => m.write j [m (j + 1)]) m =
      fun k => if i ≤ k ∧ k < i + n then m (k + 1) else m k := by
  induction n with
  | zero =>
    funext k
    simp
  | succ n ih =>
    rw [List.range'_concat, List.foldl_append, ih, List.foldl_cons, List.foldl_nil]
    funext k
    rcases lt_trichotomy k (i + 1 * n) with hlt | rfl | hgt
    · rw [Memory.write_below _ _ hlt]
      simp [show k < i + n by omega, show k < i + (n + 1) by omega]
    · simp [Memory.write]
    · rw [Memory.write_above _ _ (by simpa using hgt)]
      simp [show ¬ k < i + n by omega, show ¬ k < i + (n + 1) by omega]

/-- Moving the later entries up takes the entry out of the list. -/
theorem shiftLeft_read (m : Memory HttpHeader) {i count : ℕ} (h : i < count) :
    (shiftLeft m i count).read 0 (count - 1) = (m.read 0 count).eraseIdx i := by
  rw [shiftLeft, foldl_shift]
  apply List.ext_getElem?
  intro k
  rw [List.getElem?_eraseIdx]
  by_cases hk : k < count - 1
  · by_cases hik : i ≤ k
    · simp [Memory.read, hk, hik, show k + 1 < count by omega, show ¬ k < i by omega,
        show k < i + (count - 1 - i) by omega]
    · simp [Memory.read, hk, hik, show k < count by omega, show k < i by omega]
  · by_cases hik : k < i
    · simp [Memory.read, hk, hik]
      omega
    · simp [Memory.read, hk, hik]
      omega

/-- Removing the entry behind those already kept. -/
theorem HeaderArray.Holds.shiftLeft {kept rest : List Field} {field : Field}
    (h : headers.Holds (kept ++ field :: rest)) :
    HeaderArray.Holds ⟨shiftLeft headers.headers kept.length headers.count, headers.count - 1,
      headers.capacity⟩ (kept ++ rest) := by
  have hlt : kept.length < headers.count := by simp [h.count_eq]
  have hle := h.2
  refine ⟨?_, by dsimp only; omega⟩
  refine (shiftLeft_read headers.headers hlt).trans ?_
  rw [show headers.headers.read 0 headers.count = _ from h.1, List.eraseIdx_map,
    List.eraseIdx_append_of_length_le le_rfl, Nat.sub_self, List.eraseIdx_cons_zero]

theorem KeyHome.remove_freed {home : KeyHome} {i : ℕ} (h : home.remove i = .freed)
    (hhome : home ≠ .freed) : home = .entry i := by
  cases home with
  | apart => cases h
  | freed => exact absurd rfl hhome
  | entry k =>
    rw [remove] at h
    split_ifs at h with hsame
    rw [hsame]

theorem KeyHome.remove_entry {home : KeyHome} {i j : ℕ} (h : home.remove i = .entry (i + j)) :
    home = .entry (i + (j + 1)) := by
  cases home with
  | apart => cases h
  | freed => cases h
  | entry k =>
    rw [remove] at h
    split_ifs at h with hsame hless
    · have hindex : k - 1 = i + j := KeyHome.entry.inj h
      exact congrArg KeyHome.entry (by omega)
    · have hindex : k = i + j := KeyHome.entry.inj h
      omega

/-- The loop keeps the fields before its index and takes the fields with the key out of the
others, if it does not free the key before its last comparison. -/
theorem removeLoop_eq (key : CString) {home : KeyHome} {kept rest : List Field}
    (h : headers.Holds (kept ++ rest)) (found : Bool) (hfreed : home = .freed → rest = [])
    (hlast : ∀ j field, home = .entry (kept.length + j) → rest[j]? = some field →
      Named (some key) field → j + 1 = rest.length) :
    ∃ after, removeLoop key home headers kept.length found =
        some (after, found || rest.any (Named (some key) ·)) ∧
      after.Holds (kept ++ rest.filter (¬ Named (some key) ·)) := by
  induction rest generalizing kept headers found home with
  | nil =>
    have hcount := h.count_eq
    rw [List.append_nil] at hcount
    refine ⟨headers, ?_, by simpa using h⟩
    rw [removeLoop, if_neg (by omega)]
    simp
  | cons field rest ih =>
    have hslot : headers.headers kept.length = field.entry := h.slot (by simp)
    have hlt : kept.length < headers.count := by simp [h.count_eq]
    have hthere : home ≠ .freed := fun hgone => by cases hfreed hgone
    rw [removeLoop, if_pos hlt, hslot]
    simp only [Field.entry, strcasecmpPortable_named, hthere, if_false]
    by_cases hnamed : Named (some key) field
    · have hfreed' : home.remove kept.length = .freed → rest = [] := by
        intro hgone
        have hhome : home = .entry (kept.length + 0) := KeyHome.remove_freed hgone hthere
        have hone := hlast 0 field hhome rfl hnamed
        exact List.eq_nil_of_length_eq_zero (by simpa using hone.symm)
      obtain ⟨after, hloop, hafter⟩ := ih h.shiftLeft true hfreed'
        fun j next hhome hnext hname => by
        have hbefore := KeyHome.remove_entry hhome
        have hlength := hlast (j + 1) next hbefore hnext hname
        simpa using hlength
      exact ⟨after, by simp [hnamed, hloop], by simpa [hnamed] using hafter⟩
    · have hbehind : headers.Holds ((kept ++ [field]) ++ rest) := by simpa using h
      obtain ⟨after, hloop, hafter⟩ := ih hbehind found (fun hgone => absurd hgone hthere)
        fun j next hhome hnext hname => by
          rw [List.length_append, List.length_singleton, Nat.add_assoc, Nat.add_comm 1 j] at hhome
          have hlength := hlast (j + 1) next hhome hnext hname
          simpa using hlength
      rw [List.length_append, List.length_singleton] at hloop
      exact ⟨after, by simp [hnamed, hloop], by simpa [hnamed] using hafter⟩

/-- Once the key is freed, the next comparison reads it. -/
theorem removeLoop_freed (key : CString) {i : ℕ} {slots : List Field}
    (h : headers.Holds slots) (hi : i < headers.count) (found : Bool) :
    removeLoop key .freed headers i found = none := by
  have hlt : i < slots.length := h.count_eq ▸ hi
  have hslot : headers.headers i = (slots.get ⟨i, hlt⟩).entry :=
    h.slot (List.getElem?_eq_getElem hlt)
  rw [removeLoop, if_pos hi, hslot]
  rfl

/-- The loop comes to the entry that its key lies in, and to another one after it. -/
theorem removeLoop_none (key : CString) {kept rest : List Field} {field : Field} {j : ℕ}
    (h : headers.Holds (kept ++ rest)) (found : Bool) (hfield : rest[j]? = some field)
    (hnamed : Named (some key) field) (hj : j + 1 < rest.length) :
    removeLoop key (.entry (kept.length + j)) headers kept.length found = none := by
  induction rest generalizing kept headers found j with
  | nil => cases hfield
  | cons first rest ih =>
    have hslot : headers.headers kept.length = first.entry := h.slot (by simp)
    have hlt : kept.length < headers.count := by simp [h.count_eq]
    rw [removeLoop, if_pos hlt, hslot]
    simp only [Field.entry, strcasecmpPortable_named, reduceCtorEq, if_false]
    rw [List.length_cons] at hj
    cases j with
    | zero =>
      obtain rfl := Option.some.inj hfield
      have hmore : kept.length < headers.count - 1 := by
        rw [h.count_eq, List.length_append, List.length_cons]
        omega
      rw [if_pos hnamed, KeyHome.remove, if_pos (Nat.add_zero _)]
      exact removeLoop_freed key h.shiftLeft hmore true
    | succ j =>
      rw [List.getElem?_cons_succ] at hfield
      by_cases hfirst : Named (some key) first
      · rw [if_pos hfirst, KeyHome.remove, if_neg (by omega), if_pos (by omega)]
        exact ih h.shiftLeft true hfield (by omega)
      · have hbehind : headers.Holds ((kept ++ [first]) ++ rest) := by simpa using h
        have hnone := ih hbehind found hfield (by omega)
        rw [List.length_append, List.length_singleton, Nat.add_assoc, Nat.add_comm 1 j] at hnone
        rw [if_neg hfirst]
        exact hnone

end Operations

section Calls

variable {headers : HeaderArray} {fields : List Field}

theorem HeaderArray.Holds.reads (h : headers.Holds fields) {arg : Option StringArg}
    {text : Option CString} : argText headers.stored arg = some text ↔ Reads fields arg text := by
  rw [Reads, h.1]

theorem argText_eq_none {slots : List HttpHeader} {arg : Option StringArg} :
    argText slots arg = none ↔ ∃ s ∈ arg.toList, s.text slots = none := by
  cases arg with
  | none => simp [argText]
  | some arg => simp [argText]

/-- A string that is not there ends every call. -/
theorem headersStep_dangles {call : HeadersCall} (h : Dangles headers call) :
    headersStep headers call = none := by
  obtain ⟨arg, harg, htext⟩ := h
  cases call with
  | add alloc key value =>
    rcases List.mem_append.mp harg with hkey | hvalue
    · rw [headersStep, argText_eq_none.mpr ⟨arg, hkey, htext⟩]
      rfl
    · rw [headersStep, argText_eq_none.mpr ⟨arg, hvalue, htext⟩]
      cases argText headers.stored key <;> rfl
  | remove key =>
    rw [headersStep, argText_eq_none.mpr ⟨arg, harg, htext⟩]
    rfl
  | get key =>
    rw [headersStep, argText_eq_none.mpr ⟨arg, harg, htext⟩]
    rfl

theorem headersStep_freesItsKey {call : HeadersCall} (h : headers.Holds fields)
    (hfrees : FreesItsKey headers call) : headersStep headers call = none := by
  obtain ⟨arg, text, i, entry, rfl, htext, hhome, hi, hentry, hsame⟩ := hfrees
  rw [h.count_eq] at hi
  have hlt : i < fields.length := by omega
  have hfield : fields[i]? = some fields[i] := List.getElem?_eq_getElem hlt
  rw [h.slot hfield] at hentry
  obtain rfl : fields[i].1 = entry := Option.some.inj hentry
  have hall : headers.Holds ([] ++ fields) := h
  have hnone := removeLoop_none text hall false hfield
    ((strcasecmpPortable_named _ text).mp hsame) hi
  rw [List.length_nil, Nat.zero_add, ← hhome] at hnone
  rw [headersStep, argText, htext]
  simp [httpHeadersRemove, hnone]

/-- The call is one of the specification. -/
def Specified (headers : HeaderArray) (fields : List Field) (call : HeadersCall) : Prop :=
  ∃ after answer fields', headersStep headers call = some (after, answer) ∧
    HeadersSpec fields call answer fields' ∧ after.Holds fields'

theorem argText_of_not_dangles {call : HeadersCall} (hthere : ¬ Dangles headers call)
    {arg : Option StringArg} (harg : ∀ s ∈ arg.toList, s ∈ call.strings) :
    ∃ text, argText headers.stored arg = some text :=
  Option.ne_none_iff_exists'.mp fun hnone => by
    obtain ⟨s, hs, htext⟩ := argText_eq_none.mp hnone
    exact hthere ⟨s, harg s hs, htext⟩

theorem specified_add (h : headers.Holds fields) {alloc : HeadersAlloc}
    {key value : Option StringArg} (hthere : ¬ Dangles headers (.add alloc key value)) :
    Specified headers fields (.add alloc key value) := by
  obtain ⟨k, hk⟩ := argText_of_not_dangles hthere fun _ hs => List.mem_append_left _ hs
  obtain ⟨v, hv⟩ := argText_of_not_dangles hthere fun _ hs => List.mem_append_right _ hs
  obtain ⟨fields', hspec, hholds⟩ := httpHeadersAdd_spec alloc h k v
  refine ⟨_, _, fields', ?_, ⟨k, v, h.reads.mp hk, h.reads.mp hv, hspec⟩, hholds⟩
  rw [headersStep, hk, hv]
  rfl

/-- The whole loop over the list, with a key that it does not free before its last comparison. -/
theorem removeLoop_stored (h : headers.Holds fields) {arg : StringArg} {text : CString}
    (htext : arg.text headers.stored = some text)
    (hkeeps : ¬ FreesItsKey headers (.remove (some arg))) :
    ∃ after, removeLoop text arg.home headers 0 false =
        some (after, fields.any (Named (some text) ·)) ∧
      after.Holds (fields.filter (¬ Named (some text) ·)) := by
  have hall : headers.Holds ([] ++ fields) := h
  have hheld : arg.home = .freed → fields = [] := fun hfreed => by cases arg <;> cases hfreed
  refine removeLoop_eq text hall false hheld fun j field hhome hfield hnamed => ?_
  rw [List.length_nil, Nat.zero_add] at hhome
  have hj := (List.getElem?_eq_some_iff.mp hfield).1
  by_contra hmore
  refine hkeeps ⟨arg, text, j, field.1, rfl, htext, hhome, ?_, ?_,
    (strcasecmpPortable_named field text).mpr hnamed⟩
  · rw [h.count_eq]
    omega
  · rw [h.slot hfield]
    rfl

theorem specified_remove (h : headers.Holds fields) {key : Option StringArg}
    (hthere : ¬ Dangles headers (.remove key)) (hkeeps : ¬ FreesItsKey headers (.remove key)) :
    Specified headers fields (.remove key) := by
  obtain ⟨k, hk⟩ := argText_of_not_dangles hthere fun _ hs => hs
  cases key with
  | none =>
    exact ⟨headers, .failed .inval, fields, rfl, ⟨none, rfl, by simp [RemoveSpec, Named]⟩, h⟩
  | some arg =>
    obtain ⟨text, htext, rfl⟩ := Option.map_eq_some_iff.mp hk
    obtain ⟨after, hloop, hafter⟩ := removeLoop_stored h htext hkeeps
    refine ⟨after, _, _, ?_, ⟨some text, h.reads.mp hk, rfl, rfl⟩, hafter⟩
    rw [headersStep, hk]
    simp only [Option.bind_eq_bind, Option.bind_some, httpHeadersRemove, Option.elim, hloop,
      Option.map_some]
    by_cases hany : ∃ field ∈ fields, Named (some text) field
    · have hfound : fields.any (Named (some text) ·) = true := by simpa using hany
      simp [hany, hfound, HeadersAnswer.ofCode]
    · have hfound : fields.any (Named (some text) ·) = false := by simpa using hany
      simp [hany, hfound, HeadersAnswer.ofCode]

theorem specified_get (h : headers.Holds fields) {key : Option StringArg}
    (hthere : ¬ Dangles headers (.get key)) : Specified headers fields (.get key) := by
  obtain ⟨k, hk⟩ := argText_of_not_dangles hthere fun _ hs => hs
  rw [Specified, headersStep, hk]
  cases k with
  | none =>
    refine ⟨headers, _, fields, rfl, ⟨none, h.reads.mp hk, rfl, ?_⟩, h⟩
    have hnone : fields.find? (Named none ·) = none := by simp [Named]
    rw [hnone]
    rfl
  | some text =>
    have hall : headers.Holds ([] ++ fields) := h
    have hloop := getLoop_eq text hall
    rw [List.length_nil] at hloop
    refine ⟨headers, _, fields, ?_, ⟨some text, h.reads.mp hk, rfl, rfl⟩, h⟩
    simp only [Option.bind_eq_bind, Option.bind_some, httpHeadersGet, hloop]
    cases fields.find? (Named (some text) ·) with
    | none => rfl
    | some field => rfl

/-- Every other call is one of the specification. -/
theorem headersStep_spec (headers : HeaderArray) (fields : List Field) (call : HeadersCall)
    (h : headers.Holds fields) (hfine : ¬ (Dangles headers call ∨ FreesItsKey headers call)) :
    ∃ after answer fields', headersStep headers call = some (after, answer) ∧
      HeadersSpec fields call answer fields' ∧ after.Holds fields' := by
  obtain ⟨hthere, hkeeps⟩ := not_or.mp hfine
  cases call with
  | add alloc key value => exact specified_add h hthere
  | remove key => exact specified_remove h hthere hkeeps
  | get key => exact specified_get h hthere

end Calls

/-- The array holds the list of pairs that the specification arrives at with the same answers, and
has room for it. -/
def RefinesList (junk : Memory HttpHeader) (calls : List HeadersCall) : Prop :=
  ∃ answers headers fields,
    history headersStep (HeaderArray.init junk) calls = some (answers, headers) ∧
      Explains HeadersSpec [] answers fields ∧
      headers.stored = fields.map Field.entry ∧ headers.count ≤ headers.capacity

/-- Wherever memory runs out, calls on an initialised list are those of a list of pairs exactly
when the strings that they are given are there and no removal frees the key that it still
compares. -/
theorem headers_refine_list_iff (junk : Memory HttpHeader) (calls : List HeadersCall) :
    RefinesList junk calls ↔
      Allowed headersStep Dangles (HeaderArray.init junk) calls ∧
        Allowed headersStep FreesItsKey (HeaderArray.init junk) calls := by
  have hinit : (HeaderArray.init junk).Holds [] := ⟨rfl, le_rfl⟩
  rw [← Allowed.or_iff]
  refine exists_history_explains_iff headersStep_spec (fun headers fields call h hbad => ?_)
    hinit calls
  rcases hbad with hdangles | hfrees
  · exact headersStep_dangles hdangles
  · exact headersStep_freesItsKey h hfrees

/-- A key of a header in these calls. -/
def acceptKey : CString := .ofBytes (EventStream.asciiBytes "Accept".toList)

/-- Two headers, the first of which is removed by the key that the list has stored. -/
def removeByOwnKey : List HeadersCall :=
  [.add (fun _ _ => true) (some (.apart acceptKey)) (some (.apart (.ofBytes [42]))),
    .add (fun _ _ => true) (some (.apart (.ofBytes [88]))) (some (.apart (.ofBytes [49]))),
    .remove (some (.inKey 0 0))]

/-- The key is freed with the first header and compared with that of the second. -/
theorem removeByOwnKey_not_refines :
    ¬ RefinesList (fun _ => ⟨none, none⟩) removeByOwnKey := by
  rintro ⟨answers, headers, fields, hrun, -⟩
  have hinit : (HeaderArray.init fun _ => ⟨none, none⟩).Holds [] := ⟨rfl, le_rfl⟩
  have hallowed : Allowed headersStep FreesItsKey (HeaderArray.init fun _ => ⟨none, none⟩)
      removeByOwnKey :=
    (Allowed.or_iff.mp (allowed_of_history headersStep_spec
      (fun headers fields call h hbad => hbad.elim headersStep_dangles
        (headersStep_freesItsKey h)) hinit (by rw [hrun]; rfl))).2
  exact hallowed (removeByOwnKey.take 2) (.remove (some (.inKey 0 0))) [] _ _ rfl rfl
    ⟨.inKey 0 0, acceptKey, 0, acceptKey, rfl, rfl, rfl, by decide, rfl, by decide⟩

end AbstractHttp.Http
