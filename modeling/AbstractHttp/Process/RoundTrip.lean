import AbstractHttp.Process.Deserialize

/-!
# What the receiver gets of a message

The proof follows the cursor: it stands before some field and the rest of the
message, and parsing the field leaves it before the rest.
-/
namespace AbstractHttp.Process
open Library Http

/-- The cursor stands before `rest`. -/
structure StandsBefore (bytes : List UInt8) (p : ℕ) (rest : List UInt8) : Prop where
  inside : p ≤ bytes.length
  rest_eq : bytes.drop p = rest

namespace StandsBefore

variable {bytes rest xs : List UInt8} {p : ℕ}

theorem start (bytes : List UInt8) : StandsBefore bytes 0 bytes := ⟨Nat.zero_le _, rfl⟩

theorem length_eq (h : StandsBefore bytes p rest) : p + rest.length = bytes.length := by
  have hinside := h.inside
  rw [← h.rest_eq, List.length_drop]
  omega

theorem advance (h : StandsBefore bytes p (xs ++ rest)) :
    StandsBefore bytes (p + xs.length) rest := by
  have hlength := h.length_eq
  rw [List.length_append] at hlength
  refine ⟨by omega, ?_⟩
  rw [← List.drop_drop, h.rest_eq, List.drop_left]

theorem le (h : StandsBefore bytes p (xs ++ rest)) : p + xs.length ≤ bytes.length :=
  h.advance.inside

theorem copyFrom_eq (h : StandsBefore bytes p (xs ++ rest)) (size : ℕ) (hsize : xs.length ≤ size) :
    copyFrom bytes p xs.length size = .ok xs := by
  rw [copyFrom, if_pos ⟨h.le, hsize⟩, h.rest_eq, List.take_left]

end StandsBefore

/-- A copy that stays in the buffer passes the check, unless the buffer ends at `2 ^ 64`. -/
theorem Placed.beyond_of_le {m : Placed} (hfits : m.base + m.bytes.length < 2 ^ 64) {p w : ℕ}
    (h : p + w ≤ m.bytes.length) : m.beyond p w = false := by
  rw [← Bool.not_eq_true, Placed.beyond_iff, Placed.address, Placed.address,
    Nat.mod_eq_of_lt hfits, Nat.mod_eq_of_lt (by omega)]
  omega

section Fields
variable {order : ByteOrder} {m : Placed} {rest : List UInt8} {p : ℕ}

theorem parseInt_intBytes (hfits : m.base + m.bytes.length < 2 ^ 64) {val : Int32}
    (h : StandsBefore m.bytes p (intBytes order val ++ rest)) :
    parseInt order m.bytes m.beyond p = .ok (val, p + (intBytes order val).length) := by
  have hlen : (intBytes order val).length = sizeofInt := ByteOrder.toBytes_length order _ _
  have hcopy := h.copyFrom_eq sizeofInt hlen.le
  have hle := h.le
  rw [hlen] at hcopy hle ⊢
  have hval : order.ofBytes (intBytes order val) = val.toUInt32.toNat :=
    order.ofBytes_toBytes (val.toUInt32.toNat_lt)
  rw [parseInt, m.beyond_of_le hfits hle, if_neg Bool.false_ne_true, hcopy, ok_bind, hval,
    UInt32.ofNat_toNat]
  rfl

theorem parseSize_sizeBytes (hfits : m.base + m.bytes.length < 2 ^ 64) {val : ℕ}
    (hval : val < 2 ^ 64) (h : StandsBefore m.bytes p (sizeBytes order val ++ rest)) :
    parseSize order m.bytes m.beyond p = .ok (val, p + (sizeBytes order val).length) := by
  have hlen : (sizeBytes order val).length = sizeofSize := ByteOrder.toBytes_length order _ _
  have hcopy := h.copyFrom_eq sizeofSize hlen.le
  have hle := h.le
  rw [hlen] at hcopy hle ⊢
  have hread : order.ofBytes (sizeBytes order val) = val := order.ofBytes_toBytes hval
  rw [parseSize, m.beyond_of_le hfits hle, hcopy]
  simp [pure, Except.pure, hread]

theorem parseBlock_bytes (hfits : m.base + m.bytes.length < 2 ^ 64) {malloc : ℕ → Bool}
    (hgrant : ∀ n, malloc n = true) {bs : List UInt8} (size : ℕ) (hsize : bs.length ≤ size)
    (h : StandsBefore m.bytes p (bs ++ rest)) :
    parseBlock m.bytes m.beyond malloc bs.length size p = .ok (bs, p + bs.length) := by
  rw [parseBlock, m.beyond_of_le hfits h.le, hgrant, h.copyFrom_eq size hsize]
  rfl

/-- What a string becomes: the empty one comes back as NULL. -/
def received : Option CString → Option CString
  | some s => if s.bytes = [] then none else some s
  | none => none

theorem parseStr_strBytes (hfits : m.base + m.bytes.length < 2 ^ 64) {malloc : ℕ → Bool}
    (hgrant : ∀ n, malloc n = true) {str : Option CString}
    (h : StandsBefore m.bytes p (strBytes order str ++ rest)) :
    parseStr order m.bytes m.beyond malloc p =
      .ok (received str, p + (strBytes order str).length) := by
  rw [strBytes, List.append_assoc] at h
  have hword : (sizeBytes order (strLength str)).length = 8 := ByteOrder.toBytes_length _ _ _
  have hsum := h.length_eq
  simp only [List.length_append, hword] at hsum
  cases str with
  | none =>
    rw [parseStr, parseSize_sizeBytes hfits (by simp [strLength]) h]
    simp [pure, Except.pure, strLength, received, strBytes]
  | some s =>
    change p + (8 + (s.length + rest.length)) = m.bytes.length at hsum
    rw [parseStr, parseSize_sizeBytes hfits (by simp only [strLength]; omega) h, ok_bind]
    by_cases hnil : s.bytes = []
    · simp [pure, Except.pure, strLength, CString.length, hnil, received, strBytes]
    · have hne : strLength (some s) ≠ 0 := fun hzero => hnil (List.eq_nil_of_length_eq_zero hzero)
      have hroom : s.bytes.length ≤ sizeT (strLength (some s) + 1) := by
        rw [sizeT, Nat.mod_eq_of_lt (by simp only [strLength]; omega)]
        exact Nat.le_succ _
      have hread : parseBlock m.bytes m.beyond malloc (strLength (some s)) _ _ = _ :=
        parseBlock_bytes hfits hgrant _ hroom h.advance
      dsimp only
      rw [if_neg hne, hread, ok_bind, received, if_neg hnil, strBytes, List.length_append,
        ← Nat.add_assoc]
      simp [pure, Except.pure]

end Fields

/-- A header with two strings, of which the name is not empty. -/
def Named (h : HttpHeader) : Prop :=
  ∃ key value, h = ⟨some key, some value⟩ ∧ key.bytes ≠ []

/-- The value is there and empty. -/
def HasEmptyValue (h : HttpHeader) : Prop := ∃ value, h.value = some value ∧ value.bytes = []

section Messages
variable {order : ByteOrder} {m : Placed} {alloc : IpcAlloc} {rest : List UInt8} {p : ℕ}

/-- One pass of the loop passes the received strings on to `http_headers_add`. -/
theorem parseHeader_strBytes (hfits : m.base + m.bytes.length < 2 ^ 64)
    (hgrant : ∀ b n, alloc b n = true) (h : HttpHeader) (i : ℕ) (headers : HttpHeaders)
    (hp : StandsBefore m.bytes p (strBytes order h.key ++ (strBytes order h.value ++ rest))) :
    parseHeader order m.bytes m.beyond alloc i headers p =
      match headersAdd (fun block => alloc (.header i block)) headers
          (received h.key) (received h.value) with
      | (headers, none) =>
        .ok (headers, p + (strBytes order h.key).length + (strBytes order h.value).length)
      | (_, some e) => .error (.error e) := by
  rw [parseHeader, parseStr_strBytes hfits (hgrant _) hp, ok_bind]
  dsimp only
  rw [parseStr_strBytes hfits (hgrant _) hp.advance, ok_bind]
  rfl

theorem received_of_ne {s : CString} (h : s.bytes ≠ []) : received (some s) = some s := if_neg h

theorem received_of_nil {s : CString} (h : s.bytes = []) : received (some s) = none := if_pos h

/-- Headers whose values are not empty arrive in order. -/
theorem parseHeaders_of_valued (hfits : m.base + m.bytes.length < 2 ^ 64)
    (hgrant : ∀ b n, alloc b n = true) {hs : List HttpHeader} (hnamed : ∀ h ∈ hs, Named h)
    (hvalued : ∀ h ∈ hs, ¬ HasEmptyValue h) (i : ℕ) (headers : HttpHeaders)
    (hp : StandsBefore m.bytes p (headersBytes order hs ++ rest)) :
    ∃ grown, parseHeaders order m.bytes m.beyond alloc hs.length i headers p =
        .ok (grown, p + (headersBytes order hs).length) ∧
      grown.headers = headers.headers ++ hs := by
  induction hs generalizing i headers p with
  | nil => exact ⟨headers, rfl, (List.append_nil _).symm⟩
  | cons h hs ih =>
    obtain ⟨key, value, rfl, hkey⟩ := hnamed h (List.mem_cons_self ..)
    have hvalue : value.bytes ≠ [] := fun hnil =>
      hvalued _ (List.mem_cons_self ..) ⟨value, rfl, hnil⟩
    simp only [headersBytes, List.flatMap_cons, List.append_assoc] at hp ⊢
    obtain ⟨grown, hadd, hgrown⟩ := headersAdd_of_granted
      (fun block n => hgrant (.header i block) n) headers key value
    obtain ⟨last, hrun, hlast⟩ := ih (fun h hh => hnamed h (List.mem_cons_of_mem _ hh))
      (fun h hh => hvalued h (List.mem_cons_of_mem _ hh)) (i + 1) grown hp.advance.advance
    refine ⟨last, ?_, ?_⟩
    · rw [List.length_cons, parseHeaders,
        parseHeader_strBytes hfits hgrant ⟨some key, some value⟩ i headers hp]
      simp only [received_of_ne hkey, received_of_ne hvalue, hadd, ok_bind]
      rw [hrun]
      simp [headersBytes, Nat.add_assoc]
    · rw [hlast, hgrown, List.append_assoc, List.singleton_append]

/-- An empty value makes the whole message fail. -/
theorem parseHeaders_of_emptyValue (hfits : m.base + m.bytes.length < 2 ^ 64)
    (hgrant : ∀ b n, alloc b n = true) {hs : List HttpHeader} (hnamed : ∀ h ∈ hs, Named h)
    (hempty : ∃ h ∈ hs, HasEmptyValue h) (i : ℕ) (headers : HttpHeaders)
    (hp : StandsBefore m.bytes p (headersBytes order hs ++ rest)) :
    parseHeaders order m.bytes m.beyond alloc hs.length i headers p =
      .error (.error .inval) := by
  induction hs generalizing i headers p with
  | nil => simp at hempty
  | cons h hs ih =>
    obtain ⟨key, value, rfl, hkey⟩ := hnamed h (List.mem_cons_self ..)
    simp only [headersBytes, List.flatMap_cons, List.append_assoc] at hp
    rw [List.length_cons, parseHeaders,
      parseHeader_strBytes hfits hgrant ⟨some key, some value⟩ i headers hp]
    by_cases hvalue : value.bytes = []
    · simp only [received_of_nil hvalue, headersAdd_of_null _ _ (Or.inr rfl), error_bind]
    · obtain ⟨grown, hadd, -⟩ := headersAdd_of_granted
        (fun block n => hgrant (.header i block) n) headers key value
      have hrest : ∃ h ∈ hs, HasEmptyValue h := by
        obtain ⟨h, hmem, v, hv, hnil⟩ := hempty
        rcases List.mem_cons.mp hmem with rfl | hmem
        · exact absurd (Option.some.inj hv ▸ hnil) hvalue
        · exact ⟨h, hmem, v, hv, hnil⟩
      simp only [received_of_ne hkey, received_of_ne hvalue, hadd, ok_bind]
      exact ih (fun h hh => hnamed h (List.mem_cons_of_mem _ hh)) hrest (i + 1) grown
        hp.advance.advance

/-- The bytes that a body of `bodyLen` bytes holds. -/
def HoldsBody (body : Option (List UInt8)) (bodyLen : ℕ) : Prop :=
  (body.getD []).length = bodyLen

theorem parseBody_bodyBytes (hfits : m.base + m.bytes.length < 2 ^ 64) {malloc : ℕ → Bool}
    (hgrant : ∀ n, malloc n = true) {body : Option (List UInt8)} {bodyLen : ℕ}
    (hbody : HoldsBody body bodyLen)
    (hp : StandsBefore m.bytes p (bodyBytes order body bodyLen ++ rest)) :
    ∃ got q, parseBody order m.bytes m.beyond malloc p = .ok ((got, bodyLen), q) ∧
      got.getD [] = body.getD [] := by
  rw [HoldsBody] at hbody
  subst hbody
  rw [bodyBytes, List.take_length, List.append_assoc] at hp
  have hword : (sizeBytes order (body.getD []).length).length = 8 := ByteOrder.toBytes_length _ _ _
  have hsum := hp.length_eq
  simp only [List.length_append, hword] at hsum
  rw [parseBody, parseSize_sizeBytes hfits (by omega) hp, ok_bind]
  dsimp only
  by_cases hnil : (body.getD []).length = 0
  · rw [if_pos hnil, hnil]
    exact ⟨none, _, rfl, (List.eq_nil_of_length_eq_zero hnil).symm⟩
  · rw [if_neg hnil, parseBlock_bytes hfits hgrant _ le_rfl hp.advance, ok_bind]
    exact ⟨some (body.getD []), _, rfl, rfl⟩

theorem headersBytes_length_ge (order : ByteOrder) (hs : List HttpHeader) :
    hs.length ≤ (headersBytes order hs).length := by
  induction hs with
  | nil => exact Nat.zero_le _
  | cons h hs ih =>
    have hkey : 0 < (strBytes order h.key).length := by
      simp [strBytes, sizeBytes, sizeofSize]
    simp only [headersBytes, List.flatMap_cons, List.length_append, List.length_cons] at ih ⊢
    omega

/-- The header count is read back, and the loop stands before the headers. -/
theorem parseTail_tailBytes (alloc : IpcAlloc) (hfits : m.base + m.bytes.length < 2 ^ 64)
    {headers : HttpHeaders} {body : Option (List UInt8)} {bodyLen : ℕ}
    (hp : StandsBefore m.bytes p (tailBytes order headers body bodyLen)) :
    ∃ q, StandsBefore m.bytes q
        (headersBytes order headers.headers ++ (bodyBytes order body bodyLen ++ [])) ∧
      parseTail order m.bytes m.beyond alloc p = (do
        let (headers, p) ← parseHeaders order m.bytes m.beyond alloc headers.headers.length 0
          .init q
        let (body, _) ← parseBody order m.bytes m.beyond (alloc .body) p
        return (headers, body)) := by
  rw [tailBytes] at hp
  have hsum := hp.length_eq
  have hcount := headersBytes_length_ge order headers.headers
  rw [List.length_append, List.length_append] at hsum
  refine ⟨_, by rw [List.append_nil]; exact hp.advance, ?_⟩
  rw [parseTail, parseSize_sizeBytes hfits (by rw [HttpHeaders.count]; omega) hp, ok_bind]
  rfl

theorem parseTail_of_valued (hfits : m.base + m.bytes.length < 2 ^ 64)
    (hgrant : ∀ b n, alloc b n = true) {headers : HttpHeaders} {body : Option (List UInt8)}
    {bodyLen : ℕ} (hnamed : ∀ h ∈ headers.headers, Named h)
    (hvalued : ∀ h ∈ headers.headers, ¬ HasEmptyValue h) (hbody : HoldsBody body bodyLen)
    (hp : StandsBefore m.bytes p (tailBytes order headers body bodyLen)) :
    ∃ grown got, parseTail order m.bytes m.beyond alloc p = .ok (grown, got, bodyLen) ∧
      grown.headers = headers.headers ∧ got.getD [] = body.getD [] := by
  obtain ⟨q, hq, htail⟩ := parseTail_tailBytes alloc hfits hp
  obtain ⟨grown, hrun, hgrown⟩ := parseHeaders_of_valued hfits hgrant hnamed hvalued 0 .init hq
  obtain ⟨got, r, hgot, hsame⟩ := parseBody_bodyBytes hfits (hgrant .body) hbody hq.advance
  refine ⟨grown, got, ?_, hgrown, hsame⟩
  rw [htail, hrun, ok_bind]
  dsimp only
  rw [hgot, ok_bind]
  rfl

theorem parseTail_of_emptyValue (hfits : m.base + m.bytes.length < 2 ^ 64)
    (hgrant : ∀ b n, alloc b n = true) {headers : HttpHeaders} {body : Option (List UInt8)}
    {bodyLen : ℕ} (hnamed : ∀ h ∈ headers.headers, Named h)
    (hempty : ∃ h ∈ headers.headers, HasEmptyValue h)
    (hp : StandsBefore m.bytes p (tailBytes order headers body bodyLen)) :
    parseTail order m.bytes m.beyond alloc p = .error (.error .inval) := by
  obtain ⟨q, hq, htail⟩ := parseTail_tailBytes alloc hfits hp
  rw [htail, parseHeaders_of_emptyValue hfits hgrant hnamed hempty 0 .init hq, error_bind]

end Messages

/-- The request that arrives is the one that was sent. -/
structure RequestArrives (req got : HttpRequest) : Prop where
  method : got.method = req.method
  url : got.url = req.url
  headers : got.headers.headers = req.headers.headers
  bodyLen : got.bodyLen = req.bodyLen
  body : got.body.getD [] = req.body.getD []

/-- The response that arrives is the one that was sent. -/
structure ResponseArrives (res got : HttpResponse) : Prop where
  statusCode : got.statusCode = res.statusCode
  headers : got.headers.headers = res.headers.headers
  bodyLen : got.bodyLen = res.bodyLen
  body : got.body.getD [] = res.body.getD []

section RoundTrip
variable {order : ByteOrder} {malloc : ℕ → Bool} {alloc : IpcAlloc} {m : Placed}

theorem deserializeRequest_serializeRequest (hmalloc : ∀ n, malloc n = true)
    (hgrant : ∀ b n, alloc b n = true) (hbase : m.base ≠ 0)
    (hfits : m.base + m.bytes.length < 2 ^ 64) {req : HttpRequest}
    (hurl : ∃ url, req.url = some url ∧ url.bytes ≠ [])
    (hnamed : ∀ h ∈ req.headers.headers, Named h) (hbody : HoldsBody req.body req.bodyLen)
    (hm : m.bytes = (serializeRequest order malloc req).state) :
    (∃ got, deserializeRequest order alloc m = .ok got ∧ RequestArrives req got) ↔
      ∀ h ∈ req.headers.headers, ¬ HasEmptyValue h := by
  obtain ⟨url, hsome, hne⟩ := hurl
  have hreceived : received req.url = req.url := by rw [hsome, received_of_ne hne]
  rw [serializeRequest, hmalloc, if_pos rfl, (appends_writeRequest order _ req []).2,
    List.nil_append] at hm
  have hstart : StandsBefore m.bytes 0 _ := ⟨Nat.zero_le _, hm⟩
  have htail := hstart.advance.advance
  rw [deserializeRequest, if_neg hbase, parseRequest, parseInt_intBytes hfits hstart, ok_bind]
  dsimp only
  rw [parseStr_strBytes hfits (hgrant _) hstart.advance, ok_bind, hreceived]
  dsimp only
  by_cases hvalued : ∀ h ∈ req.headers.headers, ¬ HasEmptyValue h
  · refine iff_of_true ?_ hvalued
    obtain ⟨grown, got, hrun, hheaders, hsame⟩ :=
      parseTail_of_valued hfits hgrant hnamed hvalued hbody htail
    rw [hrun, ok_bind]
    exact ⟨_, rfl, HttpMethod.ofCode_code _, rfl, hheaders, rfl, hsame⟩
  · refine iff_of_false ?_ hvalued
    push Not at hvalued
    rw [parseTail_of_emptyValue hfits hgrant hnamed hvalued htail, error_bind]
    rintro ⟨got, hgot, -⟩
    cases hgot

theorem deserializeResponse_serializeResponse (hmalloc : ∀ n, malloc n = true)
    (hgrant : ∀ b n, alloc b n = true) (hbase : m.base ≠ 0)
    (hfits : m.base + m.bytes.length < 2 ^ 64) {res : HttpResponse}
    (hnamed : ∀ h ∈ res.headers.headers, Named h) (hbody : HoldsBody res.body res.bodyLen)
    (hm : m.bytes = (serializeResponse order malloc res).state) :
    (∃ got, deserializeResponse order alloc m = .ok got ∧ ResponseArrives res got) ↔
      ∀ h ∈ res.headers.headers, ¬ HasEmptyValue h := by
  rw [serializeResponse, hmalloc, if_pos rfl, (appends_writeResponse order _ res []).2,
    List.nil_append] at hm
  have hstart : StandsBefore m.bytes 0 _ := ⟨Nat.zero_le _, hm⟩
  rw [deserializeResponse, if_neg hbase, parseResponse, parseInt_intBytes hfits hstart, ok_bind]
  dsimp only
  by_cases hvalued : ∀ h ∈ res.headers.headers, ¬ HasEmptyValue h
  · refine iff_of_true ?_ hvalued
    obtain ⟨grown, got, hrun, hheaders, hsame⟩ :=
      parseTail_of_valued hfits hgrant hnamed hvalued hbody hstart.advance
    rw [hrun, ok_bind]
    exact ⟨_, rfl, rfl, hheaders, rfl, hsame⟩
  · refine iff_of_false ?_ hvalued
    push Not at hvalued
    rw [parseTail_of_emptyValue hfits hgrant hnamed hvalued hstart.advance, error_bind]
    rintro ⟨got, hgot, -⟩
    cases hgot

/-- With memory at hand, a message arrives as it was sent exactly when none of its headers has an
empty value. -/
theorem messages_arrive_iff (hmalloc : ∀ n, malloc n = true) (hgrant : ∀ b n, alloc b n = true)
    (hbase : m.base ≠ 0) (hfits : m.base + m.bytes.length < 2 ^ 64) :
    (∀ req : HttpRequest, (∃ url, req.url = some url ∧ url.bytes ≠ []) →
      (∀ h ∈ req.headers.headers, Named h) → HoldsBody req.body req.bodyLen →
      m.bytes = (serializeRequest order malloc req).state →
      ((∃ got, deserializeRequest order alloc m = .ok got ∧ RequestArrives req got) ↔
        ∀ h ∈ req.headers.headers, ¬ HasEmptyValue h)) ∧
    (∀ res : HttpResponse,
      (∀ h ∈ res.headers.headers, Named h) → HoldsBody res.body res.bodyLen →
      m.bytes = (serializeResponse order malloc res).state →
      ((∃ got, deserializeResponse order alloc m = .ok got ∧ ResponseArrives res got) ↔
        ∀ h ∈ res.headers.headers, ¬ HasEmptyValue h)) :=
  ⟨fun _ hurl hnamed hbody hm =>
      deserializeRequest_serializeRequest hmalloc hgrant hbase hfits hurl hnamed hbody hm,
    fun _ hnamed hbody hm =>
      deserializeResponse_serializeResponse hmalloc hgrant hbase hfits hnamed hbody hm⟩

end RoundTrip

/-- `GET /` with one header, named `k`. -/
def requestWithValue (value : CString) : HttpRequest :=
  { HttpRequest.init with
    url := some ⟨[0x2F], by decide⟩
    headers := ⟨[⟨some ⟨[0x6B], by decide⟩, some value⟩], 8⟩ }

/-- The message of a request, placed at address 4096. -/
def placedRequest (req : HttpRequest)
    (hfits : 4096 + (serializeRequest .little (fun _ => true) req).state.length ≤ 2 ^ 64) :
    Placed := ⟨4096, (serializeRequest .little (fun _ => true) req).state, hfits⟩

/-- The message of a response, placed there too. -/
def placedResponse (res : HttpResponse)
    (hfits : 4096 + (serializeResponse .little (fun _ => true) res).state.length ≤ 2 ^ 64) :
    Placed := ⟨4096, (serializeResponse .little (fun _ => true) res).state, hfits⟩

/-- Three headers, the first and the last of the same name. -/
def repeatedHeaders : HttpHeaders where
  headers :=
    [⟨some (.ofBytes [0x6B]), some (.ofBytes [0x76])⟩,
      ⟨some (.ofBytes [0x6C, 0x6D]), some (.ofBytes [0x20])⟩,
      ⟨some (.ofBytes [0x6B]), some (.ofBytes [0x77, 0x77])⟩]
  capacity := 8

/-- `PUT /` with these headers and a body of three bytes. -/
def repeatedRequest : HttpRequest :=
  { HttpRequest.init with
    method := .put
    url := some (.ofBytes [0x2F])
    headers := repeatedHeaders
    body := some [0x00, 0xFF, 0x0A]
    bodyLen := 3 }

/-- A response with them, and a body of two bytes. -/
def repeatedResponse : HttpResponse where
  statusCode := 201
  headers := repeatedHeaders
  body := some [0x00, 0x01]
  bodyLen := 2

theorem messages_arrive_iff_example :
    (∃ got, deserializeRequest .little (fun _ _ => true)
        (placedRequest repeatedRequest (by decide)) = .ok got ∧
      RequestArrives repeatedRequest got) ∧
    ∃ got, deserializeResponse .little (fun _ _ => true)
        (placedResponse repeatedResponse (by decide)) = .ok got ∧
      ResponseArrives repeatedResponse got := by
  have hnamed : ∀ h ∈ repeatedHeaders.headers, Named h := by
    simp only [repeatedHeaders, List.forall_mem_cons]
    exact ⟨⟨_, _, rfl, by decide⟩, ⟨_, _, rfl, by decide⟩, ⟨_, _, rfl, by decide⟩, nofun⟩
  have hvalued : ∀ h ∈ repeatedHeaders.headers, ¬ HasEmptyValue h := by
    simp [repeatedHeaders, HasEmptyValue, CString.ofBytes]
  constructor
  · have h := @messages_arrive_iff .little (fun _ => true) (fun _ _ => true)
      (placedRequest repeatedRequest (by decide)) (fun _ => rfl) (fun _ _ => rfl) (by decide)
      (by decide)
    exact (h.1 repeatedRequest ⟨_, rfl, by decide⟩ hnamed rfl rfl).mpr hvalued
  · have h := @messages_arrive_iff .little (fun _ => true) (fun _ _ => true)
      (placedResponse repeatedResponse (by decide)) (fun _ => rfl) (fun _ _ => rfl) (by decide)
      (by decide)
    exact (h.2 repeatedResponse hnamed rfl rfl).mpr hvalued

/-- A request with the header `k` and an empty value is one that may be sent, and the receiver
refuses it. -/
theorem emptyValue_refused :
    (∃ url, (requestWithValue ⟨[], by decide⟩).url = some url ∧ url.bytes ≠ []) ∧
      (∀ h ∈ (requestWithValue ⟨[], by decide⟩).headers.headers, Named h) ∧
      HoldsBody (requestWithValue ⟨[], by decide⟩).body
        (requestWithValue ⟨[], by decide⟩).bodyLen ∧
      deserializeRequest .little (fun _ _ => true)
          (placedRequest (requestWithValue ⟨[], by decide⟩) (by decide)) =
        .error (.error .inval) := by
  refine ⟨⟨_, rfl, by decide⟩, ?_, rfl, rfl⟩
  simp [requestWithValue, Named]

end AbstractHttp.Process
