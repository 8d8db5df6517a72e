import AbstractHttp.Http.Types
import AbstractHttp.Library.History
import AbstractHttp.Library.Upsert

/-!
# The cookie jar

`http_cookie_jar_set` overwrites the value of a name that the jar has and appends
any other, and `http_cookie_jar_get` reads the first cookie of a name.
-/
namespace AbstractHttp.Http
open Library

/-- `struct HttpCookie` as far as the library reads it. A cookie is counted when both strings have
been copied. -/
structure HttpCookie where
  name : CString
  value : CString
  deriving DecidableEq

/-- `struct HttpCookieJar`; its `count` is the length of the list. -/
structure HttpCookieJar where
  cookies : List HttpCookie
  capacity : ℕ
  deriving DecidableEq

/-- `http_cookie_jar_init`. -/
def HttpCookieJar.init : HttpCookieJar := ⟨[], 0⟩

/-- What `http_cookie_jar_set` allocates: the array and the two copies. -/
inductive CookieBlock where
  | array
  | name
  | value
  deriving DecidableEq, Repr

/-- Which requests `malloc` and `realloc` grant during a call, by block and size. -/
abbrev CookieAlloc := CookieBlock → ℕ → Bool

/-- Bytes in a `struct HttpCookie`. -/
def cookieSize : ℕ := 48

/-- `new_cap`, or the capacity where the array is not full. -/
def HttpCookieJar.grownCapacity (jar : HttpCookieJar) : ℕ :=
  if jar.cookies.length ≥ jar.capacity then
    if jar.capacity = 0 then 4 else jar.capacity * 2
  else jar.capacity

/-- `http_cookie_jar_set`. A call that fails leaves the cookies, but may have grown the array. -/
def cookieJarSet (alloc : CookieAlloc) (jar : HttpCookieJar) (name value : Option CString) :
    HttpCookieJar × Option ErrorCode :=
  match name, value with
  | some name, some value =>
    match jar.cookies.findIdx? (·.name = name) with
    | some i =>
      if alloc .value (value.length + 1) = false then (jar, some .nomem)
      else ({ jar with cookies := jar.cookies.modify i ({ · with value := value }) }, none)
    | none =>
      if jar.cookies.length ≥ jar.capacity ∧
          alloc .array (jar.grownCapacity * cookieSize) = false then (jar, some .nomem)
      else
        let grown := { jar with capacity := jar.grownCapacity }
        if alloc .name (name.length + 1) = false then (grown, some .nomem)
        else if alloc .value (value.length + 1) = false then (grown, some .nomem)
        else ({ grown with cookies := jar.cookies ++ [⟨name, value⟩] }, none)
  | _, _ => (jar, some .inval)

/-- `http_cookie_jar_get`. -/
def cookieJarGet (jar : HttpCookieJar) (name : Option CString) : Except ErrorCode CString :=
  match name with
  | some name =>
    match jar.cookies.find? (·.name = name) with
    | some cookie => .ok cookie.value
    | none => .error .inval
  | none => .error .inval

/-- A call of `http_cookie_jar_set` with the memory that it is granted. -/
structure JarCall where
  alloc : CookieAlloc
  name : Option CString
  value : Option CString

/-- One call, with the code that it returns. -/
def jarStep (jar : HttpCookieJar) (call : JarCall) : Option (HttpCookieJar × Option ErrorCode) :=
  some (cookieJarSet call.alloc jar call.name call.value)

section Map

/-- The values of the names that have one. -/
abbrev CookieMap := CString → Option CString

/-- The jar as a map: a call that succeeds sets the value of its name, and one that fails does
nothing. -/
def JarSpec (m : CookieMap) (call : JarCall) (rc : Option ErrorCode) (m' : CookieMap) : Prop :=
  (rc = none ∧ ∃ name value, call.name = some name ∧ call.value = some value ∧
    m' = Function.update m name (some value)) ∨
  (∃ e, rc = some e) ∧ m' = m

/-- What a history leaves as the value of a name: the value of the last call that set it. -/
def lastSet (name : CString) (start : Option CString)
    (answers : List (JarCall × Option ErrorCode)) : Option CString :=
  answers.foldl (fun last (call, rc) =>
    if rc = none ∧ call.name = some name then call.value else last) start

theorem explains_lastSet {m m' : CookieMap} {answers : List (JarCall × Option ErrorCode)}
    (h : Explains JarSpec m answers m') (name : CString) :
    m' name = lastSet name (m name) answers := by
  induction h with
  | nil => rfl
  | @cons m m₁ m₂ call rc answers hcall _ ih =>
    rw [ih, lastSet, lastSet, List.foldl_cons]
    congr 1
    rcases hcall with ⟨rfl, n, value, hname, hvalue, rfl⟩ | ⟨⟨e, rfl⟩, rfl⟩
    · by_cases hn : name = n
      · simp [hn, hname, hvalue]
      · simp [hname, hn, Ne.symm hn]
    · simp

/-- The cookies have distinct names, and the map says what their values are. -/
structure HttpCookieJar.IsMap (jar : HttpCookieJar) (m : CookieMap) : Prop where
  distinct : (jar.cookies.map HttpCookie.name).Nodup
  values : ∀ name, (jar.cookies.find? (·.name = name)).map HttpCookie.value = m name
  room : jar.cookies.length ≤ jar.capacity

theorem HttpCookieJar.isMap_init : HttpCookieJar.init.IsMap fun _ => none where
  distinct := List.nodup_nil
  values _ := rfl
  room := le_rfl

end Map

section Set

variable {jar : HttpCookieJar} {m : CookieMap}

/-- Overwriting the value of the first cookie of a name is seen under that name only. -/
theorem find?_modify_value {cookies : List HttpCookie} {name value : CString} {i : ℕ}
    (h : cookies.findIdx? (·.name = name) = some i) (n : CString) :
    ((cookies.modify i ({ · with value := value })).find? (·.name = n)).map HttpCookie.value =
      if n = name then some value else (cookies.find? (·.name = n)).map HttpCookie.value := by
  induction cookies generalizing i with
  | nil => simp at h
  | cons cookie cookies ih =>
    rw [List.findIdx?_cons] at h
    by_cases hname : cookie.name = name
    · obtain rfl : 0 = i := by simpa [hname] using h
      by_cases hn : n = name
      · simp [hname, hn]
      · have hne : ¬ name = n := fun heq => hn heq.symm
        simp [hname, hn, hne]
    · obtain ⟨j, hj, rfl⟩ : ∃ j, cookies.findIdx? (·.name = name) = some j ∧ j + 1 = i := by
        simpa [hname] using h
      have hrest := ih hj
      rw [List.modify_succ_cons]
      by_cases hn : cookie.name = n
      · have hne : ¬ n = name := fun heq => hname (hn.trans heq)
        simp [hn, hne]
      · simp only [List.find?_cons, hn, decide_false, hrest]

theorem map_name_modify (cookies : List HttpCookie) (value : CString) (i : ℕ) :
    (cookies.modify i ({ · with value := value })).map HttpCookie.name =
      cookies.map HttpCookie.name := by
  apply List.ext_getElem?
  intro k
  rw [List.getElem?_map, List.getElem?_map, List.getElem?_modify]
  cases cookies[k]? with
  | none => rfl
  | some cookie =>
    by_cases hik : i = k
    · simp [hik]
    · simp [hik]

theorem HttpCookieJar.IsMap.grow (h : jar.IsMap m) :
    HttpCookieJar.IsMap { jar with capacity := jar.grownCapacity } m := by
  refine ⟨h.distinct, h.values, ?_⟩
  have hroom := h.room
  dsimp only [HttpCookieJar.grownCapacity]
  split_ifs <;> omega

theorem HttpCookieJar.IsMap.overwrite (h : jar.IsMap m) {name : CString} {i : ℕ}
    (hi : jar.cookies.findIdx? (·.name = name) = some i) (value : CString) :
    HttpCookieJar.IsMap { jar with cookies := jar.cookies.modify i ({ · with value := value }) }
      (Function.update m name (some value)) where
  distinct := by
    rw [map_name_modify]
    exact h.distinct
  values n := by
    rw [find?_modify_value hi, Function.update_apply, h.values]
  room := by simpa using h.room

theorem HttpCookieJar.IsMap.append (h : jar.IsMap m) {name : CString}
    (hnew : ∀ cookie ∈ jar.cookies, cookie.name ≠ name) (value : CString) :
    HttpCookieJar.IsMap ⟨jar.cookies ++ [⟨name, value⟩], jar.grownCapacity⟩
      (Function.update m name (some value)) where
  distinct := by
    have hfresh : name ∉ jar.cookies.map HttpCookie.name := by simpa using hnew
    rw [List.map_append]
    exact List.nodup_append_comm.mp (List.nodup_cons.mpr ⟨hfresh, h.distinct⟩)
  values n := by
    rw [List.find?_append, Function.update_apply, ← h.values]
    by_cases hn : n = name
    · have hnone : jar.cookies.find? (·.name = name) = none := by
        simpa [List.find?_eq_none] using hnew
      rw [hn, hnone]
      simp
    · have hne : ¬ name = n := fun heq => hn heq.symm
      simp [hn, hne]
  room := by
    have hroom := h.room
    simp only [List.length_append, List.length_singleton, HttpCookieJar.grownCapacity]
    split_ifs <;> omega

/-- What a call does: it is refused, overwrites the value of the name, or appends the pair. -/
inductive SetMove (jar : HttpCookieJar) (name value : Option CString) :
    HttpCookieJar → Option ErrorCode → Prop where
  | refused (e : ErrorCode) : SetMove jar name value jar (some e)
  | uncopied (e : ErrorCode) :
      SetMove jar name value { jar with capacity := jar.grownCapacity } (some e)
  | overwritten {n v : CString} {i : ℕ} (hname : name = some n) (hvalue : value = some v)
      (hfound : jar.cookies.findIdx? (·.name = n) = some i) :
      SetMove jar name value
        { jar with cookies := jar.cookies.modify i ({ · with value := v }) } none
  | appended {n v : CString} (hname : name = some n) (hvalue : value = some v)
      (hnew : ∀ cookie ∈ jar.cookies, cookie.name ≠ n) :
      SetMove jar name value ⟨jar.cookies ++ [⟨n, v⟩], jar.grownCapacity⟩ none

theorem cookieJarSet_moves (alloc : CookieAlloc) (jar : HttpCookieJar)
    (name value : Option CString) :
    SetMove jar name value (cookieJarSet alloc jar name value).1
      (cookieJarSet alloc jar name value).2 := by
  cases name with
  | none => exact .refused .inval
  | some n =>
    cases value with
    | none => exact .refused .inval
    | some v =>
      rw [cookieJarSet]
      cases hfound : jar.cookies.findIdx? (·.name = n) with
      | some i =>
        cases hvalue : alloc .value (v.length + 1) with
        | false => exact .refused .nomem
        | true => exact .overwritten rfl rfl hfound
      | none =>
        have hnew : ∀ cookie ∈ jar.cookies, cookie.name ≠ n := by
          simpa [List.findIdx?_eq_none_iff] using hfound
        by_cases harray : jar.cookies.length ≥ jar.capacity ∧
            alloc .array (jar.grownCapacity * cookieSize) = false
        · simp only [if_pos harray]
          exact .refused .nomem
        · simp only [if_neg harray]
          cases hname : alloc .name (n.length + 1) with
          | false => exact .uncopied .nomem
          | true =>
            cases hvalue : alloc .value (v.length + 1) with
            | false => exact .uncopied .nomem
            | true => exact .appended rfl rfl hnew

/-- A call that fails leaves the cookies as they are. -/
theorem SetMove.cookies_eq {name value : Option CString} {jar' : HttpCookieJar}
    {rc : Option ErrorCode} (h : SetMove jar name value jar' rc) (hrc : rc ≠ none) :
    jar'.cookies = jar.cookies := by
  cases h with
  | refused e => rfl
  | uncopied e => rfl
  | overwritten => exact absurd rfl hrc
  | appended => exact absurd rfl hrc

/-- Every call is one of the specification. -/
theorem jarStep_spec (jar : HttpCookieJar) (m : CookieMap) (call : JarCall) (h : jar.IsMap m) :
    ∃ jar' rc m', jarStep jar call = some (jar', rc) ∧ JarSpec m call rc m' ∧ jar'.IsMap m' := by
  have hmove := cookieJarSet_moves call.alloc jar call.name call.value
  rw [jarStep]
  generalize cookieJarSet call.alloc jar call.name call.value = result at hmove
  obtain ⟨jar', rc⟩ := result
  refine ⟨jar', rc, ?_⟩
  cases hmove with
  | refused e => exact ⟨m, rfl, Or.inr ⟨⟨e, rfl⟩, rfl⟩, h⟩
  | uncopied e => exact ⟨m, rfl, Or.inr ⟨⟨e, rfl⟩, rfl⟩, h.grow⟩
  | overwritten hname hvalue hfound =>
    exact ⟨_, rfl, Or.inl ⟨rfl, _, _, hname, hvalue, rfl⟩, h.overwrite hfound _⟩
  | appended hname hvalue hnew =>
    exact ⟨_, rfl, Or.inl ⟨rfl, _, _, hname, hvalue, rfl⟩, h.append hnew _⟩

/-- Reading a name gives what the map has for it. -/
theorem HttpCookieJar.IsMap.get (h : jar.IsMap m) (name : CString) :
    cookieJarGet jar (some name) = match m name with
      | some value => .ok value
      | none => .error .inval := by
  rw [cookieJarGet, ← h.values]
  cases jar.cookies.find? (·.name = name) with
  | none => rfl
  | some cookie => rfl

end Set

section Granted

variable {jar jar₁ jar₂ : HttpCookieJar}

/-- The jar as a list of pairs. -/
def HttpCookieJar.pairs (jar : HttpCookieJar) : List (CString × CString) :=
  jar.cookies.map fun cookie => (cookie.name, cookie.value)

/-- The jar that `http_cookie_jar_set` leaves when memory is there. -/
def jarSet (jar : HttpCookieJar) (name value : CString) : HttpCookieJar :=
  (cookieJarSet (fun _ _ => true) jar (some name) (some value)).1

theorem HttpCookieJar.ext_pairs (hpairs : jar₁.pairs = jar₂.pairs)
    (hcapacity : jar₁.capacity = jar₂.capacity) : jar₁ = jar₂ := by
  obtain ⟨cookies₁, capacity₁⟩ := jar₁
  obtain ⟨cookies₂, capacity₂⟩ := jar₂
  have hinj : Function.Injective fun cookie : HttpCookie => (cookie.name, cookie.value) := by
    rintro ⟨name, value⟩ ⟨name', value'⟩ heq
    obtain ⟨rfl, rfl⟩ := Prod.mk.inj heq
    rfl
  obtain rfl : cookies₁ = cookies₂ := List.map_injective_iff.mpr hinj hpairs
  obtain rfl : capacity₁ = capacity₂ := hcapacity
  rfl

theorem HttpCookieJar.keys_pairs (jar : HttpCookieJar) :
    jar.pairs.map Prod.fst = jar.cookies.map HttpCookie.name := by
  rw [pairs, List.map_map]
  rfl

theorem modify_pairs {cookies : List HttpCookie} {name : CString} {i : ℕ}
    (h : cookies.findIdx? (·.name = name) = some i) (value : CString) :
    (cookies.modify i ({ · with value := value })).map (fun cookie => (cookie.name, cookie.value)) =
      upsert name value (cookies.map fun cookie => (cookie.name, cookie.value)) := by
  induction cookies generalizing i with
  | nil => simp at h
  | cons cookie cookies ih =>
    rw [List.findIdx?_cons] at h
    by_cases hname : cookie.name = name
    · obtain rfl : 0 = i := by simpa [hname] using h
      simp [upsert, hname]
    · obtain ⟨j, hj, rfl⟩ : ∃ j, cookies.findIdx? (·.name = name) = some j ∧ j + 1 = i := by
        simpa [hname] using h
      rw [List.modify_succ_cons, List.map_cons, ih hj]
      simp [upsert, hname]

/-- Setting a cookie updates the list of pairs, and a new name may let the array grow. -/
theorem jarSet_spec (jar : HttpCookieJar) (name value : CString) :
    (jarSet jar name value).pairs = upsert name value jar.pairs ∧
      (jarSet jar name value).capacity =
        if name ∈ jar.pairs.map Prod.fst then jar.capacity else jar.grownCapacity := by
  rw [jarSet, cookieJarSet]
  cases hfound : jar.cookies.findIdx? (·.name = name) with
  | some i =>
    have hmem : name ∈ jar.pairs.map Prod.fst := by
      rw [jar.keys_pairs]
      by_contra hnot
      have hnone : jar.cookies.findIdx? (·.name = name) = none := by
        simpa [List.findIdx?_eq_none_iff] using hnot
      rw [hnone] at hfound
      cases hfound
    rw [if_pos hmem]
    exact ⟨modify_pairs hfound value, rfl⟩
  | none =>
    have hnot : name ∉ jar.pairs.map Prod.fst := by
      rw [jar.keys_pairs]
      simpa [List.findIdx?_eq_none_iff] using hfound
    rw [if_neg hnot, upsert_of_notMem hnot]
    simp [HttpCookieJar.pairs]

/-- A sequence of cookies set one after the other. -/
def jarSetAll (jar : HttpCookieJar) (calls : List (CString × CString)) : HttpCookieJar :=
  calls.foldl (fun jar call => jarSet jar call.1 call.2) jar

theorem jarSetAll_pairs (jar : HttpCookieJar) (calls : List (CString × CString)) :
    (jarSetAll jar calls).pairs = upsertAll jar.pairs calls := by
  induction calls generalizing jar with
  | nil => rfl
  | cons call calls ih =>
    rw [jarSetAll, List.foldl_cons, ← jarSetAll, ih, (jarSet_spec jar call.1 call.2).1]
    rfl

/-- How far the array grows depends on the names alone. -/
theorem jarSetAll_capacity (hcapacity : jar₁.capacity = jar₂.capacity)
    (hnames : jar₁.pairs.map Prod.fst = jar₂.pairs.map Prod.fst)
    (calls : List (CString × CString × CString)) :
    (jarSetAll jar₁ (calls.map fun call => (call.1, call.2.1))).capacity =
      (jarSetAll jar₂ (calls.map fun call => (call.1, call.2.2))).capacity := by
  induction calls generalizing jar₁ jar₂ with
  | nil => exact hcapacity
  | cons call calls ih =>
    obtain ⟨hpairs₁, hcapacity₁⟩ := jarSet_spec jar₁ call.1 call.2.1
    obtain ⟨hpairs₂, hcapacity₂⟩ := jarSet_spec jar₂ call.1 call.2.2
    have hlength : jar₁.cookies.length = jar₂.cookies.length := by
      simpa [HttpCookieJar.pairs] using congrArg List.length hnames
    refine ih ?_ ?_
    · rw [hcapacity₁, hcapacity₂, hnames, HttpCookieJar.grownCapacity,
        HttpCookieJar.grownCapacity, hlength, hcapacity]
    · rw [hpairs₁, hpairs₂, keys_upsert, keys_upsert, hnames]

/-- Sequences that set the same names lead to the same jar exactly when they agree on every value
that is not set again later. -/
theorem jarSetAll_eq_iff (calls : List (CString × CString × CString)) (jar : HttpCookieJar) :
    jarSetAll jar (calls.map fun call => (call.1, call.2.1)) =
        jarSetAll jar (calls.map fun call => (call.1, call.2.2)) ↔
      ∀ front call rest, calls = front ++ call :: rest →
        call.2.1 = call.2.2 ∨ ∃ later ∈ rest, later.1 = call.1 := by
  rw [← upsertAll_eq_iff calls jar.pairs, ← jarSetAll_pairs, ← jarSetAll_pairs]
  constructor
  · intro h
    rw [h]
  · intro h
    exact HttpCookieJar.ext_pairs h (jarSetAll_capacity rfl rfl calls)

end Granted

/-- Whatever calls are made and wherever memory runs out, the names in the jar are distinct and
reading a name gives the value that the last successful call for it has set. Any further call
leaves the cookies alone when it fails, and the values of other names in any case. -/
theorem cookieJar_lastWins (calls : List JarCall) :
    ∃ answers jar, history jarStep .init calls = some (answers, jar) ∧
      (jar.cookies.map HttpCookie.name).Nodup ∧
      (∀ name, cookieJarGet jar (some name) = match lastSet name none answers with
        | some value => .ok value
        | none => .error .inval) ∧
      ∀ alloc name value jar' rc, cookieJarSet alloc jar name value = (jar', rc) →
        (rc ≠ none → jar'.cookies = jar.cookies) ∧
        ∀ n, name ≠ some n → cookieJarGet jar' (some n) = cookieJarGet jar (some n) := by
  obtain ⟨answers, jar, m, hrun, hexplains, hmap⟩ :=
    exists_history_explains jarStep_spec HttpCookieJar.isMap_init calls
  refine ⟨answers, jar, hrun, hmap.distinct, fun name => ?_, ?_⟩
  · rw [hmap.get, explains_lastSet hexplains]
  · intro alloc name value jar' rc hcall
    have hmove := cookieJarSet_moves alloc jar name value
    rw [hcall] at hmove
    refine ⟨hmove.cookies_eq, fun n hn => ?_⟩
    obtain ⟨jar'', rc', m', hstep, hspec, hmap'⟩ := jarStep_spec jar m ⟨alloc, name, value⟩ hmap
    have hsame : (jar', rc) = (jar'', rc') := by
      rw [← hcall]
      exact Option.some.inj hstep
    obtain ⟨rfl, rfl⟩ := Prod.mk.inj hsame
    have hvalue : m' n = m n := by
      rcases hspec with ⟨-, k, v, hname, -, rfl⟩ | ⟨-, rfl⟩
      · exact Function.update_of_ne (fun hk => hn (by rw [hk]; exact hname)) _ _
      · rfl
    rw [hmap.get, hmap'.get, hvalue]

end AbstractHttp.Http
