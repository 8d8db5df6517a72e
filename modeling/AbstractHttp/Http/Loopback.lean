import AbstractHttp.Http.FormRequests

/-!
# The OAuth 2.0 loopback

`http_oauth2_localhost_intercept` takes the parameters of a redirect out of the text of one
request. It works on the C string in its buffer, so that nothing behind a NUL is looked at.
-/
namespace AbstractHttp.Http
open EventStream

def questionMark : UInt8 := 0x3F

/-- The four strings that the caller may ask for. -/
inductive LoopbackOut where
  | code
  | state
  | error
  | errorDesc
  deriving DecidableEq, Repr

/-- The key that a string is looked up by; its length is compared first. -/
def LoopbackOut.key : LoopbackOut → List UInt8
  | code => asciiBytes "code".toList
  | state => asciiBytes "state".toList
  | error => asciiBytes "error".toList
  | errorDesc => asciiBytes "error_description".toList

/-- The strings set so far; `none` is NULL. -/
abbrev LoopbackOuts := LoopbackOut → Option CString

/-- The bytes of a key. -/
def inKey (c : UInt8) : Bool := c ≠ equalsSign ∧ c ≠ ampersand ∧ c ≠ space

/-- The bytes of a value. -/
def inValue (c : UInt8) : Bool := c ≠ ampersand ∧ c ≠ space

/-- A key, the value behind its `=`, if there is one, and the text behind them. -/
def readParam (p : List UInt8) : List UInt8 × Option (List UInt8) × List UInt8 :=
  match p.dropWhile inKey with
  | [] => (p.takeWhile inKey, none, [])
  | c :: rest =>
    if c = equalsSign then (p.takeWhile inKey, some (rest.takeWhile inValue), rest.dropWhile inValue)
    else (p.takeWhile inKey, none, c :: rest)

/-- The pointer to set for a parameter; `wants` tells which are not NULL. -/
def outFor (wants : LoopbackOut → Bool) (key : List UInt8) : Option LoopbackOut :=
  [.code, .state, .error, .errorDesc].find? fun out => key = out.key ∧ wants out

/-- A value is decoded into the string it is for; `alloc` is which sizes `malloc` grants. -/
def setOut (alloc : ℕ → Bool) (wants : LoopbackOut → Bool) (outs : LoopbackOuts) (key : List UInt8)
    (value : Option (List UInt8)) : Except ErrorCode LoopbackOuts :=
  match outFor wants key, value with
  | some out, some value => do
    let text ← urldecodeAlloc value (alloc (value.length + 1))
    return Function.update outs out (some text)
  | _, _ => .ok outs

/-- The text behind an `&`. -/
def skipAmpersand : List UInt8 → List UInt8
  | [] => []
  | c :: rest => if c = ampersand then rest else c :: rest

theorem skipAmpersand_length (p : List UInt8) : (skipAmpersand p).length ≤ p.length := by
  cases p with
  | nil => exact le_rfl
  | cons c rest =>
    rw [skipAmpersand]
    split_ifs
    · exact Nat.le_succ _
    · exact le_rfl

theorem readParam_length (p : List UInt8) :
    (readParam p).2.2.length ≤ (p.dropWhile inKey).length := by
  rw [readParam]
  split
  next => exact Nat.zero_le _
  next c rest hdrop =>
    rw [hdrop]
    split_ifs
    · exact (List.length_dropWhile_le _ _).trans (Nat.le_succ _)
    · exact le_rfl

/-- Each round of the loop comes further. -/
theorem readParam_rest {p : List UInt8} (hne : p ≠ []) (hspace : p.head? ≠ some space) :
    (skipAmpersand (readParam p).2.2).length < p.length := by
  obtain ⟨c, rest, rfl⟩ := List.exists_cons_of_ne_nil hne
  cases hkey : inKey c with
  | true =>
    have hdrop := readParam_length (c :: rest)
    rw [List.dropWhile_cons_of_pos hkey] at hdrop
    have hrest : (rest.dropWhile inKey).length ≤ rest.length := List.length_dropWhile_le _ _
    exact Nat.lt_succ_of_le ((skipAmpersand_length _).trans (hdrop.trans hrest))
  | false =>
    have hstop : (c :: rest).dropWhile inKey = c :: rest :=
      List.dropWhile_cons_of_neg (by simp [hkey])
    rw [readParam, hstop]
    dsimp only
    split_ifs with hequals
    · exact Nat.lt_succ_of_le ((skipAmpersand_length _).trans (List.length_dropWhile_le _ _))
    · have hampersand : c = ampersand := by
        by_contra hother
        simp [inKey, hequals, hother] at hkey
        exact hspace (congrArg some hkey)
      rw [skipAmpersand, if_pos hampersand]
      exact Nat.lt_succ_self _

/-- The loop over the query; an allocation that fails ends it. -/
def readQuery (alloc : ℕ → Bool) (wants : LoopbackOut → Bool) (p : List UInt8)
    (outs : LoopbackOuts) : LoopbackOuts × Option ErrorCode :=
  if p ≠ [] ∧ p.head? ≠ some space then
    match setOut alloc wants outs (readParam p).1 (readParam p).2.1 with
    | .ok outs => readQuery alloc wants (skipAmpersand (readParam p).2.2) outs
    | .error e => (outs, some e)
  else (outs, none)
termination_by p.length
decreasing_by exact readParam_rest (by tauto) (by tauto)

/-- The parsing of a request text. -/
def readRedirect (alloc : ℕ → Bool) (wants : LoopbackOut → Bool) (text : List UInt8) :
    LoopbackOuts × Option ErrorCode :=
  if asciiBytes "GET ".toList <+: text then
    match (text.drop 4).dropWhile fun c =>
      c ≠ questionMark ∧ c ≠ space ∧ c ≠ cr ∧ c ≠ lf with
    | [] => (fun _ => none, none)
    | c :: query =>
      if c = questionMark then readQuery alloc wants query fun _ => none else (fun _ => none, none)
  else (fun _ => none, some .inval)

/-- `http_oauth2_localhost_intercept`; `received` is what the client sends before `recv`, and
`none` where a socket call fails. -/
def localhostIntercept (alloc : ℕ → Bool) (wants : LoopbackOut → Bool)
    (received : Option (List UInt8)) : LoopbackOuts × Option ErrorCode :=
  match received with
  | none => (fun _ => none, some .io)
  | some [] => (fun _ => none, some .io)
  | some (c :: rest) => readRedirect alloc wants (CString.ofBytes ((c :: rest).take 4095)).bytes

/-! What a redirect with encoded values gives. -/

/-- The text of a redirect. -/
def redirectText (path : List UInt8) (params : List (List UInt8 × CString))
    (rest : List UInt8) : List UInt8 :=
  asciiBytes "GET ".toList ++ (path ++ questionMark ::
    ([ampersand].intercalate (params.map formPiece) ++ space :: rest))

/-- A path that the query comes behind, as a C string has it. -/
def RedirectPath (path : List UInt8) : Prop :=
  questionMark ∉ path ∧ space ∉ path ∧ cr ∉ path ∧ lf ∉ path ∧ 0 ∉ path

instance (path : List UInt8) : Decidable (RedirectPath path) :=
  inferInstanceAs (Decidable (_ ∧ _ ∧ _ ∧ _ ∧ _))

/-- A key that a parameter may have. -/
def RedirectKey (key : List UInt8) : Prop := FormKey key ∧ space ∉ key

instance (key : List UInt8) : Decidable (RedirectKey key) := inferInstanceAs (Decidable (_ ∧ _))

/-- The value of the last parameter with a key. -/
def lastValue (key : List UInt8) (params : List (List UInt8 × CString)) : Option CString :=
  ((params.filter fun param => param.1 = key).getLast?).map Prod.snd

/-- What a caller may expect of the strings. -/
def expectedOuts (wants : LoopbackOut → Bool) (params : List (List UInt8 × CString)) :
    LoopbackOuts :=
  fun out => if wants out then lastValue out.key params else none

theorem key_injective : Function.Injective LoopbackOut.key := by
  intro a b h
  cases a <;> cases b <;> first | rfl | exact absurd h (by decide)

section Reading

variable {key value rest : List UInt8}

theorem inKey_of_redirectKey (hkey : RedirectKey key) : ∀ c ∈ key, inKey c = true := by
  intro c hc
  obtain ⟨⟨hampersand, hequals, -⟩, hspace⟩ := hkey
  refine decide_eq_true ⟨?_, ?_, ?_⟩
  · exact ne_of_mem_of_not_mem hc hequals
  · exact ne_of_mem_of_not_mem hc hampersand
  · exact ne_of_mem_of_not_mem hc hspace

theorem inValue_of_encoded (src : List UInt8) : ∀ c ∈ urlencodeAppend src, inValue c = true := by
  intro c hc
  refine decide_eq_true ⟨?_, ?_⟩
  · exact ne_of_mem_of_not_mem hc
      (not_mem_urlencodeAppend (by decide) (by decide) (by decide) _)
  · exact ne_of_mem_of_not_mem hc
      (not_mem_urlencodeAppend (by decide) (by decide) (by decide) _)

/-- A parameter is read up to a byte that no value has. -/
theorem readParam_formPiece {param : List UInt8 × CString} (hkey : RedirectKey param.1) {stop : UInt8}
    (hstop : inValue stop = false) (rest : List UInt8) :
    readParam (formPiece param ++ stop :: rest) =
      (param.1, some (urlencodeAppend param.2.bytes), stop :: rest) := by
  have hin := inKey_of_redirectKey hkey
  have hvalue := inValue_of_encoded param.2.bytes
  have hequals : ¬ inKey equalsSign = true := by decide
  have hnot : ¬ inValue stop = true := by simp [hstop]
  have hpiece : formPiece param ++ stop :: rest =
      param.1 ++ equalsSign :: (urlencodeAppend param.2.bytes ++ stop :: rest) := by
    rw [formPiece, List.append_assoc, List.cons_append]
  rw [hpiece, readParam, List.dropWhile_append_of_pos hin, List.takeWhile_append_of_pos hin,
    List.dropWhile_cons_of_neg hequals, List.takeWhile_cons_of_neg hequals, List.append_nil]
  dsimp only
  rw [if_pos rfl, List.takeWhile_append_of_pos hvalue, List.dropWhile_append_of_pos hvalue,
    List.takeWhile_cons_of_neg hnot, List.dropWhile_cons_of_neg hnot, List.append_nil]

/-- A parameter begins with a byte that does not end the query. -/
theorem formPiece_head {param : List UInt8 × CString} (hkey : RedirectKey param.1)
    (rest : List UInt8) :
    formPiece param ++ rest ≠ [] ∧ (formPiece param ++ rest).head? ≠ some space := by
  obtain ⟨key, value⟩ := param
  cases key with
  | nil => exact ⟨List.cons_ne_nil _ _, by simp [formPiece, equalsSign, space]⟩
  | cons c key =>
    refine ⟨List.cons_ne_nil _ _, ?_⟩
    rintro hhead
    exact hkey.2 (Option.some.inj hhead ▸ List.mem_cons_self)

end Reading

section Loop

variable {alloc : ℕ → Bool} {wants : LoopbackOut → Bool} {params : List (List UInt8 × CString)}

/-- One round on an encoded parameter. -/
def setParam (wants : LoopbackOut → Bool) (outs : LoopbackOuts) (param : List UInt8 × CString) :
    LoopbackOuts :=
  match outFor wants param.1 with
  | some out => Function.update outs out (some param.2)
  | none => outs

theorem setOut_encoded (hgrant : ∀ n, alloc n = true) (outs : LoopbackOuts)
    (param : List UInt8 × CString) :
    setOut alloc wants outs param.1 (some (urlencodeAppend param.2.bytes)) =
      .ok (setParam wants outs param) := by
  cases hout : outFor wants param.1 with
  | none => simp only [setOut, setParam, hout]
  | some out =>
    simp only [setOut, setParam, hout, hgrant, urldecodeAlloc_urlencodeAppend]
    rfl

theorem readQuery_params (hgrant : ∀ n, alloc n = true)
    (hkeys : ∀ param ∈ params, RedirectKey param.1) (rest : List UInt8) (outs : LoopbackOuts) :
    readQuery alloc wants ([ampersand].intercalate (params.map formPiece) ++ space :: rest) outs =
      (params.foldl (setParam wants) outs, none) := by
  induction params generalizing outs with
  | nil =>
    rw [readQuery, if_neg]
    · rfl
    · exact fun h => h.2 rfl
  | cons param params ih =>
    obtain ⟨hkey, hkeys⟩ := List.forall_mem_cons.mp hkeys
    rw [List.map_cons]
    by_cases hlast : params = []
    · subst hlast
      rw [List.map_nil, List.intercalate_singleton, readQuery, if_pos (formPiece_head hkey _),
        readParam_formPiece hkey (by decide), setOut_encoded hgrant]
      exact ih hkeys _
    · rw [List.intercalate_cons_of_ne_nil (by simpa using hlast), List.append_assoc,
        List.append_assoc, readQuery, if_pos (formPiece_head hkey _), List.singleton_append,
        readParam_formPiece hkey (by decide), setOut_encoded hgrant]
      exact ih hkeys _

theorem outFor_eq_some {key : List UInt8} {out : LoopbackOut} :
    outFor wants key = some out ↔ key = out.key ∧ wants out = true := by
  constructor
  · intro h
    simpa using List.find?_some h
  · rintro ⟨rfl, hwants⟩
    cases hfound : outFor wants out.key with
    | none =>
      have hnone := List.find?_eq_none.mp hfound out (by cases out <;> decide)
      simp [hwants] at hnone
    | some other =>
      have hother : out.key = other.key ∧ wants other = true := by
        simpa using List.find?_some hfound
      rw [key_injective hother.1]

theorem lastValue_concat (key : List UInt8) (params : List (List UInt8 × CString))
    (param : List UInt8 × CString) :
    lastValue key (params ++ [param]) =
      if param.1 = key then some param.2 else lastValue key params := by
  rw [lastValue, List.filter_append, List.filter_singleton]
  split_ifs with hkey
  · rw [decide_eq_true hkey, cond_true, List.getLast?_concat]
    rfl
  · rw [decide_eq_false hkey, cond_false, List.append_nil]
    rfl

/-- The rounds leave in each string the last value that was for it. -/
theorem foldl_setParam (params : List (List UInt8 × CString)) :
    params.foldl (setParam wants) (fun _ => none) = expectedOuts wants params := by
  induction params using List.reverseRecOn with
  | nil =>
    funext out
    simp [expectedOuts, lastValue]
  | append_singleton params param ih =>
    rw [List.foldl_append, ih, List.foldl_cons, List.foldl_nil]
    funext out
    rw [expectedOuts, lastValue_concat, setParam]
    cases hfound : outFor wants param.1 with
    | none =>
      have hother : wants out = true → param.1 ≠ out.key := by
        intro hwants hkey
        rw [outFor_eq_some.mpr ⟨hkey, hwants⟩] at hfound
        cases hfound
      dsimp only
      rw [expectedOuts]
      split_ifs with hwants hkey
      · exact absurd hkey (hother hwants)
      · rfl
      · rfl
    | some found =>
      obtain ⟨hkey, hwants⟩ := outFor_eq_some.mp hfound
      dsimp only
      by_cases hout : out = found
      · subst hout
        rw [Function.update_self, if_pos hwants, if_pos hkey]
      · have hother : param.1 ≠ out.key := fun h => hout (key_injective (h.symm.trans hkey))
        rw [Function.update_of_ne hout, if_neg hother, expectedOuts]

end Loop

/-- No NUL stands in front of the space behind the query. -/
theorem redirectText_cut {path : List UInt8} (hpath : RedirectPath path)
    {params : List (List UInt8 × CString)} (hkeys : ∀ param ∈ params, RedirectKey param.1)
    (rest : List UInt8) :
    (CString.ofBytes (redirectText path params rest)).bytes =
      redirectText path params (rest.takeWhile (· ≠ 0)) := by
  have hpiece : ∀ param ∈ params, 0 ∉ formPiece param := by
    intro param hparam
    rw [formPiece, List.mem_append, List.mem_cons, not_or, not_or]
    exact ⟨(hkeys param hparam).1.2.2, by decide,
      not_mem_urlencodeAppend (by decide) (by decide) (by decide) _⟩
  have hquery : 0 ∉ [ampersand].intercalate (params.map formPiece) := by
    induction params with
    | nil => exact List.not_mem_nil
    | cons param params ih =>
      obtain ⟨hparam, hrest⟩ := List.forall_mem_cons.mp hpiece
      have hquery := ih (List.forall_mem_cons.mp hkeys).2 hrest
      by_cases hlast : params = []
      · subst hlast
        rwa [List.map_cons, List.map_nil, List.intercalate_singleton]
      · rw [List.map_cons, List.intercalate_cons_of_ne_nil (by simpa using hlast)]
        simp only [List.mem_append, List.mem_singleton, not_or]
        exact ⟨⟨hparam, by decide⟩, hquery⟩
  let front := asciiBytes "GET ".toList ++ (path ++ questionMark ::
    ([ampersand].intercalate (params.map formPiece) ++ [space]))
  have hsplit : ∀ rest, redirectText path params rest = front ++ rest := by
    intro rest
    simp [redirectText, front]
  have hfront : ∀ c ∈ front, decide (c ≠ 0) = true := by
    intro c hc
    refine decide_eq_true (ne_of_mem_of_not_mem hc ?_)
    simp only [front, List.mem_append, List.mem_cons, not_or]
    exact ⟨by decide, hpath.2.2.2.2, by decide, hquery, by decide⟩
  rw [hsplit, hsplit]
  exact List.takeWhile_append_of_pos hfront

theorem readRedirect_redirectText {alloc : ℕ → Bool} (hgrant : ∀ n, alloc n = true)
    (wants : LoopbackOut → Bool) {path : List UInt8} (hpath : RedirectPath path)
    {params : List (List UInt8 × CString)} (hkeys : ∀ param ∈ params, RedirectKey param.1)
    (rest : List UInt8) :
    readRedirect alloc wants (redirectText path params rest) = (expectedOuts wants params, none) := by
  obtain ⟨hquestion, hspace, hcr, hlf, -⟩ := hpath
  let query := [ampersand].intercalate (params.map formPiece) ++ space :: rest
  have hdrop : (redirectText path params rest).drop 4 = path ++ questionMark :: query := rfl
  have hscan : ((redirectText path params rest).drop 4).dropWhile
      (fun c => decide (c ≠ questionMark ∧ c ≠ space ∧ c ≠ cr ∧ c ≠ lf)) = questionMark :: query := by
    rw [hdrop, List.dropWhile_append_of_pos, List.dropWhile_cons_of_neg (by decide)]
    intro c hc
    refine decide_eq_true ⟨?_, ?_, ?_, ?_⟩
    · exact ne_of_mem_of_not_mem hc hquestion
    · exact ne_of_mem_of_not_mem hc hspace
    · exact ne_of_mem_of_not_mem hc hcr
    · exact ne_of_mem_of_not_mem hc hlf
  have hget : asciiBytes "GET ".toList <+: redirectText path params rest :=
    List.prefix_append _ _
  rw [readRedirect, if_pos hget, hscan]
  dsimp only
  rw [if_pos rfl, readQuery_params hgrant hkeys, foldl_setParam]

/-- Every string gets the last value under its key. -/
theorem localhostIntercept_lastValues {alloc : ℕ → Bool} (hgrant : ∀ n, alloc n = true)
    (wants : LoopbackOut → Bool) {path : List UInt8} (hpath : RedirectPath path)
    {params : List (List UInt8 × CString)} (hkeys : ∀ param ∈ params, RedirectKey param.1)
    {rest : List UInt8} (hfits : (redirectText path params rest).length ≤ 4095) :
    localhostIntercept alloc wants (some (redirectText path params rest)) =
      (expectedOuts wants params, none) := by
  have hne : redirectText path params rest ≠ [] := List.cons_ne_nil _ _
  obtain ⟨c, text, htext⟩ := List.exists_cons_of_ne_nil hne
  rw [htext, localhostIntercept, ← htext, List.take_of_length_le hfits,
    redirectText_cut hpath hkeys, readRedirect_redirectText hgrant wants hpath hkeys]

/-- Two values under one key, and a key that another one begins with. -/
theorem localhostIntercept_lastValues_twoStates :
    (expectedOuts (fun _ => true)
      [(asciiBytes "state".toList, literal "a b"), (asciiBytes "error_description".toList, literal ""),
        (asciiBytes "state".toList, literal "c&d")] .state = some (literal "c&d")) ∧
    localhostIntercept (fun _ => true) (fun _ => true)
      (some (redirectText (asciiBytes "/cb".toList)
        [(asciiBytes "state".toList, literal "a b"),
          (asciiBytes "error_description".toList, literal ""),
          (asciiBytes "state".toList, literal "c&d")] (asciiBytes "HTTP/1.1".toList))) =
      (expectedOuts (fun _ => true)
        [(asciiBytes "state".toList, literal "a b"),
          (asciiBytes "error_description".toList, literal ""),
          (asciiBytes "state".toList, literal "c&d")], none) :=
  ⟨by decide, localhostIntercept_lastValues (fun _ => rfl) _ (by decide) (by decide) (by decide)⟩

/-- A NUL in the path ends the text in front of the query. -/
theorem nulInPath_dropsCode :
    (localhostIntercept (fun _ => true) (fun _ => true)
      (some (redirectText [0x2F, 0] [(asciiBytes "code".toList, literal "x")] []))).1 .code = none ∧
    expectedOuts (fun _ => true) [(asciiBytes "code".toList, literal "x")] .code =
      some (literal "x") := by
  decide +kernel

end AbstractHttp.Http
