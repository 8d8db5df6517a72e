import AbstractHttp.Library.Memory
import AbstractHttp.Library.Outcome
import AbstractHttp.Transport.Url

/-!
# The growing buffer that request texts are built in

Two transports print the lines of a request behind each other into one block. Before
a header line they double the block once if a test of theirs says so; the tests
differ. Every store is an output, with the NUL that a formatted print appends.
-/
namespace AbstractHttp.Transport
open Library Outcome Http EventStream

/-- The text so far and the size of its block. -/
structure RequestBuf where
  text : List UInt8
  capacity : ℕ
  deriving DecidableEq, Repr

abbrev BufOutcome := Outcome RequestBuf Extent ErrorCode

/-- Append `piece` and `nul` further bytes that the text does not keep. -/
def RequestBuf.store (piece : List UInt8) (nul : ℕ) (b : RequestBuf) : BufOutcome :=
  ⟨{ b with text := b.text ++ piece }, [⟨b.text.length, piece.length + nul, b.capacity⟩], none⟩

/-- `realloc` to `newCap` bytes. -/
def RequestBuf.grow (alloc : RequestAlloc) (newCap : ℕ) (b : RequestBuf) : BufOutcome :=
  if alloc .request newCap then done { b with capacity := newCap } else fail b [] .nomem

/-- The bytes of a name or value. `http_headers_add` leaves no NULL in a list. -/
def stringBytes (str : Option CString) : List UInt8 := (str.map CString.bytes).getD []

/-- `"%s: %s\r\n"`. -/
def headerLine (h : HttpHeader) : List UInt8 :=
  stringBytes h.key ++ [colon, space] ++ stringBytes h.value ++ crlf

def headerLines (hs : List HttpHeader) : List UInt8 := hs.flatMap headerLine

/-- `%lu`. -/
def decimal (n : ℕ) : List UInt8 := asciiBytes (Nat.toDigits 10 n)

section Headers
variable (tooSmall : ℕ → ℕ → Bool) (alloc : RequestAlloc)

/-- One pass of the header loop; `tooSmall` compares the length needed with the capacity. -/
def addHeader (h : HttpHeader) (b : RequestBuf) : BufOutcome :=
  (if tooSmall (b.text.length + (headerLine h).length) b.capacity then b.grow alloc (b.capacity * 2)
    else done b).andThen (RequestBuf.store (headerLine h) 1)

def addHeaders : List HttpHeader → RequestBuf → BufOutcome
  | [], b => done b
  | h :: hs, b => (addHeader tooSmall alloc h b).andThen (addHeaders hs)

/-- The request line, printed into a new block of `first` bytes, and the header lines. -/
def startRequest (first : ℕ) (line : List UInt8) (hs : List HttpHeader) : BufOutcome :=
  if alloc .request first = false then fail ⟨[], 0⟩ [] .nomem
  else (RequestBuf.store line 1 ⟨[], first⟩).andThen (addHeaders tooSmall alloc hs)

end Headers

/-- The smallest of `first`, `2 * first`, `4 * first`, ... that holds `len` bytes and a NUL. -/
def roundUp (first len : ℕ) : ℕ := doubleUntil first (len + 1)

/-- Each header line with its NUL fits, doubling once where the test asks for it. -/
def LinesFit (tooSmall : ℕ → ℕ → Bool) (first : ℕ) : ℕ → List HttpHeader → Prop
  | _, [] => True
  | len, h :: hs =>
    let room := roundUp first len
    len + (headerLine h).length + 1 ≤
        (if tooSmall (len + (headerLine h).length) room then room * 2 else room) ∧
      LinesFit tooSmall first (len + (headerLine h).length) hs

/-- The block is the smallest that holds the text and a NUL. -/
structure Snug (first : ℕ) (b : RequestBuf) : Prop where
  fits : b.text.length + 1 ≤ b.capacity
  least : b.capacity = roundUp first b.text.length

/-- All stores of a call stay in their blocks. -/
def StoresInBounds (o : BufOutcome) : Prop := ∀ e ∈ o.output, e.InBounds

instance (o : BufOutcome) : Decidable (StoresInBounds o) :=
  inferInstanceAs (Decidable (∀ e ∈ o.output, e.InBounds))

theorem storesInBounds_andThen {o : BufOutcome} {k : RequestBuf → BufOutcome}
    (h : o.failure = none) :
    StoresInBounds (o.andThen k) ↔ StoresInBounds o ∧ StoresInBounds (k o.state) :=
  andThen_output_forall h

section Growth
variable {tooSmall : ℕ → ℕ → Bool} {alloc : RequestAlloc} {first : ℕ}

theorem grow_cutShort (b : RequestBuf) (newCap : ℕ) :
    CutShort (b.grow alloc newCap) (b.grow grantRequest newCap) := by
  rw [RequestBuf.grow]
  split
  · exact .refl _
  · exact Or.inr ⟨by simp, by simp [fail]⟩

theorem addHeader_cutShort (h : HttpHeader) (b : RequestBuf) :
    CutShort (addHeader tooSmall alloc h b) (addHeader tooSmall grantRequest h b) := by
  apply CutShort.andThen
  · split
    · exact grow_cutShort b _
    · exact .refl _
  · exact fun b => .refl _

theorem addHeaders_cutShort (hs : List HttpHeader) (b : RequestBuf) :
    CutShort (addHeaders tooSmall alloc hs b) (addHeaders tooSmall grantRequest hs b) := by
  induction hs generalizing b with
  | nil => exact .refl _
  | cons h hs ih => exact (addHeader_cutShort h b).andThen ih

@[simp] theorem store_failure (piece : List UInt8) (nul : ℕ) (b : RequestBuf) :
    (b.store piece nul).failure = none := rfl

theorem store_inBounds {piece : List UInt8} {nul : ℕ} {b : RequestBuf}
    (h : 0 < piece.length + nul) :
    StoresInBounds (b.store piece nul) ↔ b.text.length + (piece.length + nul) ≤ b.capacity := by
  simp only [StoresInBounds, RequestBuf.store, List.mem_singleton, forall_eq, Extent.inBounds_iff]
  omega

/-- Where the block has been doubled or not, the line is stored behind the text. -/
theorem addHeader_eq (h : HttpHeader) (b : RequestBuf) :
    addHeader tooSmall grantRequest h b =
      { b with
        capacity := if tooSmall (b.text.length + (headerLine h).length) b.capacity
          then b.capacity * 2 else b.capacity }.store (headerLine h) 1 := by
  rw [addHeader]
  split <;> rfl

theorem addHeaders_failure (hs : List HttpHeader) (b : RequestBuf) :
    (addHeaders tooSmall grantRequest hs b).failure = none := by
  induction hs generalizing b with
  | nil => rfl
  | cons h hs ih =>
    rw [addHeaders, andThen_failure_none, addHeader_eq]
    exact ⟨rfl, ih _⟩

theorem addHeaders_text (tooSmall : ℕ → ℕ → Bool) (hs : List HttpHeader) (b : RequestBuf) :
    (addHeaders tooSmall grantRequest hs b).state.text = b.text ++ headerLines hs := by
  induction hs generalizing b with
  | nil => exact (List.append_nil _).symm
  | cons h hs ih =>
    rw [addHeaders, addHeader_eq, andThen_of_none rfl, ih]
    simp [RequestBuf.store, headerLines]

/-- A line that fits leaves the block as small as before. -/
theorem snug_addHeader (hfirst : 0 < first)
    (hsmall : ∀ need cap, tooSmall need cap = true → cap ≤ need) {h : HttpHeader} {b : RequestBuf}
    (hb : Snug first b) (hfit : b.text.length + (headerLine h).length + 1 ≤
      (if tooSmall (b.text.length + (headerLine h).length) b.capacity then b.capacity * 2
        else b.capacity)) :
    Snug first (addHeader tooSmall grantRequest h b).state := by
  rw [addHeader_eq]
  have hlength : (b.text ++ headerLine h).length = b.text.length + (headerLine h).length :=
    List.length_append
  refine ⟨by simpa [RequestBuf.store, hlength] using hfit, ?_⟩
  simp only [RequestBuf.store, hlength, roundUp]
  have hleast := hb.least
  rw [roundUp] at hleast
  split at hfit
  next hgrow =>
    have hlt := hsmall _ _ hgrow
    rw [if_pos hgrow, hleast]
    rw [hleast] at hfit hlt
    exact (doubleUntil_eq_double hfirst (by omega) hfit).symm
  next hgrow =>
    rw [if_neg hgrow, hleast]
    rw [hleast] at hfit
    exact (doubleUntil_eq_of_le hfirst (by omega) hfit).symm

/-- The header loop stays in its blocks exactly when every line fits. -/
theorem addHeaders_inBounds_iff (hfirst : 0 < first)
    (hsmall : ∀ need cap, tooSmall need cap = true → cap ≤ need) (hs : List HttpHeader)
    {b : RequestBuf} (hb : Snug first b) :
    (StoresInBounds (addHeaders tooSmall grantRequest hs b) ↔
        LinesFit tooSmall first b.text.length hs) ∧
      (LinesFit tooSmall first b.text.length hs →
        Snug first (addHeaders tooSmall grantRequest hs b).state) := by
  induction hs generalizing b with
  | nil => exact ⟨by simp [StoresInBounds, addHeaders, LinesFit, done], fun _ => hb⟩
  | cons h hs ih =>
    have hok : (addHeader tooSmall grantRequest h b).failure = none := by rw [addHeader_eq]; rfl
    have htext : (addHeader tooSmall grantRequest h b).state.text.length =
        b.text.length + (headerLine h).length := by
      rw [addHeader_eq]
      exact List.length_append
    have hhere : StoresInBounds (addHeader tooSmall grantRequest h b) ↔
        b.text.length + (headerLine h).length + 1 ≤
          (if tooSmall (b.text.length + (headerLine h).length) b.capacity then b.capacity * 2
            else b.capacity) := by
      rw [addHeader_eq, store_inBounds (by omega), ← Nat.add_assoc]
    simp only [LinesFit, ← hb.least]
    rw [addHeaders, storesInBounds_andThen hok, hhere, andThen_of_none hok]
    by_cases hfit : b.text.length + (headerLine h).length + 1 ≤
        (if tooSmall (b.text.length + (headerLine h).length) b.capacity then b.capacity * 2
          else b.capacity)
    · obtain ⟨hiff, hkeep⟩ := ih (snug_addHeader hfirst hsmall hb hfit)
      rw [htext] at hiff hkeep
      exact ⟨and_congr_right fun _ => hiff, fun h => hkeep h.2⟩
    · exact ⟨iff_of_false (fun h => hfit h.1) fun h => hfit h.1, fun h => absurd h.1 hfit⟩

variable {line : List UInt8} {hs : List HttpHeader}

theorem startRequest_cutShort :
    CutShort (startRequest tooSmall alloc first line hs)
      (startRequest tooSmall grantRequest first line hs) := by
  rw [startRequest, startRequest]
  split
  · exact Or.inr ⟨by simp, by simp [fail]⟩
  · rw [if_neg (by simp [grantRequest])]
    exact CutShort.andThen (.refl _) fun b => addHeaders_cutShort hs b

theorem startRequest_eq : startRequest tooSmall grantRequest first line hs =
    (RequestBuf.store line 1 ⟨[], first⟩).andThen (addHeaders tooSmall grantRequest hs) :=
  if_neg (by simp [grantRequest])

theorem startRequest_failure :
    (startRequest tooSmall grantRequest first line hs).failure = none := by
  rw [startRequest_eq, andThen_of_none rfl]
  exact addHeaders_failure _ _

theorem startRequest_text :
    (startRequest tooSmall grantRequest first line hs).state.text = line ++ headerLines hs := by
  rw [startRequest_eq, andThen_of_none rfl]
  exact addHeaders_text _ _ _

/-- The lines stay in their blocks exactly when each of them fits, and then the block is as small
as it can be. -/
theorem startRequest_inBounds_iff (line : List UInt8) (hs : List HttpHeader) (hfirst : 0 < first)
    (hsmall : ∀ need cap, tooSmall need cap = true → cap ≤ need) :
    (StoresInBounds (startRequest tooSmall grantRequest first line hs) ↔
        line.length + 1 ≤ first ∧ LinesFit tooSmall first line.length hs) ∧
      (line.length + 1 ≤ first → LinesFit tooSmall first line.length hs →
        Snug first (startRequest tooSmall grantRequest first line hs).state) := by
  have hline : StoresInBounds (RequestBuf.store line 1 ⟨[], first⟩) ↔ line.length + 1 ≤ first := by
    rw [store_inBounds (by omega)]
    simp
  have hsplit : StoresInBounds (startRequest tooSmall grantRequest first line hs) ↔
      StoresInBounds (RequestBuf.store line 1 ⟨[], first⟩) ∧
        StoresInBounds (addHeaders tooSmall grantRequest hs ⟨line, first⟩) := by
    rw [startRequest_eq]
    exact storesInBounds_andThen rfl
  have hsnug : line.length + 1 ≤ first → Snug first ⟨line, first⟩ :=
    fun hfit => ⟨hfit, (doubleUntil_of_le hfit).symm⟩
  constructor
  · rw [hsplit, hline]
    exact and_congr_right fun hfit => (addHeaders_inBounds_iff hfirst hsmall hs (hsnug hfit)).1
  · intro hfit hlines
    rw [startRequest_eq, andThen_of_none rfl]
    exact (addHeaders_inBounds_iff hfirst hsmall hs (hsnug hfit)).2 hlines

end Growth

end AbstractHttp.Transport
