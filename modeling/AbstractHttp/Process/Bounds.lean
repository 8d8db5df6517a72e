import AbstractHttp.Process.RoundTrip

/-!
# Which buffers the receiver reads past

Beside the decoder runs the same decoder without its comparisons. Both see the same
fields up to the first one that the buffer does not hold; there the comparison either
refuses the message or, when the sum has wrapped around, lets the copy through.
-/
namespace AbstractHttp.Process
open Library Http

/-- The comparison that never refuses. -/
def unchecked : ℕ → ℕ → Bool := fun _ _ => false

/-- The first copy that leaves the buffer, of `w` bytes from offset `p`, when nothing is
compared. -/
def OverrunsAt {α : Type} (free : Except Stop α) (p w : ℕ) : Prop := free = .error (.fault p w)

/-- The code agrees with the decoder that compares nothing, up to the first overrun; what both
return meets `P`. Comparisons can refuse a copy that stays in the buffer only when the buffer ends
at `2 ^ 64`. -/
structure Follows (m : Placed) {α : Type} (P : α → Prop) (code free : Except Stop α) : Prop where
  meets : ∀ x, free = .ok x → P x
  ok : ∀ x, code = .ok x → free = .ok x
  fault : ∀ p w, code = .error (.fault p w) → OverrunsAt free p w ∧ m.beyond p w = false
  ok_of : m.base + m.bytes.length < 2 ^ 64 → ∀ x, free = .ok x → code = .ok x
  fault_of : m.base + m.bytes.length < 2 ^ 64 → ∀ p w, OverrunsAt free p w →
    m.beyond p w = false → code = .error (.fault p w)
  overrun : ∀ p w, OverrunsAt free p w →
    p ≤ m.bytes.length ∧ m.bytes.length < p + w ∧ w < 2 ^ 64

namespace Follows

variable {m : Placed} {α β : Type} {P : α → Prop} {Q : β → Prop}

theorem of_ok {x : α} (h : P x) : Follows m P (.ok x) (.ok x) where
  meets y hy := Except.ok.inj hy ▸ h
  ok y hy := hy
  fault p w hfault := by cases hfault
  ok_of _ y hy := hy
  fault_of _ p w hfault := by cases hfault
  overrun p w hfault := by cases hfault

/-- Both give up, though not always for the same reason. -/
theorem of_errors (e e' : ErrorCode) : Follows m P (.error (.error e)) (.error (.error e')) where
  meets y hy := by cases hy
  ok y hy := by cases hy
  fault p w hfault := by cases hfault
  ok_of _ y hy := by cases hy
  fault_of _ p w hfault := by cases hfault
  overrun p w hfault := by cases hfault

theorem of_error (e : ErrorCode) : Follows m P (.error (.error e)) (.error (.error e)) :=
  of_errors e e

/-- A comparison refuses a copy that stays in the buffer, which then ends at `2 ^ 64`. -/
theorem of_refused {x : α} (e : ErrorCode) (h : P x) (hend : ¬ m.base + m.bytes.length < 2 ^ 64) :
    Follows m P (.error (.error e)) (.ok x) where
  meets y hy := Except.ok.inj hy ▸ h
  ok y hy := by cases hy
  fault p w hfault := by cases hfault
  ok_of hfits := absurd hfits hend
  fault_of _ p w hfault := by cases hfault
  overrun p w hfault := by cases hfault

variable {p w : ℕ} (hp : p ≤ m.bytes.length) (hover : m.bytes.length < p + w) (hw : w < 2 ^ 64)
include hp hover hw

/-- A comparison refuses a copy that leaves the buffer. -/
theorem of_caught (e : ErrorCode) (hbeyond : m.beyond p w = true) :
    Follows m P (.error (.error e)) (.error (.fault p w)) where
  meets y hy := by cases hy
  ok y hy := by cases hy
  fault q v hfault := by cases hfault
  ok_of _ y hy := by cases hy
  fault_of _ q v hfault hpass := by
    cases hfault
    rw [hbeyond] at hpass
    cases hpass
  overrun q v hfault := by
    cases hfault
    exact ⟨hp, hover, hw⟩

/-- A copy that leaves the buffer is let through. -/
theorem of_fault (hbeyond : m.beyond p w = false) :
    Follows m P (.error (.fault p w)) (.error (.fault p w)) where
  meets y hy := by cases hy
  ok y hy := by cases hy
  fault q v hfault := by
    cases hfault
    exact ⟨rfl, hbeyond⟩
  ok_of _ y hy := by cases hy
  fault_of _ q v hfault _ := hfault
  overrun q v hfault := by
    cases hfault
    exact ⟨hp, hover, hw⟩

omit hp hover hw

theorem bind {code free : Except Stop α} {k l : α → Except Stop β} (h : Follows m P code free)
    (hk : ∀ x, P x → Follows m Q (k x) (l x)) : Follows m Q (code >>= k) (free >>= l) := by
  cases hfree : free with
  | error e =>
    have hcode : ∀ x, code ≠ .ok x := fun x hx => by
      have := h.ok x hx
      rw [hfree] at this
      cases this
    cases code with
    | ok x => exact absurd rfl (hcode x)
    | error e' =>
      simp only [error_bind]
      rw [hfree] at h
      constructor
      case meets | ok | ok_of => nofun
      case fault =>
        intro p w hfault
        obtain ⟨hover, hbeyond⟩ := h.fault p w (Except.error.inj hfault ▸ rfl)
        exact ⟨Except.error.inj hover ▸ rfl, hbeyond⟩
      case fault_of =>
        intro hfits p w hfault hbeyond
        have hover := h.fault_of hfits p w (Except.error.inj hfault ▸ rfl) hbeyond
        exact Except.error.inj hover ▸ rfl
      case overrun => exact fun p w hfault => h.overrun p w (Except.error.inj hfault ▸ rfl)
  | ok x =>
    have hx := h.meets x hfree
    rw [ok_bind]
    cases code with
    | ok x' =>
      obtain rfl : x' = x := Except.ok.inj ((h.ok x' rfl).symm.trans hfree)
      rw [ok_bind]
      exact hk x' hx
    | error e =>
      rw [error_bind]
      constructor
      case meets => exact (hk x hx).meets
      case ok => nofun
      case fault =>
        intro p w hfault
        have hover := (h.fault p w (Except.error.inj hfault ▸ rfl)).1
        rw [OverrunsAt, hfree] at hover
        cases hover
      case ok_of => exact fun hfits => by cases h.ok_of hfits x hfree
      case fault_of => exact fun hfits => by cases h.ok_of hfits x hfree
      case overrun => exact (hk x hx).overrun

end Follows

/-- A sum that a comparison lets through although the copy leaves the buffer has wrapped around,
and the buffer does not end at `2 ^ 64`. -/
theorem Placed.beyond_of_overrun {m : Placed} {p w : ℕ} (hp : p ≤ m.bytes.length)
    (hover : m.bytes.length < p + w) (hw : w < 2 ^ 64) :
    m.beyond p w = false ↔
      m.base + m.bytes.length < 2 ^ 64 ∧ 2 ^ 64 ≤ m.base + p + w := by
  have hfits := m.fits
  rw [← Bool.not_eq_true, Placed.beyond_iff, Placed.address, Placed.address, ← Nat.add_assoc]
  omega

section Decoder
variable {order : ByteOrder} {m : Placed}

/-- The cursor behind what has been parsed is inside the buffer. -/
def Inside (m : Placed) {α : Type} (x : α × ℕ) : Prop := x.2 ≤ m.bytes.length

/-- A copy into a block that is large enough, or that the buffer does not hold, fails exactly when
the buffer does not hold it. -/
theorem copyFrom_cases {bytes : List UInt8} {p w size : ℕ}
    (hsize : w ≤ size ∨ bytes.length < p + w) :
    (p + w ≤ bytes.length ∧ ∃ bs, bs.length = w ∧ copyFrom bytes p w size = .ok bs) ∨
      (bytes.length < p + w ∧ copyFrom bytes p w size = .error (.fault p w)) := by
  by_cases hle : p + w ≤ bytes.length
  · have hw : w ≤ size := by omega
    refine Or.inl ⟨hle, (bytes.drop p).take w, ?_, if_pos ⟨hle, hw⟩⟩
    rw [List.length_take, List.length_drop]
    omega
  · exact Or.inr ⟨by omega, if_neg fun h => hle h.1⟩

theorem parseBlock_follows (malloc : ℕ → Bool) {len size p : ℕ} (hp : p ≤ m.bytes.length)
    (hlen : len < 2 ^ 64) (hsize : len ≤ size ∨ m.bytes.length < p + len) :
    Follows m (fun x : List UInt8 × ℕ => Inside m x ∧ x.1.length = len ∧ x.2 = p + len)
      (parseBlock m.bytes m.beyond malloc len size p)
      (parseBlock m.bytes unchecked malloc len size p) := by
  have hfree : unchecked p len = false := rfl
  rw [parseBlock, parseBlock, hfree, if_neg Bool.false_ne_true]
  by_cases hmalloc : malloc size = false
  · rw [if_pos hmalloc]
    split
    · exact .of_errors _ _
    · exact .of_error _
  · rw [if_neg hmalloc]
    rcases copyFrom_cases hsize with ⟨hle, bs, hbs, hcopy⟩ | ⟨hover, hcopy⟩
    · rw [hcopy, ok_bind]
      by_cases hbeyond : m.beyond p len = true
      · rw [if_pos hbeyond]
        refine .of_refused _ ⟨hle, hbs, rfl⟩ fun hfits => ?_
        simp [m.beyond_of_le hfits hle] at hbeyond
      · rw [if_neg hbeyond]
        exact .of_ok ⟨hle, hbs, rfl⟩
    · rw [hcopy, error_bind]
      by_cases hbeyond : m.beyond p len = true
      · rw [if_pos hbeyond]
        exact .of_caught hp hover hlen _ hbeyond
      · rw [if_neg hbeyond]
        exact .of_fault hp hover hlen (Bool.not_eq_true _ ▸ hbeyond)

/-- A number is read through a block of its own. -/
theorem parseSize_eq (beyond : ℕ → ℕ → Bool) (bytes : List UInt8) (p : ℕ) :
    parseSize order bytes beyond p = (do
      let (bs, p) ← parseBlock bytes beyond (fun _ => true) sizeofSize sizeofSize p
      return (order.ofBytes bs, p)) := by
  rw [parseSize, parseBlock]
  split
  · rfl
  · rw [if_neg (by simp)]
    cases copyFrom bytes p sizeofSize sizeofSize <;> rfl

theorem parseInt_eq (beyond : ℕ → ℕ → Bool) (bytes : List UInt8) (p : ℕ) :
    parseInt order bytes beyond p = (do
      let (bs, p) ← parseBlock bytes beyond (fun _ => true) sizeofInt sizeofInt p
      return ((UInt32.ofNat (order.ofBytes bs)).toInt32, p)) := by
  rw [parseInt, parseBlock]
  split
  · rfl
  · rw [if_neg (by simp)]
    cases copyFrom bytes p sizeofInt sizeofInt <;> rfl

theorem parseInt_follows {p : ℕ} (hp : p ≤ m.bytes.length) :
    Follows m (Inside m) (parseInt order m.bytes m.beyond p)
      (parseInt order m.bytes unchecked p) := by
  rw [parseInt_eq, parseInt_eq]
  exact (parseBlock_follows _ hp (by decide) (Or.inl le_rfl)).bind fun x hx => .of_ok hx.1

theorem parseSize_follows {p : ℕ} (hp : p ≤ m.bytes.length) :
    Follows m (fun x : ℕ × ℕ => Inside m x ∧ x.1 < 2 ^ 64 ∧ x.2 = p + 8)
      (parseSize order m.bytes m.beyond p) (parseSize order m.bytes unchecked p) := by
  rw [parseSize_eq, parseSize_eq]
  refine (parseBlock_follows _ hp (by decide) (Or.inl le_rfl)).bind fun x hx => ?_
  obtain ⟨hinside, hlength, hcursor⟩ := hx
  have hlt := order.ofBytes_lt x.1
  rw [hlength] at hlt
  exact .of_ok ⟨hinside, hlt, hcursor⟩

theorem parseStr_follows (malloc : ℕ → Bool) {p : ℕ}
    (hp : p ≤ m.bytes.length) :
    Follows m (fun x => Inside m x ∧ p + 8 ≤ x.2) (parseStr order m.bytes m.beyond malloc p)
      (parseStr order m.bytes unchecked malloc p) := by
  have hfits := m.fits
  refine (parseSize_follows hp).bind fun x hx => ?_
  obtain ⟨hinside, hlt, hcursor⟩ := hx
  dsimp only
  split
  · exact .of_ok ⟨hinside, hcursor.ge⟩
  · refine (parseBlock_follows malloc hinside hlt ?_).bind fun y hy => ?_
    · rw [sizeT]
      omega
    · obtain ⟨hinside', -, hcursor'⟩ := hy
      exact .of_ok ⟨hinside', show p + 8 ≤ y.2 by omega⟩

theorem parseHeader_follows (alloc : IpcAlloc) (i : ℕ)
    (headers : HttpHeaders) {p : ℕ} (hp : p ≤ m.bytes.length) :
    Follows m (fun x => Inside m x ∧ p + 16 ≤ x.2)
      (parseHeader order m.bytes m.beyond alloc i headers p)
      (parseHeader order m.bytes unchecked alloc i headers p) := by
  refine (parseStr_follows _ hp).bind fun x hx => ?_
  refine (parseStr_follows _ hx.1).bind fun y hy => ?_
  obtain ⟨-, hkey⟩ := hx
  obtain ⟨hinside, hvalue⟩ := hy
  dsimp only
  split
  · exact .of_ok ⟨hinside, show p + 16 ≤ y.2 by omega⟩
  · exact .of_error _

theorem parseHeaders_follows (alloc : IpcAlloc) (left i : ℕ)
    (headers : HttpHeaders) {p : ℕ} (hp : p ≤ m.bytes.length) :
    Follows m (Inside m) (parseHeaders order m.bytes m.beyond alloc left i headers p)
      (parseHeaders order m.bytes unchecked alloc left i headers p) := by
  induction left generalizing i headers p with
  | zero => exact .of_ok hp
  | succ left ih =>
    exact (parseHeader_follows alloc i headers hp).bind fun x hx => ih _ _ hx.1

theorem parseBody_follows (malloc : ℕ → Bool) {p : ℕ} (hp : p ≤ m.bytes.length) :
    Follows m (fun _ => True) (parseBody order m.bytes m.beyond malloc p)
      (parseBody order m.bytes unchecked malloc p) := by
  refine (parseSize_follows hp).bind fun x hx => ?_
  dsimp only
  split
  · exact .of_ok trivial
  · exact (parseBlock_follows malloc hx.1 hx.2.1 (Or.inl le_rfl)).bind fun y _ => .of_ok trivial

theorem parseTail_follows (alloc : IpcAlloc) {p : ℕ}
    (hp : p ≤ m.bytes.length) :
    Follows m (fun _ => True) (parseTail order m.bytes m.beyond alloc p)
      (parseTail order m.bytes unchecked alloc p) := by
  refine (parseSize_follows hp).bind fun x hx => ?_
  refine (parseHeaders_follows alloc _ _ _ hx.1).bind fun y hy => ?_
  exact (parseBody_follows _ hy).bind fun z _ => .of_ok trivial

theorem parseRequest_follows (alloc : IpcAlloc) :
    Follows m (fun _ => True) (parseRequest order m.bytes m.beyond alloc)
      (parseRequest order m.bytes unchecked alloc) := by
  refine (parseInt_follows (Nat.zero_le _)).bind fun x hx => ?_
  refine (parseStr_follows _ hx).bind fun y hy => ?_
  exact (parseTail_follows alloc hy.1).bind fun z _ => .of_ok trivial

theorem parseResponse_follows (alloc : IpcAlloc) :
    Follows m (fun _ => True) (parseResponse order m.bytes m.beyond alloc)
      (parseResponse order m.bytes unchecked alloc) := by
  refine (parseInt_follows (Nat.zero_le _)).bind fun x hx => ?_
  exact (parseTail_follows alloc hx).bind fun z _ => .of_ok trivial

/-- How many passes the header loop begins. -/
def headerPasses (order : ByteOrder) (bytes : List UInt8) (beyond : ℕ → ℕ → Bool)
    (alloc : IpcAlloc) : ℕ → ℕ → HttpHeaders → ℕ → ℕ
  | 0, _, _, _ => 0
  | left + 1, i, headers, p =>
    match parseHeader order bytes beyond alloc i headers p with
    | .ok (headers, p) => 1 + headerPasses order bytes beyond alloc left (i + 1) headers p
    | .error _ => 1

/-- Whatever count the message claims, every pass but the last takes sixteen bytes of it. -/
theorem headerPasses_le (alloc : IpcAlloc) (left i : ℕ) (headers : HttpHeaders) {p : ℕ}
    (hp : p ≤ m.bytes.length) :
    16 * headerPasses order m.bytes m.beyond alloc left i headers p ≤
      m.bytes.length - p + 16 := by
  induction left generalizing i headers p with
  | zero => simp [headerPasses]
  | succ left ih =>
    have hfollows : Follows m (fun x => Inside m x ∧ p + 16 ≤ x.2)
        (parseHeader order m.bytes m.beyond alloc i headers p)
        (parseHeader order m.bytes unchecked alloc i headers p) :=
      parseHeader_follows alloc i headers hp
    rw [headerPasses]
    cases hrun : parseHeader order m.bytes m.beyond alloc i headers p with
    | error e =>
      dsimp only
      omega
    | ok x =>
      obtain ⟨hinside, hcursor⟩ := hfollows.meets x (hfollows.ok x hrun)
      have hrest := ih (i + 1) x.1 hinside
      dsimp only
      rw [Inside] at hinside
      omega

end Decoder

/-- The first field that the buffer does not hold ends behind the end of the address space. -/
def WrapsAround (m : Placed) {α : Type} (free : Except Stop α) : Prop :=
  m.base + m.bytes.length < 2 ^ 64 ∧ ∃ p w, OverrunsAt free p w ∧ 2 ^ 64 ≤ m.base + p + w

theorem Follows.faults_iff {m : Placed} {α : Type} {P : α → Prop} {code free : Except Stop α}
    (h : Follows m P code free) :
    (∃ p w, code = .error (.fault p w)) ↔ WrapsAround m free := by
  constructor
  · rintro ⟨p, w, hcode⟩
    obtain ⟨hfree, hpass⟩ := h.fault p w hcode
    obtain ⟨hp, hover, hw⟩ := h.overrun p w hfree
    obtain ⟨hfits, hwrap⟩ := (m.beyond_of_overrun hp hover hw).mp hpass
    exact ⟨hfits, p, w, hfree, hwrap⟩
  · rintro ⟨hfits, p, w, hfree, hwrap⟩
    obtain ⟨hp, hover, hw⟩ := h.overrun p w hfree
    have hpass := (m.beyond_of_overrun hp hover hw).mpr ⟨hfits, hwrap⟩
    exact ⟨p, w, h.fault_of hfits p w hfree hpass⟩

/-- The header loop ends after as many passes as the buffer has room for, and every copy stays in
the buffer and in its block exactly when no field that runs past the buffer wraps around. -/
theorem receiver_in_bounds_iff (order : ByteOrder) (alloc : IpcAlloc) (m : Placed) :
    (∀ left i headers p, p ≤ m.bytes.length →
      headerPasses order m.bytes m.beyond alloc left i headers p ≤
        (m.bytes.length - p) / 16 + 1) ∧
    ((∀ p w, deserializeRequest order alloc m ≠ .error (.fault p w)) ↔
      (m.base ≠ 0 → ¬ WrapsAround m (parseRequest order m.bytes unchecked alloc))) ∧
    ((∀ p w, deserializeResponse order alloc m ≠ .error (.fault p w)) ↔
      (m.base ≠ 0 → ¬ WrapsAround m (parseResponse order m.bytes unchecked alloc))) := by
  refine ⟨fun left i headers p hp => ?_, ?_, ?_⟩
  · have hpasses : 16 * headerPasses order m.bytes m.beyond alloc left i headers p ≤
        m.bytes.length - p + 16 := headerPasses_le alloc left i headers hp
    omega
  · rw [deserializeRequest]
    by_cases hbase : m.base = 0
    · simp [hbase]
    · rw [if_neg hbase, ← (parseRequest_follows alloc).faults_iff]
      simp [hbase]
  · rw [deserializeResponse]
    by_cases hbase : m.base = 0
    · simp [hbase]
    · rw [if_neg hbase, ← (parseResponse_follows alloc).faults_iff]
      simp [hbase]

/-- A method and the URL length `2 ^ 64 - 1`. -/
def hugeLength : Placed where
  base := 4096
  bytes := [0, 0, 0, 0, 255, 255, 255, 255, 255, 255, 255, 255]
  fits := by decide

/-- The sum wraps around to one byte before the end, the block has no bytes, and the copy takes
nearly the whole address space. -/
theorem hugeLength_copied :
    deserializeRequest .little (fun _ _ => true) hugeLength =
      .error (.fault 12 (2 ^ 64 - 1)) := by
  rfl

end AbstractHttp.Process
