import AbstractHttp.Library.Memory

/-! # Numbers as bytes and bytewise masks -/
namespace AbstractHttp.Library

/-- The number written by bytes, most significant first. -/
def ofBigEndian (bs : List UInt8) : ℕ := bs.foldl (fun n b => n * 256 + b.toNat) 0

/-- The `k` lowest bytes of a number, most significant first. -/
def toBigEndian : ℕ → ℕ → List UInt8
  | 0, _ => []
  | k + 1, n => toBigEndian k (n / 256) ++ [UInt8.ofNat n]

@[simp] theorem toBigEndian_length (k n : ℕ) : (toBigEndian k n).length = k := by
  induction k generalizing n with
  | zero => rfl
  | succ k ih => simp [toBigEndian, ih]

theorem ofBigEndian_append_singleton (bs : List UInt8) (b : UInt8) :
    ofBigEndian (bs ++ [b]) = ofBigEndian bs * 256 + b.toNat := by
  simp [ofBigEndian]

theorem ofBigEndian_lt (bs : List UInt8) : ofBigEndian bs < 256 ^ bs.length := by
  induction bs using List.reverseRecOn with
  | nil => simp [ofBigEndian]
  | append_singleton bs b ih =>
    have hbyte : b.toNat < 256 := b.toNat_lt
    rw [ofBigEndian_append_singleton, List.length_append, List.length_singleton, pow_succ]
    omega

/-- Reading back what was written gives the number, up to the bytes that were dropped. -/
theorem ofBigEndian_toBigEndian (k n : ℕ) : ofBigEndian (toBigEndian k n) = n % 256 ^ k := by
  induction k generalizing n with
  | zero => simp [toBigEndian, ofBigEndian, Nat.mod_one]
  | succ k ih =>
    have hbyte : (UInt8.ofNat n).toNat = n % 256 := UInt8.toNat_ofNat'
    rw [toBigEndian, ofBigEndian_append_singleton, ih, hbyte, pow_succ 256 k,
      Nat.mul_comm (256 ^ k) 256, Nat.mod_mul]
    ring

/-- The high bytes of a number in front of its low bytes. -/
theorem toBigEndian_add (j k n : ℕ) :
    toBigEndian (j + k) n = toBigEndian j (n / 256 ^ k) ++ toBigEndian k n := by
  induction k generalizing n with
  | zero => simp [toBigEndian]
  | succ k ih =>
    rw [← Nat.add_assoc, toBigEndian, ih, toBigEndian, Nat.div_div_eq_div_mul, ← pow_succ',
      List.append_assoc]

theorem toBigEndian_mod (k n : ℕ) : toBigEndian k (n % 256 ^ k) = toBigEndian k n := by
  induction k generalizing n with
  | zero => rfl
  | succ k ih =>
    have hlow : UInt8.ofNat (n % 256 ^ (k + 1)) = UInt8.ofNat n := by
      apply UInt8.toNat_inj.mp
      rw [UInt8.toNat_ofNat', UInt8.toNat_ofNat', pow_succ']
      exact Nat.mod_mul_right_mod n 256 (256 ^ k)
    rw [toBigEndian, toBigEndian, hlow, pow_succ', Nat.mod_mul_right_div_self, ih]

/-- How a machine lays out a number in memory. -/
inductive ByteOrder where
  | little
  | big
  deriving DecidableEq, Repr

namespace ByteOrder

/-- The `k` bytes in which the machine keeps a number. -/
def toBytes (order : ByteOrder) (k n : ℕ) : List UInt8 :=
  match order with
  | .little => (toBigEndian k n).reverse
  | .big => toBigEndian k n

/-- The number that the machine reads from bytes. -/
def ofBytes (order : ByteOrder) (bs : List UInt8) : ℕ :=
  match order with
  | .little => ofBigEndian bs.reverse
  | .big => ofBigEndian bs

@[simp] theorem toBytes_length (order : ByteOrder) (k n : ℕ) :
    (order.toBytes k n).length = k := by
  cases order <;> simp [toBytes]

/-- A number survives being stored and loaded when its bytes hold it. -/
theorem ofBytes_toBytes (order : ByteOrder) {k n : ℕ} (h : n < 256 ^ k) :
    order.ofBytes (order.toBytes k n) = n := by
  cases order <;>
    simp [toBytes, ofBytes, ofBigEndian_toBigEndian, Nat.mod_eq_of_lt h]

theorem ofBytes_lt (order : ByteOrder) (bs : List UInt8) : order.ofBytes bs < 256 ^ bs.length := by
  cases order with
  | little => simpa [ofBytes] using ofBigEndian_lt bs.reverse
  | big => exact ofBigEndian_lt bs

end ByteOrder

/-- Setting bits below a multiple of a power of two adds them. -/
theorem shiftLeft_or {a b k : ℕ} (hb : b < 2 ^ k) : a <<< k ||| b = a * 2 ^ k + b := by
  rw [Nat.shiftLeft_eq, Nat.mul_comm, Nat.two_pow_add_eq_or_of_lt hb]

/-- Combine byte `i` of a list with byte `(phase + i) % 4` of a key. -/
def xorMask (key : Memory UInt8) (phase : ℕ) : List UInt8 → List UInt8
  | [] => []
  | b :: bs => (b ^^^ key (phase % 4)) :: xorMask key (phase + 1) bs

@[simp] theorem xorMask_length (key : Memory UInt8) (phase : ℕ) (bs : List UInt8) :
    (xorMask key phase bs).length = bs.length := by
  induction bs generalizing phase with
  | nil => rfl
  | cons b bs ih => simp [xorMask, ih]

/-- A cut of the bytes goes on at the right place of the key. -/
theorem xorMask_append (key : Memory UInt8) (phase : ℕ) (as bs : List UInt8) :
    xorMask key phase (as ++ bs) = xorMask key phase as ++ xorMask key (phase + as.length) bs := by
  induction as generalizing phase with
  | nil => rfl
  | cons a as ih =>
    simp only [List.cons_append, xorMask, List.length_cons, ih]
    rw [show phase + 1 + as.length = phase + (as.length + 1) by omega]

/-- The same key at the same phase takes the mask off again. -/
theorem xorMask_xorMask (key : Memory UInt8) (phase : ℕ) (bs : List UInt8) :
    xorMask key phase (xorMask key phase bs) = bs := by
  induction bs generalizing phase with
  | nil => rfl
  | cons b bs ih => rw [xorMask, xorMask, ih, UInt8.xor_assoc, UInt8.xor_self, UInt8.xor_zero]

/-- Only the first four bytes of the key matter. -/
theorem xorMask_congr {key key' : Memory UInt8} (h : ∀ i < 4, key i = key' i) (phase : ℕ)
    (bs : List UInt8) : xorMask key phase bs = xorMask key' phase bs := by
  induction bs generalizing phase with
  | nil => rfl
  | cons b bs ih => rw [xorMask, xorMask, ih, h _ (Nat.mod_lt _ (by omega))]

end AbstractHttp.Library
