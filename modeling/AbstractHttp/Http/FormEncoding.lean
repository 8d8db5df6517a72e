import AbstractHttp.EventStream.Format
import AbstractHttp.Http.Types
import AbstractHttp.Library.Bytes

/-!
# Form encoding

`urlencode_append` and `urldecode_alloc` of `http_types.c`. A decoded text is a C string, so that
it ends at a NUL that was encoded in it.
-/
namespace AbstractHttp.Http
open EventStream

def percent : UInt8 := 0x25
def plus : UInt8 := 0x2B
def ampersand : UInt8 := 0x26
def equalsSign : UInt8 := 0x3D

/-- The bytes that are encoded as themselves. -/
def urlUnreserved (c : UInt8) : Bool :=
  (0x61 ≤ c ∧ c ≤ 0x7A) ∨ (0x41 ≤ c ∧ c ≤ 0x5A) ∨ (0x30 ≤ c ∧ c ≤ 0x39) ∨
    c = 0x2D ∨ c = 0x5F ∨ c = 0x2E ∨ c = 0x7E

/-- `math_urlencode_len`. -/
def mathUrlencodeLen (src : List UInt8) : ℕ :=
  (src.map fun c => if urlUnreserved c then 1 else if c = space then 1 else 3).sum

/-- `hex[n]`. -/
def hexDigit (n : UInt8) : UInt8 := if n < 10 then 0x30 + n else 0x41 + (n - 10)

/-- What `urlencode_append` writes for one byte. -/
def urlencodeByte (c : UInt8) : List UInt8 :=
  if urlUnreserved c then [c]
  else if c = space then [plus]
  else [percent, hexDigit (c >>> 4), hexDigit (c &&& 15)]

/-- What `urlencode_append` writes. -/
def urlencodeAppend (src : List UInt8) : List UInt8 := src.flatMap urlencodeByte

/-- `tolower` in the C locale. -/
def tolower (c : UInt8) : UInt8 := if 0x41 ≤ c ∧ c ≤ 0x5A then c + 32 else c

/-- The value of a hex digit, and some number for another byte. -/
def hexValue (c : UInt8) : UInt8 :=
  if 0x30 ≤ c ∧ c ≤ 0x39 then c - 0x30 else tolower c - 0x61 + 10

/-- What `urldecode_alloc` writes; a `%` without two bytes behind it is dropped. -/
def urldecode : List UInt8 → List UInt8
  | [] => []
  | c :: src =>
    if c = percent then
      match src with
      | a :: b :: rest => (hexValue a <<< 4 ||| hexValue b) :: urldecode rest
      | short => urldecode short
    else if c = plus then space :: urldecode src
    else c :: urldecode src

/-- `urldecode_alloc`; `granted` is whether `malloc` succeeds. -/
def urldecodeAlloc (src : List UInt8) (granted : Bool) : Except ErrorCode CString :=
  if granted then .ok (.ofBytes (urldecode src)) else .error .nomem

section Bytes

variable {b c n : UInt8} {src : List UInt8}

theorem hexDigit_spec (h : n < 16) :
    hexValue (hexDigit n) = n ∧ urlUnreserved (hexDigit n) = true := by
  have hlt : n.toNat < 16 := UInt8.lt_iff_toNat_lt.mp h
  obtain ⟨k, hk, rfl⟩ : ∃ k, k < 16 ∧ n = UInt8.ofNat k := ⟨n.toNat, hlt, by simp⟩
  interval_cases k <;> decide

theorem highNibble_lt (c : UInt8) : c >>> 4 < 16 := by
  have hbyte : c.toNat < 2 ^ 8 := c.toNat_lt
  rw [UInt8.lt_iff_toNat_lt]
  simp only [UInt8.toNat_shiftRight, UInt8.reduceToNat, Nat.reduceMod, Nat.shiftRight_eq_div_pow]
  omega

theorem lowNibble_lt (c : UInt8) : c &&& 15 < 16 := by
  rw [UInt8.lt_iff_toNat_lt, UInt8.toNat_and]
  exact Nat.lt_succ_of_le Nat.and_le_right

/-- The two halves of a byte make up the byte. -/
theorem nibbles_or (c : UInt8) : c >>> 4 <<< 4 ||| c &&& 15 = c := by
  have hbyte : c.toNat < 2 ^ 8 := c.toNat_lt
  have hlow : c.toNat &&& 15 = c.toNat % 16 := Nat.and_two_pow_sub_one_eq_mod c.toNat 4
  have hhigh : c.toNat >>> 4 <<< 4 % 256 = c.toNat >>> 4 <<< 4 := by
    refine Nat.mod_eq_of_lt ?_
    rw [Nat.shiftLeft_eq, Nat.shiftRight_eq_div_pow]
    omega
  refine UInt8.toNat_inj.mp ?_
  simp only [UInt8.toNat_or, UInt8.toNat_shiftLeft, UInt8.toNat_shiftRight, UInt8.toNat_and,
    UInt8.reduceToNat, Nat.reduceMod, Nat.reducePow]
  have hsum : c.toNat >>> 4 <<< 4 ||| c.toNat % 16 = (c.toNat >>> 4) * 2 ^ 4 + c.toNat % 16 :=
    Library.shiftLeft_or (Nat.mod_lt _ (by decide))
  rw [hhigh, hlow, hsum, Nat.shiftRight_eq_div_pow]
  omega

theorem percent_reserved : urlUnreserved percent = false := by decide

theorem plus_reserved : urlUnreserved plus = false := by decide

/-- The length pass counts what the second pass writes. -/
theorem urlencodeAppend_length (src : List UInt8) :
    (urlencodeAppend src).length = mathUrlencodeLen src := by
  rw [urlencodeAppend, mathUrlencodeLen, List.length_flatMap]
  refine congrArg List.sum (List.map_congr_left fun c _ => ?_)
  rw [urlencodeByte]
  split_ifs <;> rfl

/-- The bytes of an encoded text. -/
theorem mem_urlencodeByte (h : b ∈ urlencodeByte c) :
    urlUnreserved b = true ∨ b = plus ∨ b = percent := by
  rw [urlencodeByte] at h
  split_ifs at h with hunreserved hspace
  · obtain rfl := List.mem_singleton.mp h
    exact Or.inl hunreserved
  · exact Or.inr (Or.inl (List.mem_singleton.mp h))
  · rcases List.mem_cons.mp h with rfl | h
    · exact Or.inr (Or.inr rfl)
    · rcases List.mem_pair.mp h with rfl | rfl
      · exact Or.inl (hexDigit_spec (highNibble_lt c)).2
      · exact Or.inl (hexDigit_spec (lowNibble_lt c)).2

/-- A byte that is never written. -/
theorem not_mem_urlencodeAppend (hreserved : urlUnreserved b = false) (hplus : b ≠ plus)
    (hpercent : b ≠ percent) (src : List UInt8) : b ∉ urlencodeAppend src := by
  intro hmem
  obtain ⟨c, -, hb⟩ := List.mem_flatMap.mp hmem
  rcases mem_urlencodeByte hb with hunreserved | hb | hb
  · exact Bool.false_ne_true (hreserved.symm.trans hunreserved)
  · exact hplus hb
  · exact hpercent hb

theorem urldecode_plain (h : c ≠ percent) (src : List UInt8) :
    urldecode (c :: src) = (if c = plus then space else c) :: urldecode src := by
  rw [urldecode.eq_def]
  dsimp only
  rw [if_neg h]
  split_ifs <;> rfl

theorem urldecode_escape (a b : UInt8) (src : List UInt8) :
    urldecode (percent :: a :: b :: src) = (hexValue a <<< 4 ||| hexValue b) :: urldecode src := by
  rw [urldecode.eq_def]
  exact if_pos rfl

theorem urldecode_urlencodeByte (c : UInt8) (src : List UInt8) :
    urldecode (urlencodeByte c ++ src) = c :: urldecode src := by
  rw [urlencodeByte]
  split_ifs with hunreserved hspace
  · have hpercent : c ≠ percent := by
      rintro rfl
      exact Bool.false_ne_true (percent_reserved.symm.trans hunreserved)
    have hplus : c ≠ plus := by
      rintro rfl
      exact Bool.false_ne_true (plus_reserved.symm.trans hunreserved)
    rw [List.singleton_append, urldecode_plain hpercent, if_neg hplus]
  · rw [List.singleton_append, urldecode_plain (by decide), if_pos rfl, hspace]
  · have hhigh := (hexDigit_spec (highNibble_lt c)).1
    have hlow := (hexDigit_spec (lowNibble_lt c)).1
    simp only [List.cons_append, List.nil_append, urldecode_escape, hhigh, hlow, nibbles_or]

/-- Decoding gives the text that was encoded. -/
theorem urldecode_urlencodeAppend (src : List UInt8) : urldecode (urlencodeAppend src) = src := by
  induction src with
  | nil => rfl
  | cons c src ih =>
    rw [urlencodeAppend, List.flatMap_cons, urldecode_urlencodeByte]
    exact congrArg (c :: ·) ih

theorem urldecodeAlloc_urlencodeAppend (value : CString) :
    urldecodeAlloc (urlencodeAppend value.bytes) true = .ok value := by
  rw [urldecodeAlloc, if_pos rfl, urldecode_urlencodeAppend, CString.ofBytes_bytes]

end Bytes

end AbstractHttp.Http
