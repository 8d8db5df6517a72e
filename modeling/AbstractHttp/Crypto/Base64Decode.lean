import AbstractHttp.Crypto.Base64

/-!
# What the Base64 decoder accepts

`base64_decode` tests the length of its input and looks at its last two
characters.  The 64 that the table holds for a character outside of the
alphabet is added up like a digit, and so is padding anywhere else, so the
decoder answers as it promises on texts and on inputs of a wrong length only.
-/
namespace AbstractHttp.Crypto
open Library

/-- What `base64_decode` promises for an input when its block is allocated: a text is decoded, and
anything else is rejected as invalid. -/
def AnswersAsPromised (junk : Memory UInt8) (input : List UInt8) : Prop :=
  match base64Decode (fun _ => true) junk input with
  | .ok (out, outLen) =>
    Base64.IsText input ∧ Base64.decode input = some (out.read 0 outLen)
  | .error e => ¬ Base64.IsText input ∧ e = .inval

/-- `out_size` of the decoder. -/
def outSize (input : List UInt8) : ℕ :=
  let outSize := input.length / 4 * 3
  let outSize := if 0 < input.length ∧ input[input.length - 1]? = some 0x3D then outSize - 1
    else outSize
  if 1 < input.length ∧ input[input.length - 2]? = some 0x3D then outSize - 1 else outSize

theorem base64Decode_eq (alloc : ℕ → Bool) (junk : Memory UInt8) (input : List UInt8) :
    base64Decode alloc junk input =
      if input.length % 4 ≠ 0 then .error .inval
      else if alloc (outSize input) then
        .ok (decodeLoop (outSize input) junk 0 input, outSize input)
      else .error .nomem := rfl

theorem sextet_of_value {c : UInt8} {n : ℕ} (h : Base64.value c = some n) :
    (sextet c).toNat = n := by
  obtain ⟨hlt, rfl⟩ := Base64.value_eq_some_iff.mp h
  exact sextet_digit hlt

/-- Four digits are added up to the number that they make. -/
theorem sextets_of_number {w x y z : UInt8} {n : ℕ} (h : Base64.number w x y z = some n) :
    ((sextet w <<< 18) + (sextet x <<< 12) + (sextet y <<< 6) + (sextet z <<< 0)).toNat = n := by
  obtain ⟨p, q, r, s, hp, hq, hr, hs, rfl⟩ := Base64.number_eq_some_iff.mp h
  exact sextets_toNat (Base64.value_eq_some_iff.mp hp).1 (Base64.value_eq_some_iff.mp hq).1
    (Base64.value_eq_some_iff.mp hr).1 (Base64.value_eq_some_iff.mp hs).1
    (sextet_of_value hp) (sextet_of_value hq) (sextet_of_value hr) (sextet_of_value hs)

/-- One turn of the loop over four digits: the first octet is written, the others while there is
room. -/
theorem decodeLoop_number {w x y z : UInt8} {n : ℕ} (size : ℕ) (out : Memory UInt8) (j : ℕ)
    (rest : List UInt8) (h : Base64.number w x y z = some n) (hsize : j < size) :
    decodeLoop size out j (w :: x :: y :: z :: rest) =
      decodeLoop size (out.write j ((Base64.octets n).take (size - j)))
        (min (j + 3) size) rest := by
  have hgroup := (sextets_of_number h).trans
    (Base64.group_octets_of_lt (Base64.number_lt h)).symm
  have hpair (a b : UInt8) : out.write j [a, b] = (out.write j [a]).write (j + 1) [b] :=
    Memory.write_append out j [a] [b]
  have htriple (a b c : UInt8) :
      out.write j [a, b, c] = ((out.write j [a]).write (j + 1) [b]).write (j + 2) [c] := by
    rw [← hpair]
    exact Memory.write_append out j [a, b] [c]
  rw [decodeLoop_group size out j rest hgroup]
  have hroom : size = j + 1 ∨ size = j + 2 ∨ j + 2 < size := by omega
  rcases hroom with rfl | rfl | hthree
  · simp [writeWithin, Base64.octets]
  · simp [writeWithin, Base64.octets, hpair]
  · have hmin : min (j + 3) size = j + 3 := by omega
    rw [hmin, List.take_of_length_le (show 3 ≤ size - j by omega), Base64.octets, htriple]
    simp [writeWithin, hthree, show j + 1 < size by omega]

/-- Padding is added up like the digit zero. -/
theorem decodeLoop_pad (size : ℕ) (out : Memory UInt8) (j : ℕ) (w x y : UInt8)
    (rest : List UInt8) : decodeLoop size out j (w :: x :: y :: Base64.pad :: rest) =
      decodeLoop size out j (w :: x :: y :: Base64.digit 0 :: rest) := rfl

theorem decodeLoop_pads (size : ℕ) (out : Memory UInt8) (j : ℕ) (w x : UInt8)
    (rest : List UInt8) : decodeLoop size out j (w :: x :: Base64.pad :: Base64.pad :: rest) =
      decodeLoop size out j (w :: x :: Base64.digit 0 :: Base64.digit 0 :: rest) := rfl

/-- The text of an octet string gives a block of its length that holds it. -/
theorem decodeLoop_decode {xs ys : List UInt8} (h : Base64.decode xs = some ys)
    (out : Memory UInt8) (j : ℕ) : decodeLoop (j + ys.length) out j xs = out.write j ys := by
  induction xs using Base64.decode.induct generalizing ys out j with
  | case1 =>
    obtain rfl : [] = ys := by simpa [Base64.decode] using h
    simp [decodeLoop]
  | case2 w x y z =>
    rw [Base64.decode, Base64.decodeLast] at h
    by_cases hz : z = Base64.pad
    · by_cases hy : y = Base64.pad
      · simp only [hz, hy, ne_eq, not_true_eq_false, if_false, Option.map_eq_some_iff] at h
        obtain ⟨n, hn, rfl⟩ := h
        rw [hz, hy, decodeLoop_pads,
          decodeLoop_number _ out j [] hn (by simp [Base64.octets])]
        simp [decodeLoop, Base64.octets]
      · simp only [hz, hy, ne_eq, not_true_eq_false, not_false_eq_true, if_false, if_true,
          Option.map_eq_some_iff] at h
        obtain ⟨n, hn, rfl⟩ := h
        rw [hz, decodeLoop_pad, decodeLoop_number _ out j [] hn (by simp [Base64.octets])]
        simp [decodeLoop, Base64.octets]
    · simp only [ne_eq, hz, not_false_eq_true, if_true, Option.map_eq_some_iff] at h
      obtain ⟨n, hn, rfl⟩ := h
      rw [decodeLoop_number _ out j [] hn (by simp [Base64.octets])]
      simp [decodeLoop, Base64.octets]
  | case3 w x y z rest hrest ih =>
    simp only [Base64.decode_group hrest, Option.bind_eq_some_iff, Option.map_eq_some_iff] at h
    obtain ⟨n, hn, tail, htail, rfl⟩ := h
    have hlen : (Base64.octets n ++ tail).length = 3 + tail.length := by
      rw [List.length_append]
      rfl
    have hmin : min (j + 3) (j + (3 + tail.length)) = j + 3 := by omega
    rw [hlen, decodeLoop_number _ out j rest hn (by omega), hmin,
      List.take_of_length_le (show 3 ≤ j + (3 + tail.length) - j by omega), ← Nat.add_assoc,
      ih htail, Memory.write_append]
    rfl
  | case4 xs hnil hlast hgroup =>
    rw [Base64.decode_short hnil hgroup] at h
    contradiction

theorem outSize_group (w x y z : UInt8) {rest : List UInt8} (h : 4 ≤ rest.length) :
    outSize (w :: x :: y :: z :: rest) = outSize rest + 3 := by
  have hlast : (w :: x :: y :: z :: rest)[rest.length + 4 - 1]? = rest[rest.length - 1]? := by
    rw [show rest.length + 4 - 1 = rest.length - 1 + 4 by omega]
    rfl
  have hbefore : (w :: x :: y :: z :: rest)[rest.length + 4 - 2]? = rest[rest.length - 2]? := by
    rw [show rest.length + 4 - 2 = rest.length - 2 + 4 by omega]
    rfl
  have hpos : 0 < rest.length + 4 ∧ 0 < rest.length := by omega
  have hone : 1 < rest.length + 4 ∧ 1 < rest.length := by omega
  have hgroups : (rest.length + 4) / 4 * 3 = rest.length / 4 * 3 + 3 := by omega
  simp only [outSize, List.length_cons, hlast, hbefore, hpos, hone, true_and, hgroups]
  split <;> split <;> omega

/-- The size that the last two characters lead to is the number of octets. -/
theorem outSize_decode {xs ys : List UInt8} (h : Base64.decode xs = some ys) :
    outSize xs = ys.length := by
  induction xs using Base64.decode.induct generalizing ys with
  | case1 =>
    obtain rfl : [] = ys := by simpa [Base64.decode] using h
    rfl
  | case2 w x y z =>
    have hne {n : ℕ} (hn : Base64.number w x y z = some n) : y ≠ Base64.pad := by
      rintro rfl
      obtain ⟨p, q, r, s, -, -, hr, -⟩ := Base64.number_eq_some_iff.mp hn
      rw [Base64.value_pad] at hr
      contradiction
    rw [Base64.decode, Base64.decodeLast] at h
    by_cases hz : z = Base64.pad
    · by_cases hy : y = Base64.pad
      · simp only [hz, hy, ne_eq, not_true_eq_false, if_false, Option.map_eq_some_iff] at h
        obtain ⟨n, hn, rfl⟩ := h
        simp [outSize, hz, hy, Base64.pad, Base64.octets]
      · simp only [hz, hy, ne_eq, not_true_eq_false, not_false_eq_true, if_false, if_true,
          Option.map_eq_some_iff] at h
        obtain ⟨n, hn, rfl⟩ := h
        rw [Base64.pad] at hy
        simp [outSize, hz, hy, Base64.pad, Base64.octets]
    · simp only [ne_eq, hz, not_false_eq_true, if_true, Option.map_eq_some_iff] at h
      obtain ⟨n, hn, rfl⟩ := h
      have hy := hne hn
      rw [Base64.pad] at hz hy
      simp [outSize, hz, hy, Base64.octets]
  | case3 w x y z rest hrest ih =>
    simp only [Base64.decode_group hrest, Option.bind_eq_some_iff, Option.map_eq_some_iff] at h
    obtain ⟨n, hn, tail, htail, rfl⟩ := h
    have htext := Base64.decode_isSome_iff.mp (Option.isSome_of_eq_some htail)
    have hmod := htext.length
    have hpos := List.length_pos_of_ne_nil hrest
    rw [outSize_group w x y z (by omega), ih htail, List.length_append, Nat.add_comm]
    rfl
  | case4 xs hnil hlast hgroup =>
    rw [Base64.decode_short hnil hgroup] at h
    contradiction

/-- A text is decoded whatever the block held. -/
theorem base64Decode_of_decode (alloc : ℕ → Bool) (junk : Memory UInt8) {input ys : List UInt8}
    (h : Base64.decode input = some ys) (halloc : alloc ys.length = true) :
    base64Decode alloc junk input = .ok (junk.write 0 ys, ys.length) := by
  have htext := Base64.decode_isSome_iff.mp (Option.isSome_of_eq_some h)
  have hloop := decodeLoop_decode h junk 0
  rw [Nat.zero_add] at hloop
  rw [base64Decode_eq, if_neg (not_not_intro htext.length), outSize_decode h, if_pos halloc, hloop]

/-- The decoder answers as promised exactly on the inputs that are texts or have a length that no
text has. -/
theorem answersAsPromised_iff (junk : Memory UInt8) (input : List UInt8) :
    AnswersAsPromised junk input ↔ input.length % 4 ≠ 0 ∨ Base64.IsText input := by
  by_cases htext : Base64.IsText input
  · obtain ⟨ys, hys⟩ := Option.isSome_iff_exists.mp (Base64.decode_isSome_iff.mpr htext)
    have hok := base64Decode_of_decode (fun _ => true) junk hys rfl
    have hread := Memory.read_write_self junk 0 ys
    simp only [AnswersAsPromised, hok, htext, hys, hread, and_self, or_true]
  · by_cases hlen : input.length % 4 = 0
    · simp [AnswersAsPromised, base64Decode_eq, hlen, htext]
    · simp [AnswersAsPromised, base64Decode_eq, hlen, htext]

/-- Four exclamation marks, none of them in the alphabet, are decoded to three octets. -/
theorem not_answersAsPromised_exclamation :
    ¬ AnswersAsPromised (fun _ => 0) [0x21, 0x21, 0x21, 0x21] := by
  intro h
  have hdigits := h.1.digits 0x21 (by simp) (by decide)
  have hnone : ¬ ∃ n < 64, Base64.digit n = 0x21 := by decide
  exact hnone hdigits

end AbstractHttp.Crypto
