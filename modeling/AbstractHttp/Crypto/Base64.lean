import AbstractHttp.ErrorCode
import AbstractHttp.EventStream.Format
import AbstractHttp.Library.Base64
import AbstractHttp.Library.Memory

/-!
# Base64 in the sources

`base64_encode` and `base64_decode` of the crypto utilities, and the static
`base64_encode` that Basic authentication uses.  An object is smaller than half
the address space, so none of the sizes below wraps.
-/
namespace AbstractHttp.Crypto
open Library EventStream

/-- `base64_chars`. -/
def base64Chars : List UInt8 :=
  asciiBytes "ABCDEFGHIJKLMNOPQRSTUVWXYZabcdefghijklmnopqrstuvwxyz0123456789+/".toList

/-- The four characters that one turn of the loop writes for the octets it has read. -/
def encodeTriple (octetA octetB octetC : UInt8) : List UInt8 :=
  let triple : UInt32 :=
    (octetA.toUInt32 <<< 0x10) + (octetB.toUInt32 <<< 0x08) + octetC.toUInt32
  [base64Chars.getD ((triple >>> 18) &&& 0x3F).toNat 0,
    base64Chars.getD ((triple >>> 12) &&& 0x3F).toNat 0,
    base64Chars.getD ((triple >>> 6) &&& 0x3F).toNat 0,
    base64Chars.getD ((triple >>> 0) &&& 0x3F).toNat 0]

/-- The loop over the input, an octet past its end being 0, with the characters of a turn given
by `triple`. -/
def encodeLoop (triple : UInt8 → UInt8 → UInt8 → List UInt8) (out : Memory UInt8) (j : ℕ) :
    List UInt8 → Memory UInt8
  | [] => out
  | [a] => out.write j (triple a 0 0)
  | [a, b] => out.write j (triple a b 0)
  | a :: b :: c :: rest => encodeLoop triple (out.write j (triple a b c)) (j + 4) rest

/-- `base64_encode`, in a block that holds `junk` when it is allocated: the block and `*out_len`. -/
def base64Encode (alloc : ℕ → Bool) (junk : Memory UInt8) (input : List UInt8) :
    Except ErrorCode (Memory UInt8 × ℕ) :=
  let len := 4 * ((input.length + 2) / 3)
  if alloc (len + 1) then
    let out := encodeLoop encodeTriple junk 0 input
    let out := (List.range ((3 - input.length % 3) % 3)).foldl
      (fun out i => out.write (len - 1 - i) [0x3D]) out
    .ok (out.write len [0], len)
  else .error .nomem

/-- `base64_decode_table`. -/
def base64DecodeTable : List UInt8 := [
    64, 64, 64, 64, 64, 64, 64, 64, 64, 64, 64, 64, 64, 64, 64, 64, 64, 64, 64,
    64, 64, 64, 64, 64, 64, 64, 64, 64, 64, 64, 64, 64, 64, 64, 64, 64, 64, 64,
    64, 64, 64, 64, 64, 62, 64, 64, 64, 63, 52, 53, 54, 55, 56, 57, 58, 59, 60,
    61, 64, 64, 64, 64, 64, 64, 64, 0,  1,  2,  3,  4,  5,  6,  7,  8,  9,  10,
    11, 12, 13, 14, 15, 16, 17, 18, 19, 20, 21, 22, 23, 24, 25, 64, 64, 64, 64,
    64, 64, 26, 27, 28, 29, 30, 31, 32, 33, 34, 35, 36, 37, 38, 39, 40, 41, 42,
    43, 44, 45, 46, 47, 48, 49, 50, 51, 64, 64, 64, 64, 64, 64, 64, 64, 64, 64,
    64, 64, 64, 64, 64, 64, 64, 64, 64, 64, 64, 64, 64, 64, 64, 64, 64, 64, 64,
    64, 64, 64, 64, 64, 64, 64, 64, 64, 64, 64, 64, 64, 64, 64, 64, 64, 64, 64,
    64, 64, 64, 64, 64, 64, 64, 64, 64, 64, 64, 64, 64, 64, 64, 64, 64, 64, 64,
    64, 64, 64, 64, 64, 64, 64, 64, 64, 64, 64, 64, 64, 64, 64, 64, 64, 64, 64,
    64, 64, 64, 64, 64, 64, 64, 64, 64, 64, 64, 64, 64, 64, 64, 64, 64, 64, 64,
    64, 64, 64, 64, 64, 64, 64, 64, 64, 64, 64, 64, 64, 64, 64, 64, 64, 64, 64,
    64, 64, 64, 64, 64, 64, 64, 64, 64]

/-- `sextet_a` to `sextet_d`, as each of them is read. -/
def sextet (c : UInt8) : UInt32 :=
  if c = 0x3D then 0 else (base64DecodeTable.getD c.toNat 0).toUInt32

/-- One write of the decoder that is made only while there is room. -/
def writeWithin (outSize : ℕ) (out : Memory UInt8) (j : ℕ) (octet : UInt8) : Memory UInt8 × ℕ :=
  if j < outSize then (out.write j [octet], j + 1) else (out, j)

/-- The loop of `base64_decode` over groups of four characters. -/
def decodeLoop (outSize : ℕ) (out : Memory UInt8) (j : ℕ) : List UInt8 → Memory UInt8
  | a :: b :: c :: d :: rest =>
    let triple := (sextet a <<< 18) + (sextet b <<< 12) + (sextet c <<< 6) + (sextet d <<< 0)
    let out := out.write j [((triple >>> 16) &&& 0xFF).toUInt8]
    let (out, j) := writeWithin outSize out (j + 1) ((triple >>> 8) &&& 0xFF).toUInt8
    let (out, j) := writeWithin outSize out j ((triple >>> 0) &&& 0xFF).toUInt8
    decodeLoop outSize out j rest
  | _ => out

/-- `base64_decode`, in a block that holds `junk` when it is allocated: the block and `*out_len`. -/
def base64Decode (alloc : ℕ → Bool) (junk : Memory UInt8) (input : List UInt8) :
    Except ErrorCode (Memory UInt8 × ℕ) :=
  if input.length % 4 ≠ 0 then .error .inval
  else
    let outSize := input.length / 4 * 3
    let outSize := if 0 < input.length ∧ input[input.length - 1]? = some 0x3D then outSize - 1
      else outSize
    let outSize := if 1 < input.length ∧ input[input.length - 2]? = some 0x3D then outSize - 1
      else outSize
    if alloc outSize then .ok (decodeLoop outSize junk 0 input, outSize) else .error .nomem

end AbstractHttp.Crypto

namespace AbstractHttp.Http
open Library EventStream

/-- `b64` of the static encoder. -/
def b64 : List UInt8 :=
  asciiBytes "ABCDEFGHIJKLMNOPQRSTUVWXYZabcdefghijklmnopqrstuvwxyz0123456789+/".toList

/-- The four characters that one turn of the loop writes, `unsigned long` having 64 bits. -/
def encodeTriple (octetA octetB octetC : UInt8) : List UInt8 :=
  let triple : UInt64 :=
    (octetA.toUInt64 <<< 0x10) + (octetB.toUInt64 <<< 0x08) + octetC.toUInt64
  [b64.getD ((triple >>> 18) &&& 0x3F).toNat 0, b64.getD ((triple >>> 12) &&& 0x3F).toNat 0,
    b64.getD ((triple >>> 6) &&& 0x3F).toNat 0, b64.getD ((triple >>> 0) &&& 0x3F).toNat 0]

/-- The static `base64_encode`, in a block that holds `junk` when it is allocated. -/
def base64Encode (alloc : ℕ → Bool) (junk : Memory UInt8) (src : List UInt8) :
    Except ErrorCode (Memory UInt8) :=
  let olen := 4 * ((src.length + 2) / 3)
  if alloc (olen + 1) then
    let res := Crypto.encodeLoop encodeTriple junk 0 src
    let res :=
      if src.length % 3 = 1 then (res.write (olen - 1) [0x3D]).write (olen - 2) [0x3D]
      else if src.length % 3 = 2 then res.write (olen - 1) [0x3D]
      else res
    .ok (res.write olen [0])
  else .error .nomem

/-- What the loop stores from offset `j` on, and where. -/
def encodeWrites (j : ℕ) : List UInt8 → List (ℕ × List UInt8)
  | [] => []
  | [a] => [(j, encodeTriple a 0 0)]
  | [a, b] => [(j, encodeTriple a b 0)]
  | a :: b :: c :: rest => (j, encodeTriple a b c) :: encodeWrites (j + 4) rest

/-- What the static `base64_encode` stores, and where. -/
def base64Writes (src : List UInt8) : List (ℕ × List UInt8) :=
  let olen := 4 * ((src.length + 2) / 3)
  encodeWrites 0 src ++
    (if src.length % 3 = 1 then [(olen - 1, [0x3D]), (olen - 2, [0x3D])]
      else if src.length % 3 = 2 then [(olen - 1, [0x3D])]
      else []) ++
    [(olen, [0])]

/-- The stores of the static `base64_encode`. -/
def base64Stores (src : List UInt8) : List Extent :=
  (base64Writes src).map fun w => ⟨w.1, w.2.length, 4 * ((src.length + 2) / 3) + 1⟩

theorem foldl_encodeWrites (out : Memory UInt8) (j : ℕ) (src : List UInt8) :
    (encodeWrites j src).foldl (fun out w => out.write w.1 w.2) out =
      Crypto.encodeLoop encodeTriple out j src := by
  induction out, j, src using Crypto.encodeLoop.induct encodeTriple with
  | case1 => rfl
  | case2 => rfl
  | case3 => rfl
  | case4 out j a b c rest ih =>
    rw [encodeWrites, List.foldl_cons, Crypto.encodeLoop]
    exact ih

/-- The block that the encoder gives is what these stores make of it. -/
theorem base64Encode_writes {alloc : ℕ → Bool} {junk res : Memory UInt8} {src : List UInt8}
    (h : base64Encode alloc junk src = .ok res) :
    res = (base64Writes src).foldl (fun out w => out.write w.1 w.2) junk := by
  rw [base64Encode] at h
  split_ifs at h with halloc hone htwo
  · cases h
    rw [base64Writes, if_pos hone, List.foldl_append, List.foldl_append, foldl_encodeWrites]
    rfl
  · cases h
    rw [base64Writes, if_neg hone, if_pos htwo, List.foldl_append, List.foldl_append,
      foldl_encodeWrites]
    rfl
  · cases h
    rw [base64Writes, if_neg hone, if_neg htwo, List.foldl_append, List.foldl_append,
      foldl_encodeWrites]
    rfl

theorem encodeWrites_inBounds (j : ℕ) (src : List UInt8) :
    ∀ w ∈ encodeWrites j src, w.1 + w.2.length ≤ j + 4 * ((src.length + 2) / 3) := by
  have htriple : ∀ a b c, (encodeTriple a b c).length = 4 := fun _ _ _ => rfl
  induction j, src using encodeWrites.induct with
  | case1 j => exact List.forall_mem_nil _
  | case2 j a =>
    rw [encodeWrites, List.forall_mem_singleton, htriple]
    simp only [List.length_cons, List.length_nil]
    omega
  | case3 j a b =>
    rw [encodeWrites, List.forall_mem_singleton, htriple]
    simp only [List.length_cons, List.length_nil]
    omega
  | case4 j a b c rest ih =>
    rw [encodeWrites, List.forall_mem_cons]
    refine ⟨?_, fun w hw => (ih w hw).trans ?_⟩
    · simp only [htriple, List.length_cons]
      omega
    · simp only [List.length_cons]
      omega

/-- The static encoder stores inside its block. -/
theorem base64Stores_inBounds (src : List UInt8) : ∀ e ∈ base64Stores src, e.InBounds := by
  have hwrites : ∀ w ∈ base64Writes src, w.1 + w.2.length ≤ 4 * ((src.length + 2) / 3) + 1 := by
    rw [base64Writes]
    refine List.forall_mem_append.mpr ⟨List.forall_mem_append.mpr ⟨?_, ?_⟩, ?_⟩
    · intro w hw
      have hloop := encodeWrites_inBounds 0 src w hw
      omega
    · -- an octet over leaves a group of four characters, whose last are replaced
      split_ifs with hone htwo
      · refine List.forall_mem_cons.mpr ⟨?_, List.forall_mem_singleton.mpr ?_⟩
        · dsimp only [List.length_singleton]
          omega
        · dsimp only [List.length_singleton]
          omega
      · refine List.forall_mem_singleton.mpr ?_
        dsimp only [List.length_singleton]
        omega
      · exact List.forall_mem_nil _
    · exact List.forall_mem_singleton.mpr le_rfl
  refine List.forall_mem_map.mpr fun w hw => ?_
  rw [Extent.inBounds_iff]
  exact .inr (hwrites w hw)

end AbstractHttp.Http

namespace AbstractHttp.Crypto
open Library EventStream

section Characters

variable (a b c : UInt8)

theorem base64Chars_getD {n : ℕ} (h : n < 64) : base64Chars.getD n 0 = Base64.digit n := by
  have hall : ∀ i : Fin 64, base64Chars.getD i 0 = Base64.digit i := by decide +kernel
  exact hall ⟨n, h⟩

/-- Reading a digit gives its number back, and no digit is read as padding. -/
theorem sextet_digit {n : ℕ} (h : n < 64) : (sextet (Base64.digit n)).toNat = n := by
  have hall : ∀ i : Fin 64, (sextet (Base64.digit i)).toNat = i := by decide +kernel
  exact hall ⟨n, h⟩

theorem sextet_pad : sextet Base64.pad = 0 := rfl

theorem triple_toNat : ((a.toUInt32 <<< 0x10) + (b.toUInt32 <<< 0x08) + c.toUInt32).toNat =
    Base64.group a b c := by
  have ha := a.toNat_lt
  have hb := b.toNat_lt
  have hc := c.toNat_lt
  simp only [UInt32.toNat_add, UInt32.toNat_shiftLeft, UInt8.toNat_toUInt32, Base64.group,
    UInt32.reduceToNat, Nat.shiftLeft_eq, Nat.reduceMod, Nat.reducePow]
  omega

theorem encodeTriple_eq : encodeTriple a b c = Base64.digits (Base64.group a b c) := by
  have hlt := Base64.group_div_lt a b c
  have hmask (n : ℕ) : n &&& 63 = n % 64 := Nat.and_two_pow_sub_one_eq_mod n 6
  simp only [encodeTriple, UInt32.toNat_and, UInt32.toNat_shiftRight, triple_toNat,
    UInt32.reduceToNat, Nat.shiftRight_eq_div_pow, Nat.reduceMod, hmask]
  simp only [base64Chars_getD (Nat.mod_lt _ (show 0 < 64 by omega)), Base64.digits,
    Nat.mod_eq_of_lt hlt, base64Chars_getD hlt, pow_zero, Nat.div_one]

/-- The wider arithmetic of the static encoder makes no difference. -/
theorem http_encodeTriple_eq : Http.encodeTriple a b c = encodeTriple a b c := by
  have ha := a.toNat_lt
  have hb := b.toNat_lt
  have hc := c.toNat_lt
  have htriple : ((a.toUInt64 <<< 0x10) + (b.toUInt64 <<< 0x08) + c.toUInt64).toNat =
      Base64.group a b c := by
    simp only [UInt64.toNat_add, UInt64.toNat_shiftLeft, UInt8.toNat_toUInt64, Base64.group,
      UInt64.reduceToNat, Nat.shiftLeft_eq, Nat.reduceMod, Nat.reducePow]
    omega
  simp only [Http.encodeTriple, encodeTriple, UInt32.toNat_and, UInt32.toNat_shiftRight,
    triple_toNat, UInt64.toNat_and, UInt64.toNat_shiftRight, htriple, UInt32.reduceToNat,
    UInt64.reduceToNat, Nat.reduceMod]
  rfl

end Characters

section Encoder

/-- The loop writes the filled digits, group by group. -/
theorem encodeLoop_eq (out : Memory UInt8) (j : ℕ) (input : List UInt8) :
    encodeLoop encodeTriple out j input = out.write j (Base64.filled input) := by
  induction input using Base64.filled.induct generalizing out j with
  | case1 => rw [encodeLoop, Base64.filled, Memory.write_nil]
  | case2 a => rw [encodeLoop, Base64.filled, encodeTriple_eq]
  | case3 a b => rw [encodeLoop, Base64.filled, encodeTriple_eq]
  | case4 a b c rest ih =>
    rw [encodeLoop, ih, encodeTriple_eq, Base64.filled, Memory.write_append,
      Base64.digits_length]

theorem http_encodeLoop_eq (out : Memory UInt8) (j : ℕ) (input : List UInt8) :
    encodeLoop Http.encodeTriple out j input = encodeLoop encodeTriple out j input := by
  have htriple : Http.encodeTriple = encodeTriple := by
    funext a b c
    exact http_encodeTriple_eq a b c
  rw [htriple]

/-- What a rule for the padding has to leave: the filled digits with the padding over the last. -/
theorem read_padded (junk : Memory UInt8) (input : List UInt8) :
    (((junk.write 0 (Base64.filled input)).write
        (4 * ((input.length + 2) / 3) - Base64.padding input.length)
        (List.replicate (Base64.padding input.length) Base64.pad)).write
      (4 * ((input.length + 2) / 3)) [0]).read 0 (4 * ((input.length + 2) / 3) + 1) =
      Base64.encode input ++ [0] := by
  have hle := Base64.padding_le input.length
  have hcut : 4 * ((input.length + 2) / 3) - Base64.padding input.length +
      (List.replicate (Base64.padding input.length) Base64.pad).length =
      4 * ((input.length + 2) / 3) := by
    rw [List.length_replicate]
    omega
  have hfilled : (junk.write 0 (Base64.filled input)).read 0 (4 * ((input.length + 2) / 3)) =
      Base64.filled input := by
    rw [← Base64.filled_length]
    exact Memory.read_write_self junk 0 _
  have hextend := Memory.read_write_extend (junk.write 0 (Base64.filled input))
    (4 * ((input.length + 2) / 3) - Base64.padding input.length)
    (List.replicate (Base64.padding input.length) Base64.pad)
  rw [hcut, ← Memory.read_take _ _ (Nat.sub_le (4 * ((input.length + 2) / 3)) _), hfilled,
    ← Base64.encode_eq_filled] at hextend
  exact (Memory.read_write_extend _ _ [0]).trans (by rw [hextend])

/-- `base64_encode` writes the padded text and a NUL, and gives the length of the text. -/
theorem base64Encode_spec {alloc : ℕ → Bool} (junk : Memory UInt8) (input : List UInt8)
    (h : alloc (4 * ((input.length + 2) / 3) + 1) = true) :
    ∃ out, base64Encode alloc junk input = .ok (out, 4 * ((input.length + 2) / 3)) ∧
      out.read 0 (4 * ((input.length + 2) / 3) + 1) = Base64.encode input ++ [0] := by
  refine ⟨_, ?_, read_padded junk input⟩
  have hpads := Memory.foldl_write_down (junk.write 0 (Base64.filled input)) Base64.pad
    (Base64.padding_le input.length)
  rw [base64Encode, if_pos h, encodeLoop_eq]
  exact congrArg (fun out : Memory UInt8 => Except.ok (out.write _ [0], _)) hpads

/-- The static encoder puts the padding where the other one does. -/
theorem http_base64Encode_eq (alloc : ℕ → Bool) (junk : Memory UInt8) (input : List UInt8) :
    Http.base64Encode alloc junk input = (base64Encode alloc junk input).map (·.1) := by
  have hrule (res : Memory UInt8) {olen : ℕ} (hlen : olen = 4 * ((input.length + 2) / 3)) :
      (if input.length % 3 = 1 then (res.write (olen - 1) [0x3D]).write (olen - 2) [0x3D]
        else if input.length % 3 = 2 then res.write (olen - 1) [0x3D] else res) =
      (List.range ((3 - input.length % 3) % 3)).foldl
        (fun out i => out.write (olen - 1 - i) [0x3D]) res := by
    have hmod : input.length % 3 = 0 ∨ input.length % 3 = 1 ∨ input.length % 3 = 2 := by omega
    rcases hmod with h | h | h <;> simp [h, List.range_succ, Nat.sub_sub]
  rw [Http.base64Encode, base64Encode, http_encodeLoop_eq]
  split
  · simp only [Except.map, hrule _ rfl]
  · rfl

end Encoder

section Decoder

/-- The sum of four digits of a group is the group again. -/
theorem sextets_toNat {p q r s : ℕ} (hp : p < 64) (hq : q < 64) (hr : r < 64) (hs : s < 64)
    {a b c d : UInt32} (ha : a.toNat = p) (hb : b.toNat = q) (hc : c.toNat = r)
    (hd : d.toNat = s) : ((a <<< 18) + (b <<< 12) + (c <<< 6) + (d <<< 0)).toNat =
      p * 2 ^ 18 + q * 2 ^ 12 + r * 2 ^ 6 + s := by
  simp only [UInt32.toNat_add, UInt32.toNat_shiftLeft, UInt32.reduceToNat, Nat.shiftLeft_eq,
    Nat.reduceMod, Nat.reducePow, ha, hb, hc, hd]
  omega

/-- The octets that the decoder takes out of a number of 24 bits. -/
theorem octet_eq {triple : UInt32} {n : ℕ} (h : triple.toNat = n) :
    (((triple >>> 16) &&& 0xFF).toUInt8 = UInt8.ofNat (n / 2 ^ 16 % 256)) ∧
      (((triple >>> 8) &&& 0xFF).toUInt8 = UInt8.ofNat (n / 2 ^ 8 % 256)) ∧
      ((triple >>> 0) &&& 0xFF).toUInt8 = UInt8.ofNat (n % 256) := by
  have hmask (k : ℕ) : k &&& 255 = k % 256 := Nat.and_two_pow_sub_one_eq_mod k 8
  refine ⟨?_, ?_, ?_⟩ <;> apply UInt8.toNat_inj.mp <;>
    simp [UInt32.toNat_toUInt8, Nat.shiftRight_eq_div_pow, hmask, h]

/-- Four characters whose digits make up a group are turned back into its octets, those beyond
the output's size being dropped. -/
theorem decodeLoop_group {w x y z a b c : UInt8} (outSize : ℕ) (out : Memory UInt8) (j : ℕ)
    (rest : List UInt8)
    (hgroup : ((sextet w <<< 18) + (sextet x <<< 12) + (sextet y <<< 6) +
      (sextet z <<< 0)).toNat = Base64.group a b c) :
    decodeLoop outSize out j (w :: x :: y :: z :: rest) =
      decodeLoop outSize
        (writeWithin outSize (writeWithin outSize (out.write j [a]) (j + 1) b).1
          (writeWithin outSize (out.write j [a]) (j + 1) b).2 c).1
        (writeWithin outSize (writeWithin outSize (out.write j [a]) (j + 1) b).1
          (writeWithin outSize (out.write j [a]) (j + 1) b).2 c).2 rest := by
  obtain ⟨hfirst, hsecond, hthird⟩ := octet_eq hgroup
  obtain ⟨ha, hb, hc⟩ := Base64.group_octets a b c
  have hbyte : Base64.group a b c / 2 ^ 16 % 256 = a.toNat := by
    have hlt := a.toNat_lt
    rw [ha]
    omega
  rw [decodeLoop]
  simp only [hfirst, hsecond, hthird, hbyte, hb, hc, UInt8.ofNat_toNat]

/-- The digits of a group as the decoder adds them up, a padding character counting as the zero
digit that it replaces. -/
theorem sextets_group {w x y z : UInt8} (a b c : UInt8)
    (hw : w = Base64.digit (Base64.group a b c / 2 ^ 18))
    (hx : x = Base64.digit (Base64.group a b c / 2 ^ 12 % 64))
    (hy : y = Base64.digit (Base64.group a b c / 2 ^ 6 % 64) ∨
      y = Base64.pad ∧ Base64.group a b c / 2 ^ 6 % 64 = 0)
    (hz : z = Base64.digit (Base64.group a b c % 64) ∨
      z = Base64.pad ∧ Base64.group a b c % 64 = 0) :
    ((sextet w <<< 18) + (sextet x <<< 12) + (sextet y <<< 6) + (sextet z <<< 0)).toNat =
      Base64.group a b c := by
  have hlt := Base64.group_div_lt a b c
  have hmod (n : ℕ) : n % 64 < 64 := Nat.mod_lt _ (by omega)
  have hy' : (sextet y).toNat = Base64.group a b c / 2 ^ 6 % 64 := by
    rcases hy with rfl | ⟨rfl, hzero⟩
    · exact sextet_digit (hmod _)
    · rw [sextet_pad, hzero, UInt32.toNat_zero]
  have hz' : (sextet z).toNat = Base64.group a b c % 64 := by
    rcases hz with rfl | ⟨rfl, hzero⟩
    · exact sextet_digit (hmod _)
    · rw [sextet_pad, hzero, UInt32.toNat_zero]
  rw [sextets_toNat hlt (hmod _) (hmod _) (hmod _) (hw ▸ sextet_digit hlt)
    (hx ▸ sextet_digit (hmod _)) hy' hz']
  exact Base64.octets_of_digits a b c

/-- Decoding the text of an octet string, with the size that it has, writes the string. -/
theorem decodeLoop_encode (out : Memory UInt8) (j : ℕ) (xs : List UInt8) :
    decodeLoop (j + xs.length) out j (Base64.encode xs) = out.write j xs := by
  induction xs using Base64.encode.induct generalizing out j with
  | case1 => simp [Base64.encode, decodeLoop]
  | case2 a =>
    have hgroup : Base64.group a 0 0 = a.toNat * 2 ^ 16 := by simp [Base64.group]
    have hsextets := sextets_group (y := Base64.pad) (z := Base64.pad) a 0 0 rfl rfl
      (Or.inr ⟨rfl, by omega⟩) (Or.inr ⟨rfl, by omega⟩)
    exact (decodeLoop_group _ out j [] hsextets).trans (by simp [writeWithin, decodeLoop])
  | case3 a b =>
    have hgroup : Base64.group a b 0 = a.toNat * 2 ^ 16 + b.toNat * 2 ^ 8 := by
      simp [Base64.group]
    have hsextets := sextets_group (z := Base64.pad) a b 0 rfl rfl (Or.inl rfl)
      (Or.inr ⟨rfl, by omega⟩)
    refine (decodeLoop_group _ out j [] hsextets).trans ?_
    rw [show [a, b] = [a] ++ [b] from rfl, Memory.write_append]
    simp [writeWithin, decodeLoop]
  | case4 a b c rest ih =>
    have hsextets := sextets_group a b c rfl rfl (Or.inl rfl) (Or.inl rfl)
    refine (decodeLoop_group _ out j (Base64.encode rest) hsextets).trans ?_
    have hlen : j + (a :: b :: c :: rest).length = j + 3 + rest.length := by
      simp only [List.length_cons]
      omega
    have hcopy : out.write j (a :: b :: c :: rest) =
        (((out.write j [a]).write (j + 1) [b]).write (j + 2) [c]).write (j + 3) rest := by
      rw [show a :: b :: c :: rest = [a] ++ ([b] ++ ([c] ++ rest)) from rfl,
        Memory.write_append, Memory.write_append, Memory.write_append]
      rfl
    have hroom : j + 1 < j + 3 + rest.length ∧ j + 2 < j + 3 + rest.length := by omega
    rw [hcopy, ← ih, hlen]
    simp only [writeWithin, if_pos hroom.1, if_pos hroom.2]

/-- The last two characters tell how many octets the last group has. -/
theorem encode_last (xs : List UInt8) :
    ((Base64.encode xs)[(Base64.encode xs).length - 1]? = some Base64.pad ↔
      xs.length % 3 ≠ 0) ∧
    ((Base64.encode xs)[(Base64.encode xs).length - 2]? = some Base64.pad ↔
      xs.length % 3 = 1) := by
  have hmod (n : ℕ) : Base64.digit (n % 64) ≠ Base64.pad :=
    Base64.digit_ne_pad (Nat.mod_lt _ (by omega))
  induction xs using Base64.encode.induct with
  | case1 => simp [Base64.encode]
  | case2 a => simp [Base64.encode, Base64.digits]
  | case3 a b => simpa [Base64.encode, Base64.digits] using hmod _
  | case4 a b c rest ih =>
    have hlen : (a :: b :: c :: rest).length % 3 = rest.length % 3 := by
      simp only [List.length_cons]
      omega
    rcases rest.eq_nil_or_concat with rfl | ⟨front, last, rfl⟩
    · simpa [Base64.encode, Base64.digits] using ⟨hmod _, hmod _⟩
    · have hfour := Base64.encode_length (front ++ [last])
      have hpos : 4 ≤ (Base64.encode (front ++ [last])).length := by
        rw [hfour, List.length_append, List.length_singleton]
        omega
      rw [List.concat_eq_append] at *
      rw [hlen, ← ih.1, ← ih.2, Base64.encode, List.length_append, Base64.digits_length,
        List.getElem?_append_right (by rw [Base64.digits_length]; omega),
        List.getElem?_append_right (by rw [Base64.digits_length]; omega), Base64.digits_length,
        show 4 + (Base64.encode (front ++ [last])).length - 1 - 4 =
          (Base64.encode (front ++ [last])).length - 1 by omega,
        show 4 + (Base64.encode (front ++ [last])).length - 2 - 4 =
          (Base64.encode (front ++ [last])).length - 2 by omega]
      exact ⟨Iff.rfl, Iff.rfl⟩

/-- Decoding the text of an octet string gives the string and its length. -/
theorem base64Decode_encode {alloc : ℕ → Bool} (junk : Memory UInt8) (xs : List UInt8)
    (h : alloc xs.length = true) :
    base64Decode alloc junk (Base64.encode xs) = .ok (junk.write 0 xs, xs.length) := by
  have hlen := Base64.encode_length xs
  obtain ⟨hlast, hbefore⟩ := encode_last xs
  have hfour : ¬ (Base64.encode xs).length % 4 ≠ 0 := by omega
  have hone : (0 < (Base64.encode xs).length ∧
      (Base64.encode xs)[(Base64.encode xs).length - 1]? = some 0x3D) ↔ xs.length % 3 ≠ 0 :=
    (and_congr_right fun _ => hlast).trans ⟨And.right, fun hmod => ⟨by omega, hmod⟩⟩
  have htwo : (1 < (Base64.encode xs).length ∧
      (Base64.encode xs)[(Base64.encode xs).length - 2]? = some 0x3D) ↔ xs.length % 3 = 1 :=
    (and_congr_right fun _ => hbefore).trans ⟨And.right, fun hmod => ⟨by omega, hmod⟩⟩
  have hcases : xs.length % 3 = 0 ∨ xs.length % 3 = 1 ∨ xs.length % 3 = 2 := by omega
  have hsize : (if xs.length % 3 = 1 then
      (if xs.length % 3 ≠ 0 then (Base64.encode xs).length / 4 * 3 - 1
        else (Base64.encode xs).length / 4 * 3) - 1
      else if xs.length % 3 ≠ 0 then (Base64.encode xs).length / 4 * 3 - 1
      else (Base64.encode xs).length / 4 * 3) = xs.length := by
    rcases hcases with hmod | hmod | hmod <;> simp only [hmod] <;> norm_num <;> omega
  have hloop := decodeLoop_encode junk 0 xs
  rw [Nat.zero_add] at hloop
  simp only [base64Decode, if_neg hfour, hone, htwo, hsize, h, if_true, hloop]

end Decoder

/-- What `base64_encode` writes, `base64_decode` reads back with its length, and the static encoder
for Basic authentication writes the same text, both of them with its NUL. -/
theorem base64_round_trip {alloc : ℕ → Bool} (junk junkDecoded junkBasic : Memory UInt8)
    (x : List UInt8) (hencode : alloc (4 * ((x.length + 2) / 3) + 1) = true)
    (hdecode : alloc x.length = true) :
    ∃ out outLen data basic, base64Encode alloc junk x = .ok (out, outLen) ∧
      base64Decode alloc junkDecoded (out.read 0 outLen) = .ok (data, x.length) ∧
      data.read 0 x.length = x ∧
      Http.base64Encode alloc junkBasic x = .ok basic ∧
      basic.read 0 (outLen + 1) = out.read 0 (outLen + 1) ∧
      0 ∉ out.read 0 outLen ∧ out outLen = 0 := by
  obtain ⟨out, hout, htext⟩ := base64Encode_spec junk x hencode
  obtain ⟨basic, hbasic, hbasicText⟩ := base64Encode_spec junkBasic x hencode
  have hread : out.read 0 (4 * ((x.length + 2) / 3)) = Base64.encode x ∧
      [out (4 * ((x.length + 2) / 3))] = [0] := by
    rw [Memory.read_succ, Nat.zero_add] at htext
    exact List.append_inj' htext rfl
  refine ⟨out, _, _, basic, hout, hread.1 ▸ base64Decode_encode junkDecoded x hdecode,
    Memory.read_write_self _ 0 x, ?_, hbasicText.trans htext.symm, ?_,
    List.singleton_inj.mp hread.2⟩
  · rw [http_base64Encode_eq, hbasic]
    rfl
  · rw [hread.1]
    exact Base64.zero_not_mem_encode x

/-- Two octets: one padding character. -/
theorem base64_round_trip_hi :
    ∃ out outLen data basic, base64Encode (fun _ => true) (fun _ => 0) [0x48, 0x69] =
        .ok (out, outLen) ∧
      base64Decode (fun _ => true) (fun _ => 0) (out.read 0 outLen) = .ok (data, 2) ∧
      data.read 0 2 = [0x48, 0x69] ∧
      Http.base64Encode (fun _ => true) (fun _ => 0) [0x48, 0x69] = .ok basic ∧
      basic.read 0 (outLen + 1) = out.read 0 (outLen + 1) ∧
      0 ∉ out.read 0 outLen ∧ out outLen = 0 :=
  base64_round_trip _ _ _ [0x48, 0x69] rfl rfl

end AbstractHttp.Crypto
