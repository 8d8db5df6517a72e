import AbstractHttp.Library.BlockHash
import AbstractHttp.Library.Bytes

/-!
# The secure hash algorithm SHA-1

The digest of FIPS 180 in its own terms: the functions of the rounds, the message
schedule, the compression of one block, and the padding of a message.
-/
namespace AbstractHttp.Library.Sha1

/-- The five words of the hash value, and of the working variables. -/
structure Words where
  a : UInt32
  b : UInt32
  c : UInt32
  d : UInt32
  e : UInt32
  deriving DecidableEq, Repr

/-- The initial hash value. -/
def initial : Words := ⟨0x67452301, 0xEFCDAB89, 0x98BADCFE, 0x10325476, 0xC3D2E1F0⟩

/-- Rotation to the left by `n` places. -/
def rotl (n x : UInt32) : UInt32 := (x <<< n) ||| (x >>> (32 - n))

def ch (x y z : UInt32) : UInt32 := (x &&& y) ^^^ (~~~x &&& z)
def parity (x y z : UInt32) : UInt32 := x ^^^ y ^^^ z
def maj (x y z : UInt32) : UInt32 := (x &&& y) ^^^ (x &&& z) ^^^ (y &&& z)

/-- The function of round `t`. -/
def logical (t : ℕ) : UInt32 → UInt32 → UInt32 → UInt32 :=
  if t < 20 then ch else if t < 40 then parity else if t < 60 then maj else parity

/-- The constant of round `t`. -/
def constant (t : ℕ) : UInt32 :=
  if t < 20 then 0x5A827999 else if t < 40 then 0x6ED9EBA1
  else if t < 60 then 0x8F1BBCDC else 0xCA62C1D6

/-- Word `t` of a block, its bytes most significant first. -/
def word (block : List UInt8) (t : ℕ) : UInt32 :=
  UInt32.ofNat (ofBigEndian ((block.drop (4 * t)).take 4))

/-- The message schedule. -/
def schedule (block : List UInt8) (t : ℕ) : UInt32 :=
  if t < 16 then word block t
  else rotl 1 (schedule block (t - 3) ^^^ schedule block (t - 8) ^^^ schedule block (t - 14) ^^^
    schedule block (t - 16))

/-- Round `t` with word `w` of the schedule. -/
def round (t : ℕ) (w : UInt32) (v : Words) : Words :=
  ⟨rotl 5 v.a + logical t v.b v.c v.d + v.e + constant t + w, v.a, rotl 30 v.b, v.c, v.d⟩

/-- The working variables after the first `n` rounds. -/
def rounds (block : List UInt8) (v : Words) : ℕ → Words
  | 0 => v
  | n + 1 => round n (schedule block n) (rounds block v n)

/-- The hash value after one more block of 64 bytes. -/
def compress (h : Words) (block : List UInt8) : Words :=
  let v := rounds block h 80
  ⟨h.a + v.a, h.b + v.b, h.c + v.c, h.d + v.d, h.e + v.e⟩

/-- What follows a message of `l` bytes: a one bit, zeros, and the length in bits. -/
def padding (l : ℕ) : List UInt8 :=
  0x80 :: (List.replicate ((119 - l % 64) % 64) 0 ++ toBigEndian 8 (8 * l))

/-- The bytes of a hash value. -/
def Words.toBytes (v : Words) : List UInt8 :=
  [v.a, v.b, v.c, v.d, v.e].flatMap fun w => toBigEndian 4 w.toNat

instance blockSize_neZero : NeZero 64 := ⟨by decide⟩

/-- The digest of a message. -/
def digest (message : List UInt8) : List UInt8 :=
  (absorb compress 64 initial (message ++ padding message.length)).1.toBytes

@[simp] theorem toBytes_length (v : Words) : v.toBytes.length = 20 := by
  simp [Words.toBytes]

@[simp] theorem digest_length (message : List UInt8) : (digest message).length = 20 := by
  rw [digest, toBytes_length]

end AbstractHttp.Library.Sha1
