import AbstractHttp.Library.Sha1
import AbstractHttp.Library.While

/-!
# SHA-1 in the sources

`math_sha1_transform` and the context that `sha1_init`, `sha1_update` and
`sha1_final` work on, with the 32-bit counters and indices and the 64-bit
lengths that the C code mixes.
-/
namespace AbstractHttp.Crypto
open Library

/-- `SHA1_ROTL`. -/
def sha1Rotl (bits word : UInt32) : UInt32 := (word <<< bits) ||| (word >>> (32 - bits))

/-- One turn of the first loop of `math_sha1_transform`. -/
def blockWord (buffer : Memory UInt8) (i : ℕ) : UInt32 :=
  ((buffer (i * 4)).toUInt32 <<< 24) ||| ((buffer (i * 4 + 1)).toUInt32 <<< 16) |||
    ((buffer (i * 4 + 2)).toUInt32 <<< 8) ||| (buffer (i * 4 + 3)).toUInt32

/-- The array `w` as far as the two loops have filled it. -/
def scheduleWords (buffer : Memory UInt8) : ℕ → List UInt32
  | 0 => []
  | i + 1 =>
    let w := scheduleWords buffer i
    if i < 16 then w ++ [blockWord buffer i]
    else w ++ [sha1Rotl 1 (w.getD (i - 3) 0 ^^^ w.getD (i - 8) 0 ^^^ w.getD (i - 14) 0 ^^^
      w.getD (i - 16) 0)]

/-- One turn of the last loop of `math_sha1_transform`. -/
def roundStep (w : List UInt32) (v : Sha1.Words) (i : ℕ) : Sha1.Words :=
  let (f, k) : UInt32 × UInt32 :=
    if i < 20 then ((v.b &&& v.c) ||| (~~~v.b &&& v.d), 0x5A827999)
    else if i < 40 then (v.b ^^^ v.c ^^^ v.d, 0x6ED9EBA1)
    else if i < 60 then ((v.b &&& v.c) ||| (v.b &&& v.d) ||| (v.c &&& v.d), 0x8F1BBCDC)
    else (v.b ^^^ v.c ^^^ v.d, 0xCA62C1D6)
  let temp := sha1Rotl 5 v.a + f + v.e + k + w.getD i 0
  { a := temp, b := v.a, c := sha1Rotl 30 v.b, d := v.c, e := v.d }

/-- `math_sha1_transform`. -/
def mathSha1Transform (state : Sha1.Words) (buffer : Memory UInt8) : Sha1.Words :=
  let v := (List.range 80).foldl (roundStep (scheduleWords buffer 80)) state
  { a := state.a + v.a, b := state.b + v.b, c := state.c + v.c, d := state.d + v.d,
    e := state.e + v.e }

/-- `struct sha1_ctx`. -/
structure Sha1Ctx where
  state : Sha1.Words
  count0 : UInt32
  count1 : UInt32
  buffer : Memory UInt8

/-- `sha1_init` of a context that holds anything. -/
def sha1Init (ctx : Sha1Ctx) : Sha1Ctx :=
  { ctx with
    count0 := 0
    count1 := 0
    state := ⟨0x67452301, 0xEFCDAB89, 0x98BADCFE, 0x10325476, 0xC3D2E1F0⟩ }

/-- The loop of `sha1_update` over whole blocks of the input, with its index in 32 bits. -/
def updateBlocks (fuel : ℕ) (data : Memory UInt8) (len : UInt64) (i : UInt32)
    (state : Sha1.Words) : Option (UInt32 × Sha1.Words) :=
  whileFuel (fun (i, _) => (i + 63).toUInt64 < len)
    (fun (i, state) => some (i + 64, mathSha1Transform state fun k => data (i.toNat + k)))
    fuel (i, state)

/-- `sha1_update` with `len` bytes from `data` on; `none` when its loop does not end. -/
def sha1Update (fuel : ℕ) (ctx : Sha1Ctx) (data : Memory UInt8) (len : UInt64) :
    Option Sha1Ctx :=
  let j : UInt32 := (ctx.count0 >>> 3) &&& 63
  let count0 := ctx.count0 + (len <<< 3).toUInt32
  let count1 := if count0.toUInt64 < len <<< 3 then ctx.count1 + 1 else ctx.count1
  let count1 := count1 + (len >>> 29).toUInt32
  if j.toUInt64 + len > 63 then
    let i := 64 - j
    let buffer := ctx.buffer.write j.toNat (data.read 0 i.toNat)
    match updateBlocks fuel data len i (mathSha1Transform ctx.state buffer) with
    | none => none
    | some (i, state) =>
      let rest := data.read i.toNat (len - i.toUInt64).toNat
      some { state, count0, count1, buffer := buffer.write 0 rest }
  else
    some { ctx with count0, count1, buffer := ctx.buffer.write j.toNat (data.read 0 len.toNat) }

/-- `finalcount` byte `i`. -/
def finalCountByte (ctx : Sha1Ctx) (i : ℕ) : UInt8 :=
  (((if i ≥ 4 then ctx.count0 else ctx.count1) >>> UInt32.ofNat ((3 - i % 4) * 8)) &&& 255).toUInt8

/-- `out_hash` byte `i`. -/
def hashByte (state : Sha1.Words) (i : ℕ) : UInt8 :=
  (([state.a, state.b, state.c, state.d, state.e].getD (i / 4) 0 >>>
    UInt32.ofNat ((3 - i % 4) * 8)) &&& 255).toUInt8

/-- `sha1_final` up to the `memset` of the context: the bytes of `out_hash`. -/
def sha1Final (fuel : ℕ) (ctx : Sha1Ctx) : Option (List UInt8) := do
  let finalcount := (List.range 8).map (finalCountByte ctx)
  let ctx ← sha1Update fuel ctx (fun _ => 0x80) 1
  let ctx ← whileFuel (fun ctx => (ctx.count0 &&& 504) ≠ 448)
    (fun ctx => sha1Update fuel ctx (fun _ => 0) 1) fuel ctx
  let ctx ← sha1Update fuel ctx (fun k => finalcount.getD k 0) 8
  return (List.range 20).map (hashByte ctx.state)

end AbstractHttp.Crypto
