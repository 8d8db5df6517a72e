import AbstractHttp.Crypto.Sha1Update
import Mathlib.Data.UInt

/-!
# Streaming

A digest over any cut of a message into inputs.  The promises of the interface
hold exactly for the inputs whose updates end and carry right.
-/
namespace AbstractHttp.Crypto
open Library

section Final

variable {ctx : Sha1Ctx} {bs : List UInt8} {fuel : ℕ}

/-- The bytes of a word as shifts and masks give them. -/
theorem wordBytes_eq (w : UInt32) :
    [((w >>> 24) &&& 255).toUInt8, ((w >>> 16) &&& 255).toUInt8, ((w >>> 8) &&& 255).toUInt8,
      ((w >>> 0) &&& 255).toUInt8] = toBigEndian 4 w.toNat := by
  have hmask (k : ℕ) : k &&& 255 = k % 256 := Nat.and_two_pow_sub_one_eq_mod k 8
  have hbyte (k : UInt32) : ((w >>> k) &&& 255).toUInt8 =
      UInt8.ofNat (w.toNat / 2 ^ (k.toNat % 32)) := by
    apply UInt8.toNat_inj.mp
    simp [UInt32.toNat_toUInt8, Nat.shiftRight_eq_div_pow, hmask]
  simp only [hbyte, toBigEndian, List.nil_append, List.cons_append, Nat.div_div_eq_div_mul,
    UInt32.reduceToNat, Nat.reduceMod, Nat.reducePow, Nat.reduceMul, Nat.div_one]

theorem hashBytes_eq (state : Sha1.Words) :
    (List.range 20).map (hashByte state) = state.toBytes := by
  simp only [Sha1.Words.toBytes, List.flatMap_cons, List.flatMap_nil, ← wordBytes_eq]
  rfl

/-- The eight bytes of the count are the length in bits when the counters hold it. -/
theorem finalCount_eq {n : ℕ}
    (hcount : ctx.count1.toNat * 2 ^ 32 + ctx.count0.toNat = n % 2 ^ 64) :
    (List.range 8).map (finalCountByte ctx) = toBigEndian 8 n := by
  have hlow := ctx.count0.toNat_lt
  have hsplit : n % 256 ^ 8 / 256 ^ 4 = ctx.count1.toNat ∧
      n % 256 ^ 8 % 256 ^ 4 = ctx.count0.toNat := by omega
  calc (List.range 8).map (finalCountByte ctx)
      = toBigEndian 4 ctx.count1.toNat ++ toBigEndian 4 ctx.count0.toNat := by
        rw [← wordBytes_eq, ← wordBytes_eq]
        rfl
    _ = toBigEndian 8 n := by
        rw [← hsplit.1, ← hsplit.2, toBigEndian_mod, ← toBigEndian_add, toBigEndian_mod]

/-- The loop's test looks at the place in the block only. -/
theorem Absorbed.test_iff (h : Absorbed ctx bs) :
    ctx.count0 &&& 504 = 448 ↔ bs.length % 64 = 56 := by
  have hmask : 8 * bs.length % 2 ^ 32 &&& 504 = 8 * (bs.length % 64) := by
    have hbits : 8 * bs.length % 2 ^ 32 = (bs.length % 2 ^ 29) <<< 3 := by
      rw [Nat.shiftLeft_eq]
      omega
    have hlow : bs.length % 2 ^ 29 &&& 63 = bs.length % 2 ^ 29 % 64 :=
      Nat.and_two_pow_sub_one_eq_mod _ 6
    calc 8 * bs.length % 2 ^ 32 &&& 504
        = (bs.length % 2 ^ 29 &&& 63) <<< 3 := by
          rw [hbits, Nat.shiftLeft_and_distrib]
          rfl
      _ = 8 * (bs.length % 64) := by
        rw [hlow, Nat.shiftLeft_eq]
        omega
  have h504 : (504 : UInt32).toNat = 504 := rfl
  have h448 : (448 : UInt32).toNat = 448 := rfl
  rw [← UInt32.toNat_inj, UInt32.toNat_and, h504, h448, h.count0, hmask]
  omega

/-- One byte more is always absorbed. -/
theorem Absorbed.push (h : Absorbed ctx bs) (b : UInt8) (hfuel : 1 < fuel) :
    ∃ ctx', sha1Update fuel ctx (fun _ => b) 1 = some ctx' ∧ Absorbed ctx' (bs ++ [b]) := by
  have hone : (1 : UInt64).toNat = 1 := rfl
  have hmod : bs.length % 64 < 64 := Nat.mod_lt _ (by omega)
  obtain ⟨ctx', hrun, hnext, -⟩ := h.update (fun _ => b) 1 (by omega) (by omega)
    (by omega : (1 : UInt64).toNat < fuel)
  exact ⟨ctx', hrun, hnext⟩

/-- Zeros are put behind the one bit up to the place of the count. -/
theorem pad_returns (h : Absorbed ctx (bs ++ [0x80])) (hfuel : 64 < fuel) :
    ∃ ctx', whileFuel (fun (ctx : Sha1Ctx) => (ctx.count0 &&& 504) ≠ 448)
        (fun ctx => sha1Update fuel ctx (fun _ => 0) 1) fuel ctx = some ctx' ∧
      Absorbed ctx' (bs ++ 0x80 :: List.replicate ((119 - bs.length % 64) % 64) 0) := by
  obtain ⟨ctx', hrun, ⟨k, hk, hpadded⟩, hend⟩ := whileFuel_returns
    (fun (ctx : Sha1Ctx) => decide ((ctx.count0 &&& 504) ≠ 448))
    (fun ctx => sha1Update fuel ctx (fun _ => 0) 1)
    (P := fun ctx => ∃ k ≤ (119 - bs.length % 64) % 64,
      Absorbed ctx (bs ++ 0x80 :: List.replicate k 0))
    (fun ctx => (960 - ctx.count0.toNat % 512) % 512 / 8)
    (fun ctx ⟨k, hk, hpadded⟩ hcond => by
      have hplace : ¬ (bs ++ 0x80 :: List.replicate k 0).length % 64 = 56 := by
        rw [← hpadded.test_iff]
        simpa using hcond
      obtain ⟨ctx', hrun, hnext⟩ := hpadded.push 0 (by omega : 1 < fuel)
      have hzeros : bs ++ 0x80 :: List.replicate k 0 ++ [0] =
          bs ++ 0x80 :: List.replicate (k + 1) 0 := by
        simp [List.replicate_succ']
      rw [hzeros] at hnext
      have hold := hpadded.count0
      have hnew := hnext.count0
      simp only [List.length_append, List.length_cons, List.length_replicate] at hplace hold hnew
      refine ⟨ctx', hrun, ⟨k + 1, by omega, hnext⟩, ?_⟩
      omega) ⟨0, by omega, by simpa using h⟩
    (show (960 - ctx.count0.toNat % 512) % 512 / 8 < fuel by omega)
  have htest : ctx'.count0 &&& 504 = 448 := by simpa using hend
  have hplace := hpadded.test_iff.mp htest
  have hlast : k = (119 - bs.length % 64) % 64 := by
    simp only [List.length_append, List.length_cons, List.length_replicate] at hplace
    omega
  exact ⟨ctx', hrun, hlast ▸ hpadded⟩

/-- `sha1_final` gives the digest of what was absorbed, when the counters hold its length. -/
theorem Absorbed.final (h : Absorbed ctx bs)
    (hcount : ctx.count1.toNat * 2 ^ 32 + ctx.count0.toNat = 8 * bs.length % 2 ^ 64)
    (hfuel : 64 < fuel) : sha1Final fuel ctx = some (Sha1.digest bs) := by
  obtain ⟨ctx1, hrun1, hctx1⟩ := h.push 0x80 (by omega : 1 < fuel)
  obtain ⟨ctx2, hrun2, hctx2⟩ := pad_returns hctx1 hfuel
  have height : (8 : UInt64).toNat = 8 := rfl
  have hread : Memory.read (fun k => ((List.range 8).map (finalCountByte ctx)).getD k 0) 0 8 =
      toBigEndian 8 (8 * bs.length) := by
    rw [← finalCount_eq hcount]
    rfl
  obtain ⟨ctx3, hrun3, hctx3, -⟩ := hctx2.update
    (fun k => ((List.range 8).map (finalCountByte ctx)).getD k 0) 8 (by omega)
    (by have := Nat.mod_lt (bs ++ 0x80 ::
          List.replicate ((119 - bs.length % 64) % 64) 0).length (show 0 < 64 by omega); omega)
    (by omega : (8 : UInt64).toNat < fuel)
  have hmessage : bs ++ 0x80 :: List.replicate ((119 - bs.length % 64) % 64) 0 ++
      toBigEndian 8 (8 * bs.length) = bs ++ Sha1.padding bs.length := by
    simp [Sha1.padding]
  rw [height, hread, hmessage] at hctx3
  rw [sha1Final]
  simp only [hrun1, hrun2, hrun3, Option.bind_eq_bind, Option.bind_some, hashBytes_eq,
    Option.pure_def, Sha1.digest, hctx3.absorbed]

/-- The digest of `abc`, as `sha1_update` and `sha1_final` compute it. -/
example : (sha1Update 65 (sha1Init ⟨Sha1.initial, 0, 0, fun _ => 0⟩)
    (fun k => [0x61, 0x62, 0x63].getD k 0) 3).bind (sha1Final 65) =
    some [0xA9, 0x99, 0x3E, 0x36, 0x47, 0x06, 0x81, 0x6A, 0xBA, 0x3E, 0x25, 0x71, 0x78, 0x50,
      0xC2, 0x6C, 0x9C, 0xD0, 0xD8, 0x9D] := by
  decide +kernel

end Final

section Stream

/-- The arguments of one call of `sha1_update`. -/
structure Input where
  data : Memory UInt8
  len : UInt64

def Input.bytes (input : Input) : List UInt8 := input.data.read 0 input.len.toNat

/-- The calls of `sha1_update` for a list of inputs. -/
def sha1Stream (fuel : ℕ) (ctx : Sha1Ctx) (inputs : List Input) : Option Sha1Ctx :=
  inputs.foldlM (fun ctx input => sha1Update fuel ctx input.data input.len) ctx

/-- The high counter when `spurious` carries have been counted that are none. -/
def Count1 (ctx : Sha1Ctx) (n spurious : ℕ) : Prop :=
  ctx.count1.toNat = (8 * n / 2 ^ 32 + spurious) % 2 ^ 32

/-- Behind `pos` bytes, the index of every update fits 32 bits and every carry is right. -/
def InputsFit (pos : ℕ) : List Input → Prop
  | [] => True
  | input :: inputs => pos % 64 + input.len.toNat < 2 ^ 32 ∧ CarryRight pos input.len.toNat ∧
      InputsFit (pos + input.len.toNat) inputs

/-- What the interface promises of a list of inputs: every call returns, the counters hold the
number of bits, the buffer and the state are those of the message so far, and the digest is the
message's. -/
def Streams (junk : Sha1Ctx) (inputs : List Input) : Prop :=
  let message := inputs.flatMap Input.bytes
  ∃ fuel ctx, sha1Stream fuel (sha1Init junk) inputs = some ctx ∧
    ctx.count1.toNat * 2 ^ 32 + ctx.count0.toNat = 8 * message.length % 2 ^ 64 ∧
    ctx.buffer.read 0 (message.length % 64) =
      message.drop (message.length - message.length % 64) ∧
    ctx.state = (absorb Sha1.compress 64 Sha1.initial message).1 ∧
    sha1Final fuel ctx = some (Sha1.digest message)

variable {ctx ctx' : Sha1Ctx} {bs : List UInt8} {inputs : List Input} {fuel spurious : ℕ}

@[simp] theorem Input.bytes_length (input : Input) : input.bytes.length = input.len.toNat :=
  Memory.read_length _ _ _

@[simp] theorem sha1Stream_singleton (fuel : ℕ) (ctx : Sha1Ctx) (input : Input) :
    sha1Stream fuel ctx [input] = sha1Update fuel ctx input.data input.len :=
  bind_pure _

theorem sha1Stream_mono {fuel' : ℕ} (h : sha1Stream fuel ctx inputs = some ctx')
    (hle : fuel ≤ fuel') : sha1Stream fuel' ctx inputs = some ctx' := by
  induction inputs generalizing ctx with
  | nil => exact h
  | cons input inputs ih =>
    obtain ⟨next, hupdate, hrest⟩ := Option.bind_eq_some_iff.mp h
    exact Option.bind_eq_some_iff.mpr ⟨next, sha1Update_mono hupdate hle, ih hrest⟩

/-- The counters hold the length exactly when no carry was spurious. -/
theorem count_iff (h : Absorbed ctx bs) (hcount : Count1 ctx bs.length spurious)
    (hlen : bs.length < 2 ^ 61) (hspurious : spurious * 2 ^ 29 ≤ bs.length) :
    ctx.count1.toNat * 2 ^ 32 + ctx.count0.toNat = 8 * bs.length % 2 ^ 64 ↔ spurious = 0 := by
  rw [h.count0, hcount]
  omega

theorem append_bytes_length (bs : List UInt8) (input : Input) :
    (bs ++ input.bytes).length = bs.length + input.len.toNat := by
  rw [List.length_append, Input.bytes_length]

/-- One call for an input whose index fits: its bytes are absorbed, and the high counter is further
behind when the carry is wrong. -/
theorem Absorbed.input (h : Absorbed ctx bs) (hcount : Count1 ctx bs.length spurious)
    (input : Input) (hlen : input.len.toNat < 2 ^ 61)
    (hindex : bs.length % 64 + input.len.toNat < 2 ^ 32) (hfuel : input.len.toNat < fuel) :
    ∃ next, sha1Update fuel ctx input.data input.len = some next ∧
      Absorbed next (bs ++ input.bytes) ∧ Count1 next (bs ++ input.bytes).length
        (spurious + if CarryRight bs.length input.len.toNat then 0 else 1) := by
  obtain ⟨next, hrun, hnext, hcount1⟩ := h.update input.data input.len hlen hindex hfuel
  refine ⟨next, hrun, hnext, ?_⟩
  rw [Count1, append_bytes_length, hcount1]
  exact nextCount1_toNat hlen h.count0 hcount

/-- Inputs that fit are absorbed one after the other, and counted right. -/
theorem stream_returns (h : Absorbed ctx bs) (hcount : Count1 ctx bs.length 0)
    (hlen : bs.length + (inputs.flatMap Input.bytes).length < 2 ^ 61)
    (hfit : InputsFit bs.length inputs)
    (hfuel : (inputs.flatMap Input.bytes).length < fuel) :
    ∃ ctx', sha1Stream fuel ctx inputs = some ctx' ∧
      Absorbed ctx' (bs ++ inputs.flatMap Input.bytes) ∧
      Count1 ctx' (bs ++ inputs.flatMap Input.bytes).length 0 := by
  induction inputs generalizing ctx bs with
  | nil => exact ⟨ctx, rfl, by simpa using h, by simpa using hcount⟩
  | cons input inputs ih =>
    obtain ⟨hindex, hcarry, hrest⟩ := hfit
    have hall := append_bytes_length bs input
    rw [List.flatMap_cons, List.length_append, Input.bytes_length] at hlen hfuel
    obtain ⟨next, hrun, hnext, hnextCount⟩ :=
      h.input hcount input (by omega) hindex (show input.len.toNat < fuel by omega)
    rw [if_pos hcarry] at hnextCount
    obtain ⟨ctx', hstream, hlast, hlastCount⟩ := ih hnext hnextCount (by rw [hall]; omega)
      (by rw [hall]; exact hrest) (by omega)
    rw [List.append_assoc] at hlast hlastCount
    exact ⟨ctx', Option.bind_eq_some_iff.mpr ⟨next, hrun, hstream⟩, hlast, hlastCount⟩

/-- The digest of inputs that fit is that of their bytes. -/
theorem stream_digest (junk : Sha1Ctx) (hlen : (inputs.flatMap Input.bytes).length < 2 ^ 61)
    (hfit : InputsFit 0 inputs) (hfuel : (inputs.flatMap Input.bytes).length + 64 < fuel) :
    ∃ ctx, sha1Stream fuel (sha1Init junk) inputs = some ctx ∧
      Absorbed ctx (inputs.flatMap Input.bytes) ∧
      ctx.count1.toNat * 2 ^ 32 + ctx.count0.toNat =
        8 * (inputs.flatMap Input.bytes).length % 2 ^ 64 ∧
      sha1Final fuel ctx = some (Sha1.digest (inputs.flatMap Input.bytes)) := by
  obtain ⟨ctx, hrun, hctx, hcount1⟩ := stream_returns (absorbed_init junk) rfl
    (by simpa using hlen) hfit (show _ < fuel by omega)
  rw [List.nil_append] at hctx hcount1
  have hright := (count_iff hctx hcount1 hlen (by omega)).mpr rfl
  exact ⟨ctx, hrun, hctx, hright, hctx.final hright (by omega)⟩

/-- A stream that returns with the right count was given inputs that fit. -/
theorem inputsFit_of_stream (h : Absorbed ctx bs) (hcount : Count1 ctx bs.length spurious)
    (hspurious : spurious * 2 ^ 29 ≤ bs.length)
    (hlen : bs.length + (inputs.flatMap Input.bytes).length < 2 ^ 61)
    (hfuel : (inputs.flatMap Input.bytes).length < fuel)
    (hrun : sha1Stream fuel ctx inputs = some ctx')
    (hright : ctx'.count1.toNat * 2 ^ 32 + ctx'.count0.toNat =
      8 * (bs ++ inputs.flatMap Input.bytes).length % 2 ^ 64) :
    spurious = 0 ∧ InputsFit bs.length inputs := by
  induction inputs generalizing ctx bs spurious with
  | nil =>
    obtain rfl := Option.some.inj hrun
    rw [List.flatMap_nil, List.append_nil] at hright
    exact ⟨(count_iff h hcount (by simpa using hlen) hspurious).mp hright, trivial⟩
  | cons input inputs ih =>
    rw [List.flatMap_cons, List.length_append, Input.bytes_length] at hlen hfuel
    obtain ⟨next, hupdate, hrest⟩ := Option.bind_eq_some_iff.mp hrun
    have hindex : bs.length % 64 + input.len.toNat < 2 ^ 32 := by
      by_contra hlong
      have hnone := h.update_eq_none input.data input.len fuel (by omega) (by omega)
      exact Option.some_ne_none _ (hupdate.symm.trans hnone)
    have hall := append_bytes_length bs input
    obtain ⟨next', hrun', hnext, hnextCount⟩ :=
      h.input hcount input (by omega) hindex (show input.len.toNat < fuel by omega)
    obtain rfl := Option.some.inj (hrun'.symm.trans hupdate)
    rw [List.flatMap_cons, ← List.append_assoc] at hright
    by_cases hcarry : CarryRight bs.length input.len.toNat
    · rw [if_pos hcarry] at hnextCount
      obtain ⟨hzero, hfit⟩ := ih hnext hnextCount (by rw [hall]; omega) (by rw [hall]; omega)
        (by omega) hrest hright
      rw [hall] at hfit
      exact ⟨hzero, hindex, hcarry, hfit⟩
    · -- A spurious carry takes 2^29 bytes, too many for the counter to come round.
      have hlong : 2 ^ 29 ≤ input.len.toNat := Nat.not_lt.mp (not_or.mp hcarry).1
      have hbound : (spurious + 1) * 2 ^ 29 ≤ (bs ++ input.bytes).length := by
        rw [hall, Nat.add_mul, Nat.one_mul]
        exact Nat.add_le_add hspurious hlong
      rw [if_neg hcarry] at hnextCount
      obtain ⟨hzero, -⟩ := ih hnext hnextCount hbound (by rw [hall]; omega) (by omega) hrest hright
      omega

/-- A list of inputs for which the interface keeps its promises fits. -/
theorem Streams.inputsFit {junk : Sha1Ctx} (h : Streams junk inputs)
    (hlen : (inputs.flatMap Input.bytes).length < 2 ^ 61) : InputsFit 0 inputs := by
  obtain ⟨fuel, ctx, hrun, hright, -, -, -⟩ := h
  have hmore := sha1Stream_mono hrun
    (Nat.le_max_left fuel ((inputs.flatMap Input.bytes).length + 1))
  have hcount : Count1 (sha1Init junk) ([] : List UInt8).length 0 := rfl
  exact (inputsFit_of_stream (absorbed_init junk) hcount (by simp) (by simpa using hlen)
    (by omega) hmore hright).2

/-- The interface keeps its promises of a message below 2^61 bytes exactly when the index of every
update fits 32 bits and every input of 2^29 bytes or more causes a real carry. -/
theorem streams_iff (junk : Sha1Ctx) (inputs : List Input)
    (hlen : (inputs.flatMap Input.bytes).length < 2 ^ 61) :
    Streams junk inputs ↔ InputsFit 0 inputs := by
  constructor
  · intro h
    exact h.inputsFit hlen
  · intro hfit
    obtain ⟨ctx, hrun, hctx, hright, hdigest⟩ := stream_digest junk hlen hfit (Nat.lt_succ_self _)
    refine ⟨_, ctx, hrun, hright, ?_, ?_, hdigest⟩
    · have hrest : (absorb Sha1.compress 64 Sha1.initial _).2 = _ :=
        absorb_snd Sha1.initial (inputs.flatMap Input.bytes)
      rw [← hrest, hctx.absorbed]
    · rw [hctx.absorbed]

/-- Two inputs that fit. -/
theorem streams_ab_c :
    Streams ⟨Sha1.initial, 0, 0, fun _ => 0⟩
      [⟨fun k => [0x61, 0x62].getD k 0, 2⟩, ⟨fun _ => 0x63, 1⟩] :=
  (streams_iff _ _ (by decide)).mpr
    ⟨by decide, by decide, by decide, by decide, trivial⟩

/-- One input of 2^29 bytes: the comparison sees a carry where there is none. -/
theorem not_streams_half_gib :
    ([⟨fun _ => 0, 2 ^ 29⟩].flatMap Input.bytes).length < 2 ^ 61 ∧
      ¬ Streams ⟨Sha1.initial, 0, 0, fun _ => 0⟩ [⟨fun _ => 0, 2 ^ 29⟩] := by
  have hlen : ([⟨fun _ => 0, 2 ^ 29⟩].flatMap Input.bytes).length < 2 ^ 61 := by
    rw [List.flatMap_singleton, Input.bytes_length]
    decide
  refine ⟨hlen, fun h => ?_⟩
  obtain ⟨-, hcarry, -⟩ := h.inputsFit hlen
  exact absurd hcarry (by decide)

end Stream

end AbstractHttp.Crypto
