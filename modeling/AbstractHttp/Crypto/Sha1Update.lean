import AbstractHttp.Crypto.Sha1

/-!
# What one update computes

The transform is the compression of FIPS 180, an update absorbs its bytes as long
as its index does not pass 32 bits, and the count of bits is right as long as its
carry is.
-/
namespace AbstractHttp.Crypto
open Library

section Transform

variable (x y z : UInt32)

theorem or_eq_ch : (x &&& y) ||| (~~~x &&& z) = Sha1.ch x y z := by
  apply UInt32.toBitVec_inj.mp
  apply BitVec.eq_of_getLsbD_eq
  intro i hi
  simp only [Sha1.ch, UInt32.toBitVec_or, UInt32.toBitVec_and, UInt32.toBitVec_not,
    UInt32.toBitVec_xor, BitVec.getLsbD_or, BitVec.getLsbD_and, BitVec.getLsbD_not,
    BitVec.getLsbD_xor]
  cases x.toBitVec.getLsbD i <;> simp

theorem or_eq_maj : (x &&& y) ||| (x &&& z) ||| (y &&& z) = Sha1.maj x y z := by
  apply UInt32.toBitVec_inj.mp
  apply BitVec.eq_of_getLsbD_eq
  intro i hi
  simp only [Sha1.maj, UInt32.toBitVec_or, UInt32.toBitVec_and, UInt32.toBitVec_xor,
    BitVec.getLsbD_or, BitVec.getLsbD_and, BitVec.getLsbD_xor]
  cases x.toBitVec.getLsbD i <;> cases y.toBitVec.getLsbD i <;>
    cases z.toBitVec.getLsbD i <;> rfl

/-- A turn of the last loop is a round. -/
theorem roundStep_eq (w : List UInt32) (v : Sha1.Words) (i : ℕ) :
    roundStep w v i = Sha1.round i (w.getD i 0) v := by
  unfold roundStep Sha1.round Sha1.logical Sha1.constant
  split_ifs <;> simp only [or_eq_ch, or_eq_maj] <;> rfl

/-- Four bytes put together are the number that they write. -/
theorem bytes_or_toNat (a b c d : UInt8) :
    ((a.toUInt32 <<< 24) ||| (b.toUInt32 <<< 16) ||| (c.toUInt32 <<< 8) ||| d.toUInt32).toNat =
      ofBigEndian [a, b, c, d] := by
  have ha := a.toNat_lt
  have hb := b.toNat_lt
  have hc := c.toNat_lt
  have hd := d.toNat_lt
  have hshift (x : UInt8) {k : ℕ} (hk : k ≤ 24) :
      x.toNat <<< k % 2 ^ 32 = x.toNat <<< k := by
    have hx := x.toNat_lt
    have hpow : 2 ^ k ≤ 2 ^ 24 := Nat.pow_le_pow_right (by omega) hk
    apply Nat.mod_eq_of_lt
    rw [Nat.shiftLeft_eq]
    nlinarith
  have hlow : c.toNat <<< 8 ||| d.toNat = c.toNat * 2 ^ 8 + d.toNat := shiftLeft_or (by omega)
  have hmid : b.toNat <<< 16 ||| (c.toNat * 2 ^ 8 + d.toNat) =
      b.toNat * 2 ^ 16 + (c.toNat * 2 ^ 8 + d.toNat) := shiftLeft_or (by omega)
  have hhigh : a.toNat <<< 24 ||| (b.toNat * 2 ^ 16 + (c.toNat * 2 ^ 8 + d.toNat)) =
      a.toNat * 2 ^ 24 + (b.toNat * 2 ^ 16 + (c.toNat * 2 ^ 8 + d.toNat)) :=
    shiftLeft_or (by omega)
  simp only [UInt32.toNat_or, UInt32.toNat_shiftLeft, UInt8.toNat_toUInt32, UInt32.reduceToNat,
    Nat.reduceMod, hshift _ (le_refl 24), hshift _ (show 16 ≤ 24 by omega),
    hshift _ (show 8 ≤ 24 by omega), Nat.or_assoc, hlow, hmid, hhigh]
  simp only [ofBigEndian, List.foldl_cons, List.foldl_nil]
  omega

theorem blockWord_eq (buffer : Memory UInt8) {i : ℕ} (h : i < 16) :
    blockWord buffer i = Sha1.word (buffer.read 0 64) i := by
  have hfour : ((buffer.read 0 64).drop (4 * i)).take 4 =
      [buffer (i * 4), buffer (i * 4 + 1), buffer (i * 4 + 2), buffer (i * 4 + 3)] := by
    rw [Memory.read_drop, Memory.read_take _ _ (by omega), Nat.zero_add, Nat.mul_comm]
    rfl
  apply UInt32.toNat_inj.mp
  have hlt : ofBigEndian [buffer (i * 4), buffer (i * 4 + 1), buffer (i * 4 + 2),
      buffer (i * 4 + 3)] < 2 ^ 32 := lt_of_lt_of_le (ofBigEndian_lt _) (by norm_num)
  rw [blockWord, bytes_or_toNat, Sha1.word, hfour, UInt32.toNat_ofNat_of_lt' hlt]

/-- The array holds the message schedule. -/
theorem scheduleWords_eq (buffer : Memory UInt8) (n : ℕ) :
    scheduleWords buffer n = (List.range n).map (Sha1.schedule (buffer.read 0 64)) := by
  induction n with
  | zero => rfl
  | succ n ih =>
    have hword (k : ℕ) (hk : k < n) : (scheduleWords buffer n).getD k 0 =
        Sha1.schedule (buffer.read 0 64) k := by
      rw [ih, List.getD_eq_getElem?_getD, List.getElem?_map, List.getElem?_range hk]
      rfl
    rw [List.range_succ, List.map_append, ← ih, List.map_singleton, scheduleWords,
      Sha1.schedule]
    split_ifs with hlt
    · rw [blockWord_eq buffer hlt]
    · rw [hword _ (by omega), hword _ (by omega), hword _ (by omega), hword _ (by omega)]
      rfl

/-- `math_sha1_transform` is the compression of the 64 bytes that it is given. -/
theorem mathSha1Transform_eq (state : Sha1.Words) (buffer : Memory UInt8) :
    mathSha1Transform state buffer = Sha1.compress state (buffer.read 0 64) := by
  have hrounds (n : ℕ) (hn : n ≤ 80) :
      (List.range n).foldl (roundStep (scheduleWords buffer 80)) state =
        Sha1.rounds (buffer.read 0 64) state n := by
    induction n with
    | zero => rfl
    | succ n ih =>
      have hword : (scheduleWords buffer 80).getD n 0 = Sha1.schedule (buffer.read 0 64) n := by
        rw [scheduleWords_eq, List.getD_eq_getElem?_getD, List.getElem?_map,
          List.getElem?_range (by omega)]
        rfl
      rw [List.range_succ, List.foldl_append, ih (by omega), List.foldl_cons, List.foldl_nil,
        roundStep_eq, hword, Sha1.rounds]
  rw [mathSha1Transform, hrounds 80 le_rfl]
  rfl

end Transform

section Blocks

variable {data : Memory UInt8} {len : UInt64} {j n : ℕ} {goal : Sha1.Words × List UInt8}
  {s : UInt32 × Sha1.Words}

theorem add_63_toNat (i : UInt32) : ((i + 63).toUInt64).toNat = (i.toNat + 63) % 2 ^ 32 := by
  rw [UInt32.toNat_toUInt64, UInt32.toNat_add]
  rfl

theorem add_64_toNat (i : UInt32) : (i + 64).toNat = (i.toNat + 64) % 2 ^ 32 := by
  rw [UInt32.toNat_add]
  rfl

/-- The loop's invariant: the index stands at a block of the stream, of which `j` bytes came before
the `n` bytes of input, and what lies behind it is still to be absorbed. -/
structure AtBlock (data : Memory UInt8) (n j : ℕ) (goal : Sha1.Words × List UInt8)
    (s : UInt32 × Sha1.Words) : Prop where
  le : s.1.toNat ≤ n
  aligned : (s.1.toNat + j) % 64 = 0
  absorbed : absorb Sha1.compress 64 s.2 (data.read s.1.toNat (n - s.1.toNat)) = goal

/-- One turn absorbs one block, and its index does not wrap. -/
theorem AtBlock.step (h : AtBlock data n j goal s) (hfits : j + n < 2 ^ 32)
    (hcond : (s.1.toNat + 63) % 2 ^ 32 < n) :
    AtBlock data n j goal
      (s.1 + 64, mathSha1Transform s.2 fun k => data (s.1.toNat + k)) ∧
      (s.1 + 64).toNat = s.1.toNat + 64 := by
  obtain ⟨hle, halign, habsorb⟩ := h
  have hlt := s.1.toNat_lt
  have hnext : (s.1 + 64).toNat = s.1.toNat + 64 := by
    rw [add_64_toNat]
    omega
  have hblock : Memory.read (fun k => data (s.1.toNat + k)) 0 64 =
      data.read s.1.toNat 64 := Memory.read_congr fun k _ => by rw [Nat.zero_add]
  have hcut : data.read s.1.toNat (n - s.1.toNat) =
      data.read s.1.toNat 64 ++ data.read (s.1.toNat + 64) (n - (s.1.toNat + 64)) := by
    rw [← Memory.read_add]
    congr 1
    omega
  rw [hcut, absorb_block_append (Memory.read_length _ _ _), ← hblock,
    ← mathSha1Transform_eq] at habsorb
  refine ⟨⟨?_, ?_, ?_⟩, hnext⟩ <;> simp only [hnext]
  · omega
  · omega
  · exact habsorb

/-- As long as its index fits 32 bits, the loop ends with less than a block left. -/
theorem updateBlocks_returns {fuel : ℕ} {i : UInt32} {state : Sha1.Words}
    (hfits : j + len.toNat < 2 ^ 32) (h : AtBlock data len.toNat j goal (i, state))
    (hfuel : len.toNat < fuel) :
    ∃ i' state', updateBlocks fuel data len i state = some (i', state') ∧
      i'.toNat ≤ len.toNat ∧
      goal = (state', data.read i'.toNat (len.toNat - i'.toNat)) := by
  obtain ⟨⟨i', state'⟩, hrun, hat, hend⟩ := whileFuel_returns
    (fun (s : UInt32 × Sha1.Words) => decide ((s.1 + 63).toUInt64 < len))
    (fun s => some (s.1 + 64, mathSha1Transform s.2 fun k => data (s.1.toNat + k)))
    (P := AtBlock data len.toNat j goal) (fun s => len.toNat - s.1.toNat)
    (fun s hs hcond => by
      have hlt : (s.1.toNat + 63) % 2 ^ 32 < len.toNat := by
        simpa [UInt64.lt_iff_toNat_lt, add_63_toNat] using hcond
      obtain ⟨hnext, hindex⟩ := hs.step hfits hlt
      have hle := hnext.le
      simp only [hindex] at hle ⊢
      exact ⟨_, rfl, hnext, by simp only [hindex]; omega⟩)
    h (show len.toNat - i.toNat < fuel by omega)
  obtain ⟨hle, halign, habsorb⟩ := hat
  have hstop : ¬ (i'.toNat + 63) % 2 ^ 32 < len.toNat := by
    simpa [UInt64.lt_iff_toNat_lt, add_63_toNat] using hend
  have hlt := i'.toNat_lt
  refine ⟨i', state', hrun, hle, ?_⟩
  rw [← habsorb, absorb_of_lt]
  rw [Memory.read_length]
  simp only at halign hle ⊢
  omega

/-- When the index passes 32 bits, the loop does not end: it comes back to the blocks that it has
seen. -/
theorem updateBlocks_eq_none {i : UInt32} (state : Sha1.Words) (fuel : ℕ) (hj : j < 64)
    (hlong : 2 ^ 32 ≤ j + len.toNat) (halign : (i.toNat + j) % 64 = 0) :
    updateBlocks fuel data len i state = none := by
  apply whileFuel_eq_none (P := fun s : UInt32 × Sha1.Words => (s.1.toNat + j) % 64 = 0)
  · intro s hs
    simp only [decide_eq_true_eq, UInt64.lt_iff_toNat_lt, add_63_toNat]
    omega
  · intro s t hs hnext
    obtain rfl := Option.some.inj hnext
    simp only [add_64_toNat]
    omega
  · exact halign

end Blocks

section Update

variable {ctx ctx' : Sha1Ctx} {bs : List UInt8} {data : Memory UInt8} {len : UInt64} {fuel : ℕ}

/-- What a context says of the bytes that it has been given, its high counter left aside. -/
structure Absorbed (ctx : Sha1Ctx) (bs : List UInt8) : Prop where
  count0 : ctx.count0.toNat = 8 * bs.length % 2 ^ 32
  absorbed : absorb Sha1.compress 64 Sha1.initial bs =
    (ctx.state, ctx.buffer.read 0 (bs.length % 64))

/-- The high counter that an update leaves. -/
def nextCount1 (count0 count1 : UInt32) (len : UInt64) : UInt32 :=
  (if (count0 + (len <<< 3).toUInt32).toUInt64 < len <<< 3 then count1 + 1 else count1) +
    (len >>> 29).toUInt32

theorem absorbed_init (junk : Sha1Ctx) : Absorbed (sha1Init junk) [] where
  count0 := rfl
  absorbed := absorb_nil

/-- The index into the buffer is the number of bytes that wait in it. -/
theorem Absorbed.index (h : Absorbed ctx bs) :
    ((ctx.count0 >>> 3) &&& 63).toNat = bs.length % 64 := by
  have hmask (k : ℕ) : k &&& 63 = k % 64 := Nat.and_two_pow_sub_one_eq_mod k 6
  simp only [UInt32.toNat_and, UInt32.toNat_shiftRight, UInt32.reduceToNat, Nat.reduceMod, hmask,
    Nat.shiftRight_eq_div_pow, h.count0]
  omega

theorem bits_toNat (hlen : len.toNat < 2 ^ 61) : (len <<< 3).toNat = 8 * len.toNat := by
  simp only [UInt64.toNat_shiftLeft, UInt64.reduceToNat, Nat.reduceMod, Nat.shiftLeft_eq]
  omega

/-- The low counter goes on modulo its width. -/
theorem Absorbed.next_count0 (h : Absorbed ctx bs) (hlen : len.toNat < 2 ^ 61) :
    (ctx.count0 + (len <<< 3).toUInt32).toNat = 8 * (bs.length + len.toNat) % 2 ^ 32 := by
  rw [UInt32.toNat_add, UInt64.toNat_toUInt32, bits_toNat hlen, h.count0]
  omega

/-- Whether the input fills the block that waits in the buffer. -/
theorem Absorbed.fills_iff (h : Absorbed ctx bs) (hlen : len.toNat < 2 ^ 61) :
    ((ctx.count0 >>> 3) &&& 63).toUInt64 + len > 63 ↔ 64 ≤ bs.length % 64 + len.toNat := by
  have hmod : bs.length % 64 < 64 := Nat.mod_lt _ (by omega)
  rw [gt_iff_lt, UInt64.lt_iff_toNat_lt, UInt64.toNat_add, UInt32.toNat_toUInt64, h.index,
    Nat.mod_eq_of_lt (by omega)]
  rfl

theorem read_buffer_extend (buffer data : Memory UInt8) (j n : ℕ) :
    (buffer.write j (data.read 0 n)).read 0 (j + n) = buffer.read 0 j ++ data.read 0 n := by
  have hextend := Memory.read_write_extend buffer j (data.read 0 n)
  rwa [Memory.read_length] at hextend

theorem sub_index_toNat {j : UInt32} (h : j.toNat < 64) : (64 - j).toNat = 64 - j.toNat := by
  have h64 : (64 : UInt32).toNat = 64 := rfl
  rw [UInt32.toNat_sub, h64]
  omega

/-- Where the loop starts, the waiting bytes have made up a block with the front of the input. -/
theorem Absorbed.atBlock (h : Absorbed ctx bs) (data : Memory UInt8)
    (hfill : 64 ≤ bs.length % 64 + len.toNat) :
    AtBlock data len.toNat (bs.length % 64)
      (absorb Sha1.compress 64 Sha1.initial (bs ++ data.read 0 len.toNat))
      ((64 : UInt32) - ((ctx.count0 >>> 3) &&& 63), mathSha1Transform ctx.state
        (ctx.buffer.write ((ctx.count0 >>> 3) &&& 63).toNat
          (data.read 0 ((64 : UInt32) - ((ctx.count0 >>> 3) &&& 63)).toNat))) := by
  have hmod : bs.length % 64 < 64 := Nat.mod_lt _ (by omega)
  have hindex : ((64 : UInt32) - ((ctx.count0 >>> 3) &&& 63)).toNat = 64 - bs.length % 64 := by
    rw [sub_index_toNat (by rw [h.index]; exact hmod), h.index]
  have hblock : (ctx.buffer.write (bs.length % 64) (data.read 0 (64 - bs.length % 64))).read 0 64 =
      ctx.buffer.read 0 (bs.length % 64) ++ data.read 0 (64 - bs.length % 64) := by
    rw [← read_buffer_extend]
    congr 1
    omega
  have hcut : data.read 0 len.toNat = data.read 0 (64 - bs.length % 64) ++
      data.read (64 - bs.length % 64) (len.toNat - (64 - bs.length % 64)) := by
    have hsplit := Memory.read_cut data 0 (show 64 - bs.length % 64 ≤ len.toNat by omega)
    rw [Nat.zero_add] at hsplit
    exact hsplit.symm
  refine ⟨?_, ?_, ?_⟩ <;> simp only [hindex]
  · omega
  · omega
  · rw [absorb_append, h.absorbed, hcut, ← List.append_assoc, ← hblock,
      absorb_block_append (Memory.read_length _ _ _), mathSha1Transform_eq, h.index]

/-- An update whose index fits 32 bits absorbs its input. -/
theorem Absorbed.update (h : Absorbed ctx bs) (data : Memory UInt8) (len : UInt64)
    (hlen : len.toNat < 2 ^ 61)
    (hfits : bs.length % 64 + len.toNat < 2 ^ 32) (hfuel : len.toNat < fuel) :
    ∃ ctx', sha1Update fuel ctx data len = some ctx' ∧
      Absorbed ctx' (bs ++ data.read 0 len.toNat) ∧
      ctx'.count1 = nextCount1 ctx.count0 ctx.count1 len := by
  have hcount := h.next_count0 hlen
  have hfull : (bs ++ data.read 0 len.toNat).length = bs.length + len.toNat := by
    rw [List.length_append, Memory.read_length]
  by_cases hfill : 64 ≤ bs.length % 64 + len.toNat
  · obtain ⟨i', state', hloop, hle, hgoal⟩ :=
      updateBlocks_returns hfits (h.atBlock data hfill) hfuel
    have hrest : (len - i'.toUInt64).toNat = len.toNat - i'.toNat := by
      rw [UInt64.toNat_sub_of_le]
      · rw [UInt32.toNat_toUInt64]
      · rw [UInt64.le_iff_toNat_le, UInt32.toNat_toUInt64]
        exact hle
    have hleft : len.toNat - i'.toNat = (bs.length + len.toNat) % 64 := by
      have hlength : (absorb Sha1.compress 64 Sha1.initial
          (bs ++ data.read 0 len.toNat)).2.length = _ := absorb_snd_length _ _
      rw [hgoal, hfull] at hlength
      simpa using hlength
    refine ⟨_, by
      rw [sha1Update, if_pos ((h.fills_iff hlen).mpr hfill)]
      dsimp only
      rw [hloop], ⟨?_, ?_⟩, rfl⟩
    · rw [hfull]
      exact hcount
    · have hself (m : Memory UInt8) := Memory.read_write_self m 0
        (data.read i'.toNat (len.toNat - i'.toNat))
      rw [hgoal, hfull, hrest, ← hleft]
      simpa using (hself _).symm
  · have hmod : (bs.length + len.toNat) % 64 = bs.length % 64 + len.toNat := by omega
    refine ⟨_, by rw [sha1Update, if_neg (mt (h.fills_iff hlen).mp hfill)], ⟨?_, ?_⟩, rfl⟩
    · rw [hfull]
      exact hcount
    · rw [absorb_append, h.absorbed, absorb_of_lt, hfull, hmod, h.index, read_buffer_extend]
      rw [List.length_append, Memory.read_length, Memory.read_length]
      omega

theorem sha1Update_mono {fuel' : ℕ} (h : sha1Update fuel ctx data len = some ctx')
    (hle : fuel ≤ fuel') : sha1Update fuel' ctx data len = some ctx' := by
  rw [sha1Update] at h ⊢
  split
  · rename_i hfill
    rw [if_pos hfill] at h
    dsimp only at h ⊢
    split at h
    · cases h
    · rename_i i state hloop
      rw [updateBlocks, whileFuel_mono hloop hle]
      exact h
  · rename_i hfill
    rwa [if_neg hfill] at h

/-- An update whose index passes 32 bits does not end. -/
theorem Absorbed.update_eq_none (h : Absorbed ctx bs) (data : Memory UInt8) (len : UInt64)
    (fuel : ℕ) (hlen : len.toNat < 2 ^ 61)
    (hlong : 2 ^ 32 ≤ bs.length % 64 + len.toNat) : sha1Update fuel ctx data len = none := by
  have hmod : bs.length % 64 < 64 := Nat.mod_lt _ (by omega)
  have halign := (h.atBlock data (show 64 ≤ bs.length % 64 + len.toNat by omega)).aligned
  rw [sha1Update, if_pos ((h.fills_iff hlen).mpr (by omega))]
  dsimp only
  rw [updateBlocks_eq_none _ fuel hmod hlong halign]

/-- The carry of an update of `n` bytes behind `pos` others is the one that the bits call for. -/
def CarryRight (pos n : ℕ) : Prop := n < 2 ^ 29 ∨ 2 ^ 29 ≤ pos % 2 ^ 29 + n % 2 ^ 29

instance (pos n : ℕ) : Decidable (CarryRight pos n) := inferInstanceAs (Decidable (_ ∨ _))

/-- The comparison that tests for the carry is with all bits of the length, not with those that
were added. -/
theorem carry_iff {count0 : UInt32} {pos : ℕ} (hlen : len.toNat < 2 ^ 61)
    (hcount : count0.toNat = 8 * pos % 2 ^ 32) :
    (count0 + (len <<< 3).toUInt32).toUInt64 < len <<< 3 ↔
      2 ^ 29 ≤ len.toNat ∨ 2 ^ 29 ≤ pos % 2 ^ 29 + len.toNat % 2 ^ 29 := by
  rw [UInt64.lt_iff_toNat_lt, UInt32.toNat_toUInt64, UInt32.toNat_add, UInt64.toNat_toUInt32,
    bits_toNat hlen, hcount]
  omega

/-- The high counter is behind a wrong carry for good. -/
theorem nextCount1_toNat {count0 count1 : UInt32} {pos spurious : ℕ} (hlen : len.toNat < 2 ^ 61)
    (hcount0 : count0.toNat = 8 * pos % 2 ^ 32)
    (hcount1 : count1.toNat = (8 * pos / 2 ^ 32 + spurious) % 2 ^ 32) :
    (nextCount1 count0 count1 len).toNat = (8 * (pos + len.toNat) / 2 ^ 32 +
      (spurious + if CarryRight pos len.toNat then 0 else 1)) % 2 ^ 32 := by
  have hhigh : (len >>> 29).toUInt32.toNat = len.toNat / 2 ^ 29 % 2 ^ 32 := by
    simp only [UInt64.toNat_toUInt32, UInt64.toNat_shiftRight, UInt64.reduceToNat, Nat.reduceMod,
      Nat.shiftRight_eq_div_pow]
  have hone : (count1 + 1).toNat = (count1.toNat + 1) % 2 ^ 32 := UInt32.toNat_add count1 1
  have hdiv (m : ℕ) : 8 * m / 2 ^ 32 = m / 2 ^ 29 := by omega
  have hsum : (pos + len.toNat) / 2 ^ 29 = pos / 2 ^ 29 + len.toNat / 2 ^ 29 +
      if 2 ^ 29 ≤ pos % 2 ^ 29 + len.toNat % 2 ^ 29 then 1 else 0 := by
    split_ifs <;> omega
  have hsmall : len.toNat < 2 ^ 29 ↔ ¬ 2 ^ 29 ≤ len.toNat := Nat.not_le.symm
  rw [hdiv] at hcount1
  rw [nextCount1, UInt32.toNat_add, hhigh, hdiv, hsum]
  simp only [carry_iff hlen hcount0, CarryRight, hsmall]
  generalize pos / 2 ^ 29 = high at *
  generalize len.toNat / 2 ^ 29 = added at *
  split_ifs <;> simp only [hone, hcount1, Nat.add_mod_mod, Nat.mod_add_mod] <;> omega

end Update

end AbstractHttp.Crypto
