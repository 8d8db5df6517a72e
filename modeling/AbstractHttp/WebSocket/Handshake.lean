import AbstractHttp.Crypto.Base64
import AbstractHttp.Crypto.Sha1Streaming
import AbstractHttp.Http.Types

/-!
# The opening handshake

`ws_sign_key` and `ws_verify_accept`, over the digest and the encoder of the crypto
utilities.  `c89stringutils_strcpy_s` comes from another library: all that is used
of it is that it copies a string, with its NUL, that fits.
-/
namespace AbstractHttp.WebSocket
open Library Http EventStream

/-- A copy of a string into a block of a given size. -/
abbrev StrcpyS := Memory UInt8 → ℕ → CString → Memory UInt8

/-- What is documented of `strcpy_s`: a string that fits is copied with its NUL. -/
def CopiesString (copy : StrcpyS) : Prop :=
  ∀ dest size s, s.length < size → (copy dest size s).read 0 (s.length + 1) = s.bytes ++ [0]

/-- `magic_guid`. -/
def magicGuid : CString where
  bytes := asciiBytes "258EAFA5-E914-47DA-95CA-C5AB0DC85B11".toList
  noNul := by decide

/-- What the locals of `ws_sign_key` and `ws_verify_accept`, and the block from `malloc`, hold
before anything is written to them. -/
structure HandshakeJunk where
  concatenated : Memory UInt8
  ctx : Crypto.Sha1Ctx
  block : Memory UInt8
  expectedAccept : Memory UInt8

/-- `ws_sign_key`, with `out_accept` as it leaves it. -/
def wsSignKey (fuel : ℕ) (copy : StrcpyS) (alloc : ℕ → Bool) (junk : HandshakeJunk)
    (clientKey : CString) : Option (Except ErrorCode (Memory UInt8)) :=
  let len1 := clientKey.length
  let len2 := magicGuid.length
  if len1 + len2 ≥ 100 then some (.error .inval)
  else
    let front := copy junk.concatenated 100 clientKey
    let back := copy (fun k => front (len1 + k)) (100 - len1) magicGuid
    let concatenated := fun i => if i < len1 then front i else back (i - len1)
    (Crypto.sha1Update fuel (Crypto.sha1Init junk.ctx) concatenated
      (UInt64.ofNat (len1 + len2))).bind fun ctx =>
    (Crypto.sha1Final fuel ctx).bind fun hash =>
      match Crypto.base64Encode alloc junk.block hash with
      | .error e => some (.error e)
      | .ok (base64Str, base64Len) =>
        some (.ok (copy junk.expectedAccept 29
          (CString.ofBytes (base64Str.read 0 (base64Len + 1)))))

/-- `math_is_const_time_streq`, with `char` signed and widened to `int`. -/
def mathIsConstTimeStreq (a b : CString) : Bool :=
  if a.length ≠ b.length then false
  else
    let diff := (a.bytes.zip b.bytes).foldl
      (fun (diff : BitVec 32) p =>
        diff ||| (p.1.toBitVec.signExtend 32 ^^^ p.2.toBitVec.signExtend 32)) 0#32
    diff = 0#32

/-- `C_ABSTRACT_HTTP_ERR_WS_HANDSHAKE`. -/
def wsHandshakeError : ℤ := -1002

/-- `ws_verify_accept`: the code that it returns, 0 for success. -/
def wsVerifyAccept (fuel : ℕ) (copy : StrcpyS) (alloc : ℕ → Bool) (junk : HandshakeJunk)
    (clientKey serverAccept : CString) : Option ℤ :=
  (wsSignKey fuel copy alloc junk clientKey).map fun
    | .error e => e.value
    | .ok expectedAccept =>
      if mathIsConstTimeStreq (CString.ofBytes (expectedAccept.read 0 29)) serverAccept then 0
      else wsHandshakeError

/-- The value that RFC 6455 asks the server to send for a key. -/
def acceptValue (clientKey : CString) : List UInt8 :=
  Base64.encode (Sha1.digest (clientKey.bytes ++ magicGuid.bytes))

section Comparison

/-- Characters that differ leave a bit behind, whatever comes after them. -/
theorem foldl_diff_eq_zero (diff : BitVec 32) (ps : List (UInt8 × UInt8)) :
    ps.foldl (fun (diff : BitVec 32) p =>
      diff ||| (p.1.toBitVec.signExtend 32 ^^^ p.2.toBitVec.signExtend 32)) diff = 0#32 ↔
      diff = 0#32 ∧ ∀ p ∈ ps, p.1 = p.2 := by
  induction ps generalizing diff with
  | nil => simp
  | cons p ps ih =>
    have hsame : p.1.toBitVec.signExtend 32 = p.2.toBitVec.signExtend 32 ↔ p.1 = p.2 := by
      constructor
      · intro h
        have hint := congrArg BitVec.toInt h
        rw [BitVec.toInt_signExtend_of_le (by omega),
          BitVec.toInt_signExtend_of_le (by omega)] at hint
        exact UInt8.toBitVec_inj.mp (BitVec.eq_of_toInt_eq hint)
      · intro h
        rw [h]
    rw [List.foldl_cons, ih, BitVec.or_eq_zero_iff, BitVec.xor_eq_zero_iff, hsame,
      List.forall_mem_cons, and_assoc]

/-- The comparison in constant time is equality of strings. -/
theorem mathIsConstTimeStreq_iff (a b : CString) :
    mathIsConstTimeStreq a b = true ↔ a.bytes = b.bytes := by
  rw [mathIsConstTimeStreq]
  split_ifs with hlen
  · simp only [false_iff]
    exact fun h => hlen (congrArg List.length h)
  · have hzip : a.bytes = b.bytes ↔ ∀ p ∈ a.bytes.zip b.bytes, p.1 = p.2 := by
      rw [← List.forall₂_eq_eq_eq, List.forall₂_iff_zip]
      exact ⟨fun h p hp => h.2 hp, fun h => ⟨not_not.mp hlen, fun hp => h _ hp⟩⟩
    rw [decide_eq_true_eq, foldl_diff_eq_zero, hzip]
    simp only [true_and]

end Comparison

section Key

variable {copy : StrcpyS} {alloc : ℕ → Bool} {clientKey : CString}

theorem magicGuid_length : magicGuid.length = 36 := by decide

/-- A string that was copied is what is read up to its NUL. -/
theorem CopiesString.ofBytes (hcopy : CopiesString copy) (dest : Memory UInt8) {size : ℕ}
    {s : CString} (h : s.length < size) :
    (copy dest size s).read 0 s.length = s.bytes ∧ copy dest size s s.length = 0 := by
  have hread := hcopy dest size s h
  rw [Memory.read_succ, Nat.zero_add] at hread
  obtain ⟨hbytes, hnul⟩ := List.append_inj' hread rfl
  exact ⟨hbytes, List.singleton_inj.mp hnul⟩

/-- The two copies put the key and the constant one behind the other. -/
theorem read_concatenated (hcopy : CopiesString copy) (junk : Memory UInt8)
    (h : clientKey.length < 64) :
    Memory.read (fun i => if i < clientKey.length then copy junk 100 clientKey i
      else copy (fun k => copy junk 100 clientKey (clientKey.length + k)) (100 - clientKey.length)
        magicGuid (i - clientKey.length)) 0 (clientKey.length + magicGuid.length) =
      clientKey.bytes ++ magicGuid.bytes := by
  have hlen := magicGuid_length
  obtain ⟨hfront, -⟩ := hcopy.ofBytes junk (show clientKey.length < 100 by omega)
  obtain ⟨hback, -⟩ := hcopy.ofBytes (fun k => copy junk 100 clientKey (clientKey.length + k))
    (show magicGuid.length < 100 - clientKey.length by omega)
  rw [Memory.read_add, ← hfront, ← hback]
  congr 1
  · exact Memory.read_congr fun k hk => by simp [hk]
  · exact Memory.read_congr fun k hk => by simp

/-- One update takes the key and the constant, and the digest is that of both. -/
theorem handshake_digest (hcopy : CopiesString copy) (junk : HandshakeJunk)
    (h : clientKey.length < 64) {fuel : ℕ} (hfuel : 200 < fuel) :
    ∃ ctx, Crypto.sha1Update fuel (Crypto.sha1Init junk.ctx)
        (fun i => if i < clientKey.length then copy junk.concatenated 100 clientKey i
          else copy (fun k => copy junk.concatenated 100 clientKey (clientKey.length + k))
            (100 - clientKey.length) magicGuid (i - clientKey.length))
        (UInt64.ofNat (clientKey.length + magicGuid.length)) = some ctx ∧
      Crypto.sha1Final fuel ctx =
        some (Sha1.digest (clientKey.bytes ++ magicGuid.bytes)) := by
  have hguid := magicGuid_length
  have hlen : (UInt64.ofNat (clientKey.length + magicGuid.length)).toNat =
      clientKey.length + magicGuid.length := UInt64.toNat_ofNat_of_lt' (by simp only [UInt64.size]; omega)
  let input : Crypto.Input :=
    ⟨fun i => if i < clientKey.length then copy junk.concatenated 100 clientKey i
      else copy (fun k => copy junk.concatenated 100 clientKey (clientKey.length + k))
        (100 - clientKey.length) magicGuid (i - clientKey.length),
      UInt64.ofNat (clientKey.length + magicGuid.length)⟩
  have hbytes : [input].flatMap Crypto.Input.bytes = clientKey.bytes ++ magicGuid.bytes := by
    rw [List.flatMap_singleton, Crypto.Input.bytes, hlen, read_concatenated hcopy _ h]
  have htotal : ([input].flatMap Crypto.Input.bytes).length =
      clientKey.length + magicGuid.length := by
    rw [hbytes, List.length_append]
    rfl
  have hfit : Crypto.InputsFit 0 [input] := by
    refine ⟨?_, Or.inl ?_, trivial⟩ <;> rw [hlen] <;> omega
  obtain ⟨ctx, hrun, -, -, hdigest⟩ := Crypto.stream_digest junk.ctx (by omega) hfit
    (show _ < fuel by omega)
  rw [hbytes] at hdigest
  rw [Crypto.sha1Stream_singleton] at hrun
  exact ⟨ctx, hrun, hdigest⟩

/-- The client's own computation of the value. -/
theorem wsSignKey_spec (hcopy : CopiesString copy) (halloc : alloc 29 = true)
    (junk : HandshakeJunk) (h : clientKey.length < 64) {fuel : ℕ} (hfuel : 200 < fuel) :
    ∃ out, wsSignKey fuel copy alloc junk clientKey = some (.ok out) ∧
      (CString.ofBytes (out.read 0 29)).bytes = acceptValue clientKey := by
  have hguid := magicGuid_length
  obtain ⟨ctx, hrun, hdigest⟩ := handshake_digest hcopy junk h hfuel
  have hhash := Sha1.digest_length (clientKey.bytes ++ magicGuid.bytes)
  obtain ⟨block, hencode, htext⟩ := Crypto.base64Encode_spec junk.block
    (Sha1.digest (clientKey.bytes ++ magicGuid.bytes)) (by rw [hhash]; exact halloc)
  have hvalue : (acceptValue clientKey).length = 28 := by
    rw [acceptValue, Base64.encode_length, hhash]
  have hstring : (CString.ofBytes (acceptValue clientKey ++ [0])).bytes = acceptValue clientKey :=
    CString.ofBytes_append_nul (Base64.zero_not_mem_encode _) []
  rw [hhash, ← acceptValue] at htext
  rw [hhash] at hencode
  refine ⟨copy junk.expectedAccept 29
    (CString.ofBytes (block.read 0 (4 * ((20 + 2) / 3) + 1))), ?_, ?_⟩
  · rw [wsSignKey, if_neg (by omega)]
    simp only [hrun, hdigest, hencode, Option.bind_some]
  · have hlen : (CString.ofBytes (block.read 0 (4 * ((20 + 2) / 3) + 1))).length = 28 := by
      rw [htext, CString.length, hstring, hvalue]
    have hcopied := hcopy junk.expectedAccept 29 _ (show _ < 29 by rw [hlen]; omega)
    rw [hlen] at hcopied
    rw [hcopied, htext, hstring, hstring]

end Key

/-- A key of fewer than 64 bytes is accepted with exactly the value of RFC 6455, and a longer one
never. -/
theorem wsVerifyAccept_iff {copy : StrcpyS} (hcopy : CopiesString copy) (alloc : ℕ → Bool)
    (halloc : alloc 29 = true) (junk : HandshakeJunk) (clientKey serverAccept : CString) :
    ∃ code, (∀ fuel > 200, wsVerifyAccept fuel copy alloc junk clientKey serverAccept = some code) ∧
      (clientKey.length < 64 → (code = 0 ↔ serverAccept.bytes = acceptValue clientKey)) ∧
      (64 ≤ clientKey.length → code ≠ 0) := by
  have hguid := magicGuid_length
  by_cases hlen : clientKey.length < 64
  · refine ⟨if acceptValue clientKey = serverAccept.bytes then 0 else wsHandshakeError,
      fun fuel hfuel => ?_, fun _ => ?_, fun hlong => by omega⟩
    · obtain ⟨out, hsign, hvalue⟩ := wsSignKey_spec hcopy halloc junk hlen hfuel
      simp only [wsVerifyAccept, hsign, Option.map_some, mathIsConstTimeStreq_iff, hvalue]
    · split_ifs with heq
      · exact iff_of_true rfl heq.symm
      · exact iff_of_false (by decide) (Ne.symm heq)
  · refine ⟨ErrorCode.inval.value, fun fuel _ => ?_, fun hshort => absurd hshort hlen,
      fun _ => by decide⟩
    rw [wsVerifyAccept, wsSignKey, if_pos (by omega)]
    rfl

/-- A copy as the library makes it. -/
def strcpyS (dest : Memory UInt8) (size : ℕ) (s : CString) : Memory UInt8 :=
  if s.length < size then dest.write 0 (s.bytes ++ [0]) else dest.write 0 [0]

theorem copiesString_strcpyS : CopiesString strcpyS := by
  intro dest size s h
  have hlen : s.length + 1 = (s.bytes ++ [0]).length := by
    rw [List.length_append]
    rfl
  rw [strcpyS, if_pos h, hlen, Memory.read_write_self]

/-- Blocks of zeros. -/
def zeroJunk : HandshakeJunk :=
  ⟨fun _ => 0, ⟨Sha1.initial, 0, 0, fun _ => 0⟩, fun _ => 0, fun _ => 0⟩

/-- The key of an example in RFC 6455. -/
def sampleKey : CString := .ofBytes (asciiBytes "dGhlIHNhbXBsZSBub25jZQ==".toList)

/-- Its value is accepted, and an empty one is not. -/
theorem wsVerifyAccept_iff_sampleKey :
    (∀ fuel > 200, wsVerifyAccept fuel strcpyS (fun _ => true) zeroJunk sampleKey
      (.ofBytes (acceptValue sampleKey)) = some 0) ∧
    ∃ code, (∀ fuel > 200, wsVerifyAccept fuel strcpyS (fun _ => true) zeroJunk sampleKey
      (.ofBytes []) = some code) ∧ code ≠ 0 := by
  have hshort : sampleKey.length < 64 := by decide
  constructor
  · obtain ⟨code, hrun, hiff, -⟩ := wsVerifyAccept_iff copiesString_strcpyS (fun _ => true) rfl
      zeroJunk sampleKey (.ofBytes (acceptValue sampleKey))
    have hcode : code = 0 :=
      (hiff hshort).mpr (CString.ofBytes_of_noNul (Base64.zero_not_mem_encode _))
    rw [← hcode]
    exact hrun
  · obtain ⟨code, hrun, hiff, -⟩ := wsVerifyAccept_iff copiesString_strcpyS (fun _ => true) rfl
      zeroJunk sampleKey (.ofBytes [])
    refine ⟨code, hrun, fun hcode => ?_⟩
    have hvalue := congrArg List.length ((hiff hshort).mp hcode)
    rw [acceptValue, Base64.encode_length, Sha1.digest_length] at hvalue
    exact absurd hvalue (by decide)

end AbstractHttp.WebSocket
