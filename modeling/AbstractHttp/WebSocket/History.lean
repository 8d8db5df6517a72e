import AbstractHttp.WebSocket.Limits

/-!
# What past messages leave behind

Between messages a parser differs from a fresh one in the capacities of its two
blocks. The payload block is never compared with a limit. The reassembly block
is: a fragment is refused when doubling that block goes beyond the limit, so that
the size it has grown to decides what is refused later.
-/
namespace AbstractHttp.WebSocket
open Library Outcome

variable {cfg : WsConfig} {realloc : WsRealloc} {ctx : WsParserCtx}

/-! ### The parser between messages -/

/-- The reassembly block is absent, or it has been allocated within the limit. -/
def WsBlockValid (cfg : WsConfig) (ctx : WsParserCtx) : Prop :=
  (ctx.reassemblyCapacity = 0 ∧ ctx.reassemblyOffset = 0) ∨
    (4096 ≤ ctx.reassemblyCapacity ∧ 4096 ≤ cfg.maxFrameSize)

/-- In front of a frame the header is blank. -/
structure WsClean (cfg : WsConfig) (ctx : WsParserCtx) : Prop where
  header : ctx.state = .readOpcode →
    ctx.currentFrame = .zero ∧ ctx.maskOffset = 0 ∧ ctx.extLenOffset = 0
  block : WsBlockValid cfg ctx

theorem Quiet.blockValid {o : WsOutcome} (h : Quiet ctx o) (hctx : WsBlockValid cfg ctx) :
    WsBlockValid cfg o.state := by
  rwa [WsBlockValid, h.capacity, h.offset]

/-- A block that is absent or allocated grows to at least the first size. -/
theorem WsBlockValid.le_doubled (hctx : WsBlockValid cfg ctx) (need : ℕ) :
    4096 ≤ wsDoubledCapacity ctx.reassemblyCapacity need := by
  rcases hctx with ⟨hcap, -⟩ | ⟨hcap, -⟩
  · rw [hcap, wsDoubledCapacity_zero]
    exact doubleUntil_ge _ _
  · rw [wsDoubledCapacity_pos (by omega)]
    exact (by omega : 4096 ≤ ctx.reassemblyCapacity * 2).trans (doubleUntil_ge _ _)

theorem wsStoreFragment_blockValid (hctx : WsBlockValid cfg ctx) :
    WsBlockValid cfg (wsStoreFragment cfg realloc ctx).state := by
  rcases wsStoreFragment_cases cfg realloc ctx with
    ⟨code, e, h⟩ | ⟨hfits, h⟩ | ⟨cap, rfl, -, hcap, h⟩
  · rwa [h]
  · rw [h]
    refine hctx.imp (fun hnone => ⟨hnone.1, ?_⟩) id
    change ctx.reassemblyOffset + ctx.currentFrame.payloadLen = 0
    omega
  · rw [h]
    exact Or.inr ⟨hctx.le_doubled _, (hctx.le_doubled _).trans hcap⟩

theorem wsFinalFrame_blockValid (hctx : WsBlockValid cfg ctx) :
    WsBlockValid cfg (wsFinalFrame realloc ctx).state := by
  simp only [wsFinalFrame]
  split
  · rename_i hoff
    split
    · exact hctx
    · refine Or.inr (hctx.elim (fun h => by omega) fun h => ⟨?_, h.2⟩)
      exact h.1.trans (le_max_left _ _)
  · exact hctx

theorem wsDeliver_blockValid (hctx : WsBlockValid cfg ctx) :
    WsBlockValid cfg (wsDeliver cfg realloc ctx).state := by
  rw [wsDeliver]
  split
  · exact hctx
  · split
    · exact hctx
    · split
      · exact wsStoreFragment_blockValid hctx
      · exact wsFinalFrame_blockValid hctx

/-- No header byte brings the parser to the front of a frame. -/
theorem HeaderTurn.state {o : WsOutcome} (h : HeaderTurn ctx o) (hok : o.failure = none) :
    o.state.state ≠ .readOpcode := by
  cases h with
  | stored hstate => exact hstate
  | refused => cases hok

theorem wsReadPayload_clean (hs : ctx.state = .readPayload) (hctx : WsBlockValid cfg ctx)
    (chunk : List UInt8) (hok : (wsReadPayload cfg realloc ctx chunk).failure = none) :
    WsClean cfg (wsReadPayload cfg realloc ctx chunk).state := by
  have hcopied : WsBlockValid cfg (wsCopyPayload (wsGrowPayload ctx) chunk) := hctx
  simp only [wsReadPayload] at hok ⊢
  split at hok
  · cases hok
  · rename_i hroom
    rw [if_neg hroom]
    split at hok
    · rename_i hfull
      rw [if_pos hfull]
      rw [wsFrameComplete, andThen_failure_none] at hok
      rw [wsFrameComplete, andThen_of_none hok.1]
      exact ⟨fun _ => ⟨rfl, rfl, rfl⟩, wsDeliver_blockValid hcopied⟩
    · rename_i hpart
      rw [if_neg hpart]
      refine ⟨fun h => ?_, hcopied⟩
      change ctx.state = .readOpcode at h
      rw [hs] at h
      cases h

theorem wsParserIterate_clean (hctx : WsClean cfg ctx) (b : UInt8) (bs : List UInt8)
    (hok : (wsParserIterate cfg realloc ctx b bs).failure = none) :
    WsClean cfg (wsParserIterate cfg realloc ctx b bs).state := by
  by_cases hs : ctx.state = .readPayload
  · rw [wsParserIterate_payload hs] at hok ⊢
    exact wsReadPayload_clean hs hctx.block _ hok
  · have hturn := headerTurn_wsParserIterate cfg realloc hs b bs
    exact ⟨fun h => absurd h (hturn.state hok), hturn.quiet.blockValid hctx.block⟩

theorem wsClean_wsParserFresh (cfg : WsConfig) (garbage : Memory UInt8) :
    WsClean cfg (wsParserFresh garbage) := ⟨fun _ => ⟨rfl, rfl, rfl⟩, Or.inl ⟨rfl, rfl⟩⟩

/-- Every stream that is accepted leaves a clean parser. -/
theorem wsParserFeed_clean {garbage : Memory UInt8} {m : List UInt8}
    (hok : (wsParserFeed cfg realloc (wsParserFresh garbage) m).failure = none) :
    WsClean cfg (wsParserFeed cfg realloc (wsParserFresh garbage) m).state :=
  wsParserFeed_induction (fun _ b bs hctx => wsParserIterate_clean hctx b bs)
    (wsClean_wsParserFresh cfg garbage) hok

/-- Between messages a parser whose block never grew beyond the first size is as good as new. -/
theorem WsClean.agree_fresh (h : WsClean cfg ctx) (hs : ctx.state = .readOpcode)
    (hoff : ctx.reassemblyOffset = 0) (hcap : ctx.reassemblyCapacity ≤ 4096)
    (garbage : Memory UInt8) : Agree cfg false ctx (wsParserFresh garbage) where
  state := hs
  frame := (h.header hs).1
  payloadOffset := by simp [hs]
  payload := by simp [hs]
  extLenOffset := (h.header hs).2.2
  extLen := by rw [(h.header hs).2.2]; rfl
  maskOffset := (h.header hs).2.1
  reassemblyOffset := hoff
  reassembly := by rw [hoff]; rfl
  capacity := by
    rcases h.block with ⟨hzero, -⟩ | ⟨hlow, hmax⟩
    · exact Or.inl hzero
    · exact Or.inr ⟨hoff, hmax, by simp; omega, by simp [wsParserFresh]⟩
  exactCapacity := by simp

/-! ### Which streams grow the block further -/

/-- The current frame belongs to a message in several frames. -/
def WsParserCtx.Joins (ctx : WsParserCtx) : Prop :=
  ctx.currentFrame.opcode ≠ WsOpcode.close.value ∧
    ¬ (ctx.currentFrame.opcode = WsOpcode.ping.value ∨
      ctx.currentFrame.opcode = WsOpcode.pong.value) ∧
    (ctx.currentFrame.fin = false ∨ ctx.reassemblyOffset > 0)

/-- A byte that completes a frame with which the message needs more than 4096 bytes. -/
def WsOutgrows (realloc : WsRealloc) (ctx : WsParserCtx) (_b : UInt8) : Prop :=
  ctx.Completes realloc ∧ ctx.Joins ∧ 4096 < ctx.reassemblyOffset + ctx.currentFrame.payloadLen

theorem wsStoreFragment_capacity (hctx : WsBlockValid cfg ctx)
    (hok : (wsStoreFragment cfg realloc ctx).failure = none) :
    (wsStoreFragment cfg realloc ctx).state.reassemblyCapacity ≤ 4096 ↔
      ctx.reassemblyCapacity ≤ 4096 ∧
        ctx.reassemblyOffset + ctx.currentFrame.payloadLen ≤ 4096 := by
  rcases wsStoreFragment_cases cfg realloc ctx with
    ⟨code, e, h⟩ | ⟨hfits, h⟩ | ⟨cap, rfl, hgrow, hcap, h⟩
  · rw [h] at hok
    cases hok
  · rw [h]
    change ctx.reassemblyCapacity ≤ 4096 ↔ _
    omega
  · rw [h]
    change wsDoubledCapacity _ _ ≤ 4096 ↔ _
    rcases hctx with ⟨hzero, -⟩ | ⟨hlow, -⟩
    · rw [hzero, wsDoubledCapacity_zero]
      constructor
      · exact fun h => ⟨by omega, (le_doubleUntil _ (by omega)).trans h⟩
      · exact fun h => (doubleUntil_of_le h.2).le
    · -- a block of 4096 bytes that has to grow is doubled
      have hdouble := doubleUntil_ge (ctx.reassemblyCapacity * 2)
        (ctx.reassemblyOffset + ctx.currentFrame.payloadLen)
      rw [wsDoubledCapacity_pos (by omega)]
      omega

theorem wsFinalFrame_capacity (hok : (wsFinalFrame realloc ctx).failure = none) :
    (wsFinalFrame realloc ctx).state.reassemblyCapacity ≤ 4096 ↔
      ctx.reassemblyCapacity ≤ 4096 ∧ (ctx.reassemblyOffset > 0 →
        ctx.reassemblyOffset + ctx.currentFrame.payloadLen ≤ 4096) := by
  simp only [wsFinalFrame] at hok ⊢
  split at hok
  · rename_i hoff
    rw [if_pos hoff]
    split at hok
    · cases hok
    · rename_i hroom
      rw [if_neg hroom]
      change max _ _ ≤ 4096 ↔ _
      rw [max_le_iff]
      simp [hoff]
  · rename_i hoff
    rw [if_neg hoff]
    simp [hoff]

/-- The block stays at the first size exactly as long as no message needs more. -/
theorem wsDeliver_capacity (hctx : WsBlockValid cfg ctx)
    (hok : (wsDeliver cfg realloc ctx).failure = none) :
    (wsDeliver cfg realloc ctx).state.reassemblyCapacity ≤ 4096 ↔
      ctx.reassemblyCapacity ≤ 4096 ∧
        ¬ (ctx.Joins ∧ 4096 < ctx.reassemblyOffset + ctx.currentFrame.payloadLen) := by
  unfold wsDeliver at hok ⊢
  split at hok
  · rename_i hclose
    simp [WsParserCtx.Joins, hclose]
  · rename_i hclose
    rw [if_neg hclose]
    split at hok
    · rename_i hcontrol
      rw [if_pos hcontrol]
      exact (and_iff_left fun hjoin => hjoin.1.2.1 hcontrol).symm
    · rename_i hcontrol
      rw [if_neg hcontrol]
      split at hok
      · rename_i hfin
        have hjoins : ctx.Joins := ⟨hclose, hcontrol, Or.inl hfin⟩
        rw [if_pos hfin, wsStoreFragment_capacity hctx hok]
        simp [hjoins]
      · rename_i hfin
        have hjoins : ctx.Joins ↔ ctx.reassemblyOffset > 0 :=
          ⟨fun hjoin => hjoin.2.2.resolve_left hfin, fun hoff => ⟨hclose, hcontrol, Or.inr hoff⟩⟩
        rw [if_neg hfin, wsFinalFrame_capacity hok, hjoins, not_and, not_lt]

theorem wsParserFeed_capacity (hctx : WsBlockValid cfg ctx) (b : UInt8)
    (hok : (wsParserFeed cfg realloc ctx [b]).failure = none) :
    (wsParserFeed cfg realloc ctx [b]).state.reassemblyCapacity ≤ 4096 ↔
      ctx.reassemblyCapacity ≤ 4096 ∧ ¬ WsOutgrows realloc ctx b := by
  by_cases h : ctx.Completes realloc
  · obtain ⟨k, hk, hfeed⟩ := wsParserFeed_completes cfg h b
    have hcopied : WsBlockValid cfg (wsCopyPayload (wsGrowPayload ctx) [b]) := hctx
    rw [hfeed, andThen_failure_none] at hok
    rw [hfeed, andThen_of_none hok.1, (hk _).capacity, wsDeliver_capacity hcopied hok.1]
    exact and_congr_right fun _ => not_congr ⟨fun hout => ⟨h, hout⟩, fun hout => hout.2⟩
  · rw [(quiet_of_not_completes h b).capacity]
    exact (and_iff_left fun hout => h hout.1).symm

/-- The block is at most of the first size after a stream exactly when no byte outgrew it. -/
theorem wsParserFeed_capacity_iff {m : List UInt8} (hctx : WsClean cfg ctx)
    (hok : (wsParserFeed cfg realloc ctx m).failure = none) :
    (wsParserFeed cfg realloc ctx m).state.reassemblyCapacity ≤ 4096 ↔
      ctx.reassemblyCapacity ≤ 4096 ∧
        Incremental.NoneBad (wsParserFeed cfg realloc) (WsOutgrows realloc) ctx m := by
  have hinc := wsParserFeed_incremental cfg realloc
  induction m generalizing ctx with
  | nil =>
    rw [wsParserFeed_nil]
    exact (and_iff_left fun p i q h => by simp at h).symm
  | cons b m ih =>
    rw [hinc.cons, andThen_failure_none] at hok
    have hnext : WsClean cfg (wsParserFeed cfg realloc ctx [b]).state :=
      wsParserFeed_induction (fun _ b bs hctx => wsParserIterate_clean hctx b bs) hctx hok.1
    rw [hinc.cons, andThen_of_none hok.1, hinc.noneBad_cons]
    refine (ih hnext hok.2).trans ?_
    rw [wsParserFeed_capacity hctx.block b hok.1, and_assoc, forall_prop_of_true hok.1]

/-! ### Streams that tell a larger block from a fresh parser -/

theorem le_of_wsFragmentCapacity {cap need c : ℕ} (h : wsFragmentCapacity cfg cap need = some c) :
    need ≤ c := by
  rw [wsFragmentCapacity] at h
  split at h
  · rename_i hfits
    exact hfits.trans_eq (Option.some.inj h)
  · split at h
    · cases h
    · exact (le_wsDoubledCapacity _ _).trans_eq (Option.some.inj h)

/-- The largest capacity that doubling reaches within the limit. -/
structure LargestGrown (cfg : WsConfig) (n : ℕ) : Prop where
  le : 4096 * 2 ^ n ≤ cfg.maxFrameSize
  lt : cfg.maxFrameSize < 4096 * 2 ^ (n + 1)

theorem exists_largestGrown (h : 4096 ≤ cfg.maxFrameSize) : ∃ n, LargestGrown cfg n := by
  have hpos : cfg.maxFrameSize / 4096 ≠ 0 := by omega
  refine ⟨Nat.log 2 (cfg.maxFrameSize / 4096), ?_, ?_⟩
  · have hlow := Nat.pow_log_le_self 2 hpos
    omega
  · have hhigh := Nat.lt_pow_succ_log_self (by omega : 1 < 2) (cfg.maxFrameSize / 4096)
    omega

variable {n : ℕ}

/-- Where the block has grown by doubling, it can be filled, but not by one byte more. -/
theorem LargestGrown.grown (hn : LargestGrown cfg n) {cap : ℕ} (hcap : Grown n cap) :
    ∃ c, wsFragmentCapacity cfg cap (4096 * 2 ^ n) = some c ∧
      wsFragmentCapacity cfg c (4096 * 2 ^ n + 1) = none := by
  obtain ⟨c, hc, hgrown⟩ := wsFragmentCapacity_grown hn.le hcap le_rfl
  have hle := le_of_wsFragmentCapacity hc
  have hpos : 0 < 4096 * 2 ^ n := by positivity
  obtain rfl : c = 4096 * 2 ^ n := by
    rcases hgrown with rfl | ⟨k, hk, rfl⟩
    · omega
    · exact le_antisymm (by gcongr; omega) hle
  refine ⟨_, hc, ?_⟩
  have hdouble := doubleUntil_ge (4096 * 2 ^ n * 2) (4096 * 2 ^ n + 1)
  have hlt := hn.lt
  rw [pow_succ, ← mul_assoc] at hlt
  rw [wsFragmentCapacity, if_neg (by omega), wsDoubledCapacity_pos hpos, if_pos (by omega)]

/-- Where it has grown to a size that doubling does not give, it cannot be filled, or there is
room for one byte more. -/
theorem wsFragmentCapacity_odd (cfg : WsConfig) {n cap : ℕ} (hcap : 4096 < cap)
    (hodd : ¬ Grown n cap) :
    wsFragmentCapacity cfg cap (4096 * 2 ^ n) = none ∨
      ∃ c, wsFragmentCapacity cfg cap (4096 * 2 ^ n) = some c ∧
        wsFragmentCapacity cfg c (4096 * 2 ^ n + 1) = some c := by
  by_cases hfits : 4096 * 2 ^ n ≤ cap
  · have hne : cap ≠ 4096 * 2 ^ n := fun h => hodd (Or.inr ⟨n, le_rfl, h⟩)
    exact Or.inr ⟨cap, if_pos hfits, if_pos (by omega)⟩
  · by_cases hlimit : wsDoubledCapacity cap (4096 * 2 ^ n) > cfg.maxFrameSize
    · exact Or.inl (by rw [wsFragmentCapacity, if_neg hfits, if_pos hlimit])
    · refine Or.inr ⟨wsDoubledCapacity cap (4096 * 2 ^ n), ?_, ?_⟩
      · rw [wsFragmentCapacity, if_neg hfits, if_neg hlimit]
      · have hle := le_wsDoubledCapacity cap (4096 * 2 ^ n)
        have hne : wsDoubledCapacity cap (4096 * 2 ^ n) ≠ 4096 * 2 ^ n := by
          intro heq
          obtain ⟨k, hk, -, -⟩ := doubleUntil_spec (4096 * 2 ^ n) (by omega : 0 < cap * 2)
          rw [wsDoubledCapacity_pos (by omega), hk, mul_assoc, ← pow_succ'] at heq
          -- `cap * 2 ^ (k + 1)` is the full size, so `cap` itself is one that doubling gives
          have hlt : 4096 * 2 ^ (k + 1) < 4096 * 2 ^ n := by
            rw [← heq]
            gcongr
          have hkn : k + 1 < n := by
            have hpow : 2 ^ (k + 1) < 2 ^ n := by omega
            exact (Nat.pow_lt_pow_iff_right (by omega)).mp hpow
          refine hodd (Or.inr ⟨n - (k + 1), Nat.sub_le _ _, ?_⟩)
          have hsplit : 2 ^ n = 2 ^ (n - (k + 1)) * 2 ^ (k + 1) := by
            rw [← pow_add, Nat.sub_add_cancel hkn.le]
          rw [hsplit, ← mul_assoc] at heq
          exact Nat.eq_of_mul_eq_mul_right (by positivity) heq
        exact if_pos (by omega)

/-- One more byte of a message. -/
def wsMiddleByte : WsFrame := ⟨false, .continuation, none, [0]⟩

/-- A last fragment of `n` bytes. -/
def wsEnding (n : ℕ) : WsFrame := ⟨true, .continuation, none, List.replicate n 0⟩

theorem wsEnding_length (n : ℕ) : (wsEnding n).payload.length = n := List.length_replicate

theorem wsFrameStep_filling {m cap : ℕ} (hm : m ≤ cfg.maxFrameSize) :
    wsFrameStep cfg ⟨[], cap⟩ (wsFilling m) =
      match wsFragmentCapacity cfg cap m with
      | none => fail ⟨[], cap⟩ [.onError ErrorCode.msgSize.value] .msgSize
      | some c => done ⟨(wsFilling m).payload, c⟩ := by
  have hshort : ¬ (wsFilling m).TooLong cfg := fun hlong => by
    have := hlong.2
    rw [wsFilling_length] at this
    omega
  rw [wsFrameStep_of_order hshort rfl rfl (Or.inr rfl), wsFilling_length, List.length_nil,
    Nat.zero_add]
  rfl

theorem wsFrameStep_middleByte {m cap : ℕ} :
    wsFrameStep cfg ⟨(wsFilling m).payload, cap⟩ wsMiddleByte =
      match wsFragmentCapacity cfg cap (m + 1) with
      | none => fail ⟨(wsFilling m).payload, cap⟩ [.onError ErrorCode.msgSize.value] .msgSize
      | some c => done ⟨(wsFilling m).payload ++ [0], c⟩ := by
  have hshort : ¬ wsMiddleByte.TooLong cfg := by simp [WsFrame.TooLong, wsMiddleByte]
  rw [wsFrameStep_of_order hshort rfl rfl (Or.inl rfl), wsFilling_length]
  rfl

/-- A stream of frames that is run to its end. -/
structure WsRunnable (fs : List WsFrame) : Prop where
  readable : ∀ f ∈ fs, f.Readable
  last : ∀ f, fs.getLast? = some f → f.payload ≠ []

theorem wsRunnable_filling {m : ℕ} (hm : m < 2 ^ 63) (hpos : 0 < m) :
    WsRunnable [wsFilling m] ∧ WsRunnable [wsFilling m, wsMiddleByte] := by
  have hne : (wsFilling m).payload ≠ [] := by
    rw [← List.length_pos_iff, wsFilling_length]
    exact hpos
  have hmiddle : wsMiddleByte.Readable := by simp [WsFrame.readable_iff, wsMiddleByte]
  exact ⟨⟨by simpa using wsFilling_readable hm, by simpa using hne⟩,
    ⟨by simpa using ⟨wsFilling_readable hm, hmiddle⟩, by simp [wsMiddleByte]⟩⟩

/-- Filling the block tells the sizes that doubling gives from the others. -/
theorem LargestGrown.tell_odd (hn : LargestGrown cfg n) {g c : ℕ} (hg : Grown n g)
    (hc : 4096 < c) (hodd : ¬ Grown n c) :
    ∃ fs, WsRunnable fs ∧
      (wsFrameRun cfg ⟨[], g⟩ fs).failure ≠ (wsFrameRun cfg ⟨[], c⟩ fs).failure := by
  have hmax := cfg.maxFrameSize_lt
  have hle := hn.le
  obtain ⟨hfill, hmore⟩ := wsRunnable_filling (m := 4096 * 2 ^ n) (by omega) (by positivity)
  obtain ⟨d, hd, hfull⟩ := hn.grown hg
  rcases wsFragmentCapacity_odd cfg hc hodd with hnone | ⟨e, he, hroom⟩
  · refine ⟨_, hfill, ?_⟩
    simp [wsFrameRun, wsFrameStep_filling hn.le, hd, hnone]
  · refine ⟨_, hmore, ?_⟩
    simp [wsFrameRun, wsFrameStep_filling hn.le, wsFrameStep_middleByte, hd, hfull, he, hroom]

/-- A short message after which the capacities are one of doubling and one that is not. -/
theorem wsFrameRun_unsettle {k cap : ℕ} (hlow : 4096 ≤ k) (hk : k ≤ cfg.maxFrameSize)
    (hcap : cap = 0 ∨ 4096 < cap) :
    (wsFrameRun cfg ⟨[], cap⟩ [wsFilling 1, wsEnding k]).state = ⟨[], max cap (1 + k)⟩ ∧
      (wsFrameRun cfg ⟨[], cap⟩ [wsFilling 1, wsEnding k]).failure = none := by
  obtain ⟨c, hc, hgrown⟩ :
      ∃ c, wsFragmentCapacity cfg cap 1 = some c ∧ max c (1 + k) = max cap (1 + k) := by
    rcases hcap with rfl | hcap
    · refine ⟨4096, ?_, by omega⟩
      rw [wsFragmentCapacity, if_neg (by omega), wsDoubledCapacity_zero,
        doubleUntil_of_le (by omega), if_neg (by omega)]
    · exact ⟨cap, if_pos (by omega), rfl⟩
  have hshort : ¬ (wsEnding k).TooLong cfg := fun hlong => by
    have := hlong.2
    rw [wsEnding_length] at this
    omega
  have hlast : wsFrameStep cfg ⟨(wsFilling 1).payload, c⟩ (wsEnding k) =
      wsFrameFinal ⟨(wsFilling 1).payload, c⟩ (wsEnding k) := by
    rw [wsFrameStep_of_data hshort rfl]
    exact if_neg (by change ¬ true = false; simp)
  have hfirst : wsFrameStep cfg ⟨[], cap⟩ (wsFilling 1) = done ⟨(wsFilling 1).payload, c⟩ := by
    rw [wsFrameStep_filling (by omega), hc]
  simp only [wsFrameRun, hfirst, done_andThen, hlast, andThen_done]
  rw [wsFrameFinal, WsAssembly.emptied, if_neg (by simp [wsFilling]), wsFilling_length,
    wsEnding_length, hgrown]
  exact ⟨rfl, rfl⟩

theorem wsRunnable_unsettle {k : ℕ} (hlow : 0 < k) (hk : k < 2 ^ 63) {fs : List WsFrame}
    (h : WsRunnable fs) : WsRunnable ([wsFilling 1, wsEnding k] ++ fs) := by
  have hfirst : (wsFilling 1).Readable := wsFilling_readable (by norm_num)
  have hlast : (wsEnding k).Readable := ⟨fun _ => rfl, by rwa [wsEnding_length]⟩
  refine ⟨fun f hf => ?_, fun f hf => ?_⟩
  · simp only [List.cons_append, List.nil_append, List.mem_cons] at hf
    rcases hf with rfl | rfl | hf
    · exact hfirst
    · exact hlast
    · exact h.readable f hf
  · rcases List.eq_nil_or_concat fs with rfl | ⟨gs, g, rfl⟩
    · obtain rfl : wsEnding k = f := Option.some.inj hf
      rwa [← List.length_pos_iff, wsEnding_length]
    · rw [List.concat_eq_append, ← List.append_assoc, List.getLast?_concat] at hf
      exact h.last f (by rw [List.concat_eq_append, List.getLast?_concat]; exact hf)

/-- Every larger block is told from a fresh parser. -/
theorem exists_tell_fresh (hmax : 4096 ≤ cfg.maxFrameSize) {c : ℕ} (hc : 4096 < c) :
    ∃ fs, WsRunnable fs ∧
      (wsFrameRun cfg .fresh fs).failure ≠ (wsFrameRun cfg ⟨[], c⟩ fs).failure := by
  obtain ⟨n, hn⟩ := exists_largestGrown hmax
  by_cases hgrown : Grown n c
  · -- a short message makes the fresh parser's block the odd one
    have hodd : ¬ Grown n 4097 := by
      rintro (h | ⟨k, -, h⟩) <;> omega
    obtain ⟨fs, hfs, hne⟩ := hn.tell_odd hgrown (by omega : 4096 < 4097) hodd
    have hlarge : 4097 ≤ c := hc
    obtain ⟨hstate, hok⟩ := wsFrameRun_unsettle le_rfl hmax (Or.inl rfl : (0 : ℕ) = 0 ∨ 4096 < 0)
    obtain ⟨hstate', hok'⟩ := wsFrameRun_unsettle le_rfl hmax (Or.inr hc)
    rw [max_eq_right (by omega)] at hstate
    rw [max_eq_left hlarge] at hstate'
    refine ⟨_, wsRunnable_unsettle (by norm_num : 0 < 4096) (by norm_num) hfs, ?_⟩
    rw [WsAssembly.fresh, wsFrameRun_append, wsFrameRun_append, andThen_of_none hok,
      andThen_of_none hok', hstate, hstate']
    exact hne.symm
  · exact hn.tell_odd (Or.inl rfl) hc hgrown

/-! ### When the past does not matter -/

/-- A call on `s` after the stream `m` makes the callbacks and has the result of a call on `s` with
a fresh parser. -/
def WsForgets (cfg : WsConfig) (g g' : Memory UInt8) (m s : List UInt8) : Prop :=
  (wsParserFeed cfg grantAll (wsParserFeed cfg grantAll (wsParserFresh g) m).state s).output =
      (wsParserFeed cfg grantAll (wsParserFresh g') s).output ∧
    (wsParserFeed cfg grantAll (wsParserFeed cfg grantAll (wsParserFresh g) m).state s).failure =
      (wsParserFeed cfg grantAll (wsParserFresh g') s).failure

/-- After a stream that leaves the parser between messages, all later streams are read as by a
fresh parser exactly when no message of it has needed more than 4096 bytes for reassembly. -/
theorem wsForgets_iff (cfg : WsConfig) (g g' : Memory UInt8) {m : List UInt8}
    (hok : (wsParserFeed cfg grantAll (wsParserFresh g) m).failure = none)
    (hs : (wsParserFeed cfg grantAll (wsParserFresh g) m).state.state = .readOpcode)
    (hoff : (wsParserFeed cfg grantAll (wsParserFresh g) m).state.reassemblyOffset = 0) :
    (∀ s, WsForgets cfg g g' m s) ↔
      ∀ p b q, m = p ++ b :: q →
        (wsParserFeed cfg grantAll (wsParserFresh g) p).failure = none →
        ¬ WsOutgrows grantAll (wsParserFeed cfg grantAll (wsParserFresh g) p).state b := by
  have hclean := wsParserFeed_clean hok
  have hcap := wsParserFeed_capacity_iff (wsClean_wsParserFresh cfg g) hok
  have hnone : (wsParserFresh g).reassemblyCapacity ≤ 4096 := Nat.zero_le _
  rw [and_iff_right hnone] at hcap
  refine Iff.trans ?_ hcap
  constructor
  · intro hforgets
    by_contra hlarge
    rw [not_le] at hlarge
    have hmax : 4096 ≤ cfg.maxFrameSize :=
      hclean.block.elim (fun h => by omega) fun h => h.2
    obtain ⟨fs, hfs, hne⟩ := exists_tell_fresh hmax hlarge
    have hholds : Holds (wsParserFeed cfg grantAll (wsParserFresh g) m).state
        ⟨[], (wsParserFeed cfg grantAll (wsParserFresh g) m).state.reassemblyCapacity⟩ :=
      ⟨hs, (hclean.header hs).2.1, hoff, rfl, rfl⟩
    have hold := wsParserFeed_encodeAll_complete cfg hholds hfs.readable hfs.last
    have hnew := wsParserFeed_encodeAll_complete cfg (holds_wsParserFresh g') hfs.readable
      hfs.last
    exact hne (hnew.failure.symm.trans ((hforgets _).2.symm.trans hold.failure))
  · intro hsmall s
    have hrel := agree_wsParserFeed (hclean.agree_fresh hs hoff hsmall g') s
    exact ⟨hrel.output, hrel.failure⟩

/-- After a short message in two fragments a large fragment is read as by a fresh parser. -/
theorem wsForgets_short :
    WsForgets .default (fun _ => 0) (fun _ => 7) [0x01, 0x01, 0x41, 0x80, 0x01, 0x42]
      (wsEncodeAll [wsFilling 700000]) := by
  have hok : (wsParserFeed .default grantAll (wsParserFresh fun _ => 0)
      [0x01, 0x01, 0x41, 0x80, 0x01, 0x42]).failure = none := by decide +kernel
  have hcap := wsParserFeed_capacity_iff (wsClean_wsParserFresh .default _) hok
  exact (wsForgets_iff .default (fun _ => 0) (fun _ => 7) hok (by decide +kernel)
    (by decide +kernel)).mpr (hcap.mp (by decide +kernel)).2 _

/-- After a message of 600000 bytes a first fragment of 700000 bytes is refused, which a fresh
parser takes. -/
theorem wsForgets_not :
    (wsParserFeed .default grantAll (wsParserFresh fun _ => 0)
        (wsEncodeAll [wsFilling 1, wsEnding 599999])).failure = none ∧
      (wsParserFeed .default grantAll (wsParserFresh fun _ => 0)
        (wsEncodeAll [wsFilling 1, wsEnding 599999])).state.state = .readOpcode ∧
      (wsParserFeed .default grantAll (wsParserFresh fun _ => 0)
        (wsEncodeAll [wsFilling 1, wsEnding 599999])).state.reassemblyOffset = 0 ∧
      ¬ WsForgets .default (fun _ => 0) (fun _ => 0) (wsEncodeAll [wsFilling 1, wsEnding 599999])
        (wsEncodeAll [wsFilling 700000]) := by
  have hmax : WsConfig.default.maxFrameSize = 1048576 := rfl
  have hempty : WsRunnable [] := ⟨by simp, by simp⟩
  have hm := wsRunnable_unsettle (by norm_num : 0 < 599999) (by norm_num) hempty
  have hs := (wsRunnable_filling (by norm_num : 700000 < 2 ^ 63) (by norm_num)).1
  rw [List.append_nil] at hm
  have hfirst := wsParserFeed_encodeAll_complete .default (holds_wsParserFresh fun _ => 0)
    hm.readable hm.last
  obtain ⟨hstate, hok⟩ := wsFrameRun_unsettle (by norm_num : 4096 ≤ 599999)
    (by rw [hmax]; norm_num) (Or.inl rfl : (0 : ℕ) = 0 ∨ 4096 < 0)
  have hholds := hfirst.state (hfirst.failure.trans hok)
  rw [WsAssembly.fresh, hstate, (by norm_num : max 0 (1 + 599999) = 600000)] at hholds
  refine ⟨hfirst.failure.trans hok, hholds.state, hholds.offset, fun hforgets => ?_⟩
  have hold := wsParserFeed_encodeAll_complete .default hholds hs.readable hs.last
  have hnew := wsParserFeed_encodeAll_complete .default (holds_wsParserFresh fun _ => 0)
    hs.readable hs.last
  have hrefused : wsFragmentCapacity .default 600000 700000 = none := by
    rw [wsFragmentCapacity, if_neg (by norm_num), wsDoubledCapacity_pos (by norm_num),
      doubleUntil_of_le (by norm_num), if_pos (by rw [hmax]; norm_num)]
  have hgrown : 4096 * 2 ^ 8 ≤ WsConfig.default.maxFrameSize := le_rfl
  obtain ⟨c, htaken, -⟩ := wsFragmentCapacity_grown hgrown (Or.inl rfl : Grown 8 0)
    (by norm_num : 700000 ≤ 4096 * 2 ^ 8)
  have hsame := hforgets.2
  rw [hold.failure, hnew.failure] at hsame
  simp [wsFrameRun, WsAssembly.fresh, wsFrameStep_filling, hmax, hrefused, htaken] at hsame

end AbstractHttp.WebSocket
