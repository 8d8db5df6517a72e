import AbstractHttp.WebSocket.MachineBounds

/-!
# Runs of the machine

The turns put together: the loop of a call ends because every turn makes progress,
and a call leaves a bounded context for the next one whether or not it fails.  So
any calls on a fresh parser end, do what the parser does and stay in bounds.
-/
namespace AbstractHttp.WebSocket
open Library Outcome

section Fuel
variable {cfg : WsConfig} {realloc : WsRealloc} {fuel fuel' : ℕ} {m : MachineCtx}
  {chunk : List UInt8}

theorem machineStoreFragment_mono {o : MachineOutcome} (hle : fuel ≤ fuel')
    (h : machineStoreFragment cfg realloc fuel m = some o) :
    machineStoreFragment cfg realloc fuel' m = some o := by
  unfold machineStoreFragment at h ⊢
  split at h
  · rwa [if_pos (by assumption)]
  · rw [if_neg (by assumption)]
    split at h
    · obtain ⟨newCap, hdouble, ho⟩ := Option.map_eq_some_iff.mp h
      rw [if_pos (by assumption), machineDouble, whileFuel_mono hdouble hle]
      exact congrArg some ho
    · rwa [if_neg (by assumption)]

theorem machineDeliver_mono {o : MachineOutcome} (hle : fuel ≤ fuel')
    (h : machineDeliver cfg realloc fuel m = some o) :
    machineDeliver cfg realloc fuel' m = some o := by
  unfold machineDeliver at h ⊢
  split at h
  · rwa [if_pos (by assumption)]
  · rw [if_neg (by assumption)]
    split at h
    · rwa [if_pos (by assumption)]
    · rw [if_neg (by assumption)]
      split at h
      · rw [if_pos (by assumption)]
        exact machineStoreFragment_mono hle h
      · rwa [if_neg (by assumption)]

theorem machineReadPayload_mono {t : TurnOutcome} {i : ℕ} (hle : fuel ≤ fuel')
    (h : machineReadPayload cfg realloc fuel m chunk i = some t) :
    machineReadPayload cfg realloc fuel' m chunk i = some t := by
  unfold machineReadPayload at h ⊢
  split at h
  · rwa [if_pos (by assumption)]
  · rw [if_neg (by assumption)]
    simp only at h ⊢
    split at h
    · obtain ⟨o, hcomplete, rfl⟩ := Option.map_eq_some_iff.mp h
      obtain ⟨o, hdeliver, rfl⟩ := Option.map_eq_some_iff.mp hcomplete
      rw [if_pos (by assumption), machineFrameComplete, machineDeliver_mono hle hdeliver]
      rfl
    · rwa [if_neg (by assumption)]

/-- More fuel does not change what a turn does. -/
theorem machineTurn_mono {s : MachineCtx × ℕ} {t : TurnOutcome} (hle : fuel ≤ fuel')
    (h : machineTurn cfg realloc fuel chunk s = some t) :
    machineTurn cfg realloc fuel' chunk s = some t := by
  unfold machineTurn at h ⊢
  cases hs : s.1.state with
  | readPayload =>
    rw [hs] at h
    exact machineReadPayload_mono hle h
  | readOpcode | readLen | readExtLen16 | readExtLen64 | readMask => rwa [hs] at h

theorem machineLoop_mono {t : TurnOutcome} (hle : fuel ≤ fuel')
    (h : machineLoop cfg realloc fuel chunk m = some t) :
    machineLoop cfg realloc fuel' chunk m = some t := by
  refine whileFuel_mono_body (fun o u hturn => ?_) h hle
  obtain ⟨t, ht, rfl⟩ := Option.map_eq_some_iff.mp hturn
  rw [machineTurn_mono hle ht, Option.map_some]

theorem machineFeed_mono {call : WsFeedCall} {o : MachineOutcome} (hle : fuel ≤ fuel')
    (h : machineFeed cfg fuel call m = some o) : machineFeed cfg fuel' call m = some o := by
  unfold machineFeed at h ⊢
  cases hchunk : call.chunk with
  | none => rwa [hchunk] at h
  | some chunk =>
    rw [hchunk] at h
    obtain ⟨t, hloop, rfl⟩ := Option.map_eq_some_iff.mp h
    simp only [machineLoop_mono hle hloop, Option.map_some]

/-- More fuel does not change what the calls do. -/
theorem machineCalls_mono {calls : List WsFeedCall} {run : MachineCtx × List WsEffect}
    (hle : fuel ≤ fuel') (h : machineCalls cfg fuel m calls = some run) :
    machineCalls cfg fuel' m calls = some run := by
  induction calls generalizing m run with
  | nil => exact h
  | cons call calls ih =>
    rw [machineCalls] at h ⊢
    obtain ⟨o, hfeed, hrest⟩ := Option.bind_eq_some_iff.mp h
    obtain ⟨rest, hcalls, rfl⟩ := Option.map_eq_some_iff.mp hrest
    rw [machineFeed_mono hle hfeed, Option.bind_some, ih hcalls, Option.map_some]

end Fuel

section Loop
variable {cfg : WsConfig} {realloc : WsRealloc} {fuel : ℕ} {ctx : WsParserCtx}
  {chunk : List UInt8} {i : ℕ}

theorem drop_eq_getD_cons (hi : i < chunk.length) :
    chunk.drop i = chunk.getD i 0 :: chunk.drop (i + 1) := by
  rw [List.drop_eq_getElem_cons hi]
  simp [hi]

/-- Outside the payload a turn reads one byte. -/
theorem simulates_byteTurn (cfg : WsConfig) (realloc : WsRealloc) (fuel : ℕ)
    (h : WsCtxBounded ctx) (hs : ctx.state ≠ .readPayload) (hi : i < chunk.length)
    (hlen : chunk.length < 2 ^ 64) :
    ∃ t, machineTurn cfg realloc fuel chunk (ctx.machine, i) = some t ∧
      SimulatesTurn t (wsParserIterate cfg realloc ctx (chunk.getD i 0) (chunk.drop (i + 1)))
        (i + 1) := by
  simp only [machineTurn, wsParserIterate, WsParserCtx.machine_state]
  cases hstate : ctx.state with
  | readOpcode => exact ⟨_, rfl, simulates_readOpcode h hstate hi hlen⟩
  | readLen => exact ⟨_, rfl, simulates_readLen h hstate hi hlen⟩
  | readExtLen16 => exact ⟨_, rfl, simulates_readExtLen16 h hstate hi hlen⟩
  | readExtLen64 => exact ⟨_, rfl, simulates_readExtLen64 h hstate hi hlen⟩
  | readMask => exact ⟨_, rfl, simulates_readMask h hstate hi hlen⟩
  | readPayload => exact absurd hstate hs

/-- A turn on a bounded context moves the index to what the parser leaves unread. -/
theorem simulates_turn (cfg : WsConfig) (hrealloc : RefusesHuge realloc) (h : WsCtxBounded ctx)
    (hfuel : 64 ≤ fuel) (hi : i < chunk.length) (hlen : chunk.length < 2 ^ 64) :
    ∃ t next, machineTurn cfg realloc fuel chunk (ctx.machine, i) = some t ∧
      SimulatesTurn t (wsParserIterate cfg realloc ctx (chunk.getD i 0) (chunk.drop (i + 1)))
        next ∧
      chunk.drop next = wsUnread ctx (chunk.getD i 0) (chunk.drop (i + 1)) := by
  have hcons := drop_eq_getD_cons hi
  by_cases hs : ctx.state = .readPayload
  · obtain ⟨t, hturn, hsim⟩ := simulates_readPayload cfg hrealloc h hs hfuel hi hlen
    refine ⟨t, i + wsToCopy ctx (chunk.drop i).length, ?_, ?_, ?_⟩
    · simpa [machineTurn, hs] using hturn
    · rw [wsParserIterate_payload hs, ← hcons]
      exact hsim
    · rw [wsUnread, if_pos hs, ← hcons, List.drop_drop, hcons, List.length_cons]
  · obtain ⟨t, hturn, hsim⟩ := simulates_byteTurn cfg realloc fuel h hs hi hlen
    exact ⟨t, i + 1, hturn, hsim, by rw [wsUnread, if_neg hs]⟩

/-- What the turns of a loop that started in `start` have done: the rest of the chunk remains. -/
def LoopInvariant (cfg : WsConfig) (realloc : WsRealloc) (start : WsParserCtx)
    (chunk : List UInt8) (o : TurnOutcome) : Prop :=
  ∃ (o' : WsOutcome) (next : ℕ), SimulatesTurn o o' next ∧
    wsParserFeed cfg realloc start chunk =
      o'.andThen fun ctx => wsParserFeed cfg realloc ctx (chunk.drop next)

/-- What `wsMeasure` counts, and one more until the loop has failed. -/
def loopVariant (chunk : List UInt8) (o : TurnOutcome) : ℕ :=
  if o.failure = none then
    2 * (chunk.length - o.state.2) + (if o.state.1.state = .readPayload then 1 else 0) + 1
  else 0

theorem loopVariant_le (chunk : List UInt8) (o : TurnOutcome) :
    loopVariant chunk o ≤ 2 * chunk.length + 2 := by
  unfold loopVariant
  split
  · split <;> omega
  · omega

theorem SimulatesTurn.andThen {o t : TurnOutcome} {o' : WsOutcome} {next next' : ℕ}
    {k : WsParserCtx → WsOutcome} (h : SimulatesTurn o o' next) (hok : o'.failure = none)
    (ht : SimulatesTurn t (k o'.state) next') :
    SimulatesTurn (o.andThen fun _ => t) (o'.andThen k) next' := by
  have hok' : o.failure = none := h.simulates.failure.trans hok
  rw [andThen_of_none hok, andThen_of_none hok']
  exact ⟨⟨ht.simulates.state, by simp [h.simulates.callbacks, ht.simulates.callbacks],
    ht.simulates.failure, (inBoundsAll_append _ _).mpr ⟨h.simulates.inBounds,
      ht.simulates.inBounds⟩, ht.simulates.bounded⟩, ht.index⟩

/-- A turn keeps the invariant and makes progress. -/
theorem loopInvariant_turn (cfg : WsConfig) (hrealloc : RefusesHuge realloc) (hfuel : 64 ≤ fuel)
    (hlen : chunk.length < 2 ^ 64) {start : WsParserCtx} {o : TurnOutcome}
    (hinv : LoopInvariant cfg realloc start chunk o) (hok : o.failure = none)
    (hi : o.state.2 < chunk.length) :
    ∃ t, machineTurn cfg realloc fuel chunk o.state = some t ∧
      LoopInvariant cfg realloc start chunk (o.andThen fun _ => t) ∧
      loopVariant chunk (o.andThen fun _ => t) < loopVariant chunk o := by
  obtain ⟨o', next, hsim, hfeed⟩ := hinv
  have hok' : o'.failure = none := hsim.simulates.failure.symm.trans hok
  obtain rfl := hsim.index hok'
  have hstate : o.state = (o'.state.machine, o.state.2) := Prod.ext hsim.simulates.state rfl
  obtain ⟨t, next, hturn, hsimTurn, hdrop⟩ :=
    simulates_turn cfg hrealloc hsim.simulates.bounded hfuel hi hlen
  have hsimNext := hsim.andThen (k := fun ctx =>
    wsParserIterate cfg realloc ctx (chunk.getD o.state.2 0) (chunk.drop (o.state.2 + 1)))
    hok' hsimTurn
  refine ⟨t, by rw [hstate]; exact hturn, ⟨_, next, hsimNext, ?_⟩, ?_⟩
  · rw [andThen_assoc, hfeed]
    refine andThen_congr fun _ => ?_
    rw [drop_eq_getD_cons hi, wsParserFeed_cons, hdrop]
  · rw [loopVariant, loopVariant, andThen_of_none hok, if_pos hok]
    by_cases hokTurn : t.failure = none
    · have hokTurn' := hsimTurn.simulates.failure.symm.trans hokTurn
      have hprogress := wsParserIterate_progress cfg realloc o'.state _ _ hokTurn'
      rw [← hdrop, ← drop_eq_getD_cons hi] at hprogress
      simp only [wsMeasure, List.length_drop] at hprogress
      have hleft : t.state.1 = _ := hsimTurn.simulates.state
      have hfound : o.state.1 = _ := hsim.simulates.state
      simp only [if_pos hokTurn, hsimTurn.index hokTurn', hleft, hfound,
        WsParserCtx.machine_state]
      exact Nat.succ_lt_succ hprogress
    · rw [if_neg hokTurn]
      exact Nat.succ_pos _

/-- With two turns for every byte and enough for the doubling, the loop ends and has done what the
parser does. -/
theorem machineLoop_simulates (cfg : WsConfig) (hrealloc : RefusesHuge realloc)
    (h : WsCtxBounded ctx) (hlen : chunk.length < 2 ^ 64)
    (hfuel : 2 * chunk.length + 64 ≤ fuel) :
    ∃ t, machineLoop cfg realloc fuel chunk ctx.machine = some t ∧
      Simulates ⟨t.state.1, t.output, t.failure⟩ (wsParserFeed cfg realloc ctx chunk) := by
  have hstart : LoopInvariant cfg realloc ctx chunk (done (ctx.machine, 0)) :=
    ⟨done ctx, 0, simulatesTurn_done rfl h rfl inBoundsAll_nil, rfl⟩
  have hvariant : loopVariant chunk (done (ctx.machine, 0)) < fuel :=
    (loopVariant_le _ _).trans_lt (by omega)
  have hturn (o : TurnOutcome) (hinv : LoopInvariant cfg realloc ctx chunk o)
      (hcond : (o.failure.isNone && decide (o.state.2 < chunk.length)) = true) :
      ∃ u, ((machineTurn cfg realloc fuel chunk o.state).map fun t => o.andThen fun _ => t) =
          some u ∧ LoopInvariant cfg realloc ctx chunk u ∧
        loopVariant chunk u < loopVariant chunk o := by
    obtain ⟨hok, hi⟩ : o.failure = none ∧ o.state.2 < chunk.length := by simpa using hcond
    obtain ⟨t, hsome, hnext, hless⟩ :=
      loopInvariant_turn cfg hrealloc (show 64 ≤ fuel by omega) hlen hinv hok hi
    exact ⟨_, by rw [hsome, Option.map_some], hnext, hless⟩
  obtain ⟨t, hloop, ⟨o', next, hsim, hfeed⟩, hcond⟩ :=
    whileFuel_returns _ _ (loopVariant chunk) hturn hstart hvariant
  refine ⟨t, hloop, ?_⟩
  suffices hdone : wsParserFeed cfg realloc ctx chunk = o' from hdone ▸ hsim.simulates
  cases hf : o'.failure with
  | some e => rw [hfeed, andThen_of_failure (by simp [hf])]
  | none =>
    have hok : t.failure = none := hsim.simulates.failure.trans hf
    have hend : chunk.length ≤ t.state.2 := by simpa [hok] using hcond
    rw [hsim.index hf] at hend
    simp only [hfeed, List.drop_eq_nil_of_le hend, wsParserFeed_nil, andThen_done]

end Loop

/-- A call as the parser takes it. -/
def WsFeedCall.feed (cfg : WsConfig) (call : WsFeedCall) (ctx : WsParserCtx) : WsOutcome :=
  match call.chunk with
  | none => Outcome.fail ctx [] .inval
  | some chunk => wsParserFeed cfg call.realloc ctx chunk

/-- Fuel that is enough for the call. -/
def WsFeedCall.enough (call : WsFeedCall) : ℕ := 2 * (call.chunk.getD []).length + 64

theorem machineFeed_simulates (cfg : WsConfig) {fuel : ℕ} {call : WsFeedCall}
    {ctx : WsParserCtx} (h : WsCtxBounded ctx) (hfuel : call.enough ≤ fuel) :
    ∃ o, machineFeed cfg fuel call ctx.machine = some o ∧ Simulates o (call.feed cfg ctx) := by
  unfold WsFeedCall.enough at hfuel
  unfold machineFeed WsFeedCall.feed
  cases hchunk : call.chunk with
  | none => exact ⟨_, rfl, rfl, rfl, rfl, inBoundsAll_nil, h⟩
  | some chunk =>
    have hlen := call.length_lt chunk hchunk
    rw [hchunk, Option.getD_some] at hfuel
    obtain ⟨t, hloop, hsim⟩ := machineLoop_simulates cfg call.refuses h hlen hfuel
    exact ⟨_, by simp only [hloop, Option.map_some], hsim⟩

/-- Successive calls as the parser takes them. -/
def wsParserCalls (cfg : WsConfig) :
    WsParserCtx → List WsFeedCall → WsParserCtx × List WsCallback
  | ctx, [] => (ctx, [])
  | ctx, call :: calls =>
    ((wsParserCalls cfg (call.feed cfg ctx).state calls).1,
      (call.feed cfg ctx).output ++ (wsParserCalls cfg (call.feed cfg ctx).state calls).2)

/-- The calls end, leave what the parser leaves, make its callbacks and stay in bounds. -/
theorem machineCalls_simulates (cfg : WsConfig) {fuel : ℕ} {calls : List WsFeedCall}
    {ctx : WsParserCtx} (h : WsCtxBounded ctx) (hfuel : ∀ call ∈ calls, call.enough ≤ fuel) :
    ∃ effects, machineCalls cfg fuel ctx.machine calls =
        some ((wsParserCalls cfg ctx calls).1.machine, effects) ∧
      callbacksOf effects = (wsParserCalls cfg ctx calls).2 ∧ InBoundsAll effects := by
  induction calls generalizing ctx with
  | nil => exact ⟨[], rfl, rfl, inBoundsAll_nil⟩
  | cons call calls ih =>
    obtain ⟨hcall, hrest⟩ := List.forall_mem_cons.mp hfuel
    obtain ⟨o, hfeed, hsim⟩ := machineFeed_simulates cfg h hcall
    obtain ⟨effects, hcalls, hcallbacks, hin⟩ := ih hsim.bounded hrest
    refine ⟨o.output ++ effects, ?_, ?_, (inBoundsAll_append _ _).mpr ⟨hsim.inBounds, hin⟩⟩
    · rw [machineCalls, hfeed, Option.bind_some, hsim.state, hcalls]
      rfl
    · rw [callbacksOf_append, hsim.callbacks, hcallbacks, wsParserCalls]

/-- A length of `2 ^ 63` is refused, and the next byte makes `realloc` refuse it once more. -/
example :
    (machineCalls .default 84 (wsParserFresh fun _ => 0).machine
      [⟨some [0x82, 0x7F, 0x80, 0, 0, 0, 0, 0, 0, 0], by simp, fun _ _ => false, by simp⟩,
        ⟨some [0x41], by simp, fun _ _ => false, by simp⟩]).map (fun run => callbacksOf run.2) =
      some [.onError ErrorCode.msgSize.value, .onError enomem] := by
  rfl

/-- Whatever is fed to a fresh parser and whatever `realloc` refuses, every call ends, and every
access is in bounds. -/
theorem machineCalls_inBounds (cfg : WsConfig) (garbage : Memory UInt8)
    (calls : List WsFeedCall) :
    ∃ (enough : ℕ) (m : MachineCtx) (effects : List WsEffect),
      (∀ fuel, enough ≤ fuel →
        machineCalls cfg fuel (wsParserFresh garbage).machine calls = some (m, effects)) ∧
      ∀ a, .access a ∈ effects → a.InBounds := by
  have hfuel : ∀ call ∈ calls, call.enough ≤ (calls.map WsFeedCall.enough).sum :=
    fun call hcall => List.single_le_sum (by simp) _ (List.mem_map_of_mem hcall)
  obtain ⟨effects, hcalls, -, hin⟩ :=
    machineCalls_simulates cfg (wsCtxBounded_wsParserFresh garbage) hfuel
  exact ⟨_, _, effects, fun fuel hle => machineCalls_mono hle hcalls, hin⟩

end AbstractHttp.WebSocket
