import AbstractHttp.WebSocket.Parser

/-!
# The parser does not see where its stream is cut

All states but one look at a single byte. The payload state copies in bulk, and
two copies in a row leave what one copy of both pieces leaves, capacity, mask
phase and bytes beyond the payload included.
-/
namespace AbstractHttp.WebSocket
open Library Outcome

variable {cfg : WsConfig} {realloc : WsRealloc}

theorem wsParserIterate_header {ctx : WsParserCtx} (h : ctx.state ≠ .readPayload) (b : UInt8)
    (bs : List UInt8) :
    wsParserIterate cfg realloc ctx b bs = wsParserIterate cfg realloc ctx b [] := by
  cases hs : ctx.state <;> simp_all [wsParserIterate]

theorem wsUnread_header {ctx : WsParserCtx} (h : ctx.state ≠ .readPayload) (b : UInt8)
    (bs : List UInt8) : wsUnread ctx b bs = bs := by
  rw [wsUnread, if_neg h]

/-- A chunk that the frame has room for is taken whole. -/
theorem wsToCopy_of_le {ctx : WsParserCtx} {n : ℕ}
    (h : n ≤ ctx.currentFrame.payloadLen - ctx.payloadOffset) : wsToCopy ctx n = n := by
  rw [wsToCopy]
  exact min_eq_left h

theorem wsToCopy_append (ctx : WsParserCtx) (c d : List UInt8)
    (hc : c.length ≤ ctx.currentFrame.payloadLen - ctx.payloadOffset) :
    wsToCopy ctx (c ++ d).length =
      c.length + wsToCopy (wsCopyPayload (wsGrowPayload ctx) c) d.length := by
  change _ = c.length + min d.length (ctx.currentFrame.payloadLen -
    (ctx.payloadOffset + wsToCopy ctx c.length))
  rw [wsToCopy_of_le hc, List.length_append]
  simp only [wsToCopy]
  omega

/-- The mask goes on in the second piece where it was left in the first one. -/
theorem wsPiece_append (ctx : WsParserCtx) (c d : List UInt8)
    (hc : c.length ≤ ctx.currentFrame.payloadLen - ctx.payloadOffset) :
    wsPiece (wsGrowPayload ctx) (c ++ d) = wsPiece (wsGrowPayload ctx) c ++
      wsPiece (wsGrowPayload (wsCopyPayload (wsGrowPayload ctx) c)) d := by
  have hfirst : c.take (wsToCopy ctx c.length) = c := by
    rw [wsToCopy_of_le hc, List.take_length]
  have hboth : (c ++ d).take (wsToCopy ctx (c ++ d).length) =
      c ++ d.take (wsToCopy (wsCopyPayload (wsGrowPayload ctx) c) d.length) := by
    rw [wsToCopy_append ctx c d hc, List.take_length_add_append]
  change (if ctx.currentFrame.mask then xorMask ctx.currentFrame.maskingKey ctx.payloadOffset
      ((c ++ d).take (wsToCopy ctx (c ++ d).length))
      else (c ++ d).take (wsToCopy ctx (c ++ d).length)) =
    (if ctx.currentFrame.mask then xorMask ctx.currentFrame.maskingKey ctx.payloadOffset
      (c.take (wsToCopy ctx c.length)) else c.take (wsToCopy ctx c.length)) ++
    (if ctx.currentFrame.mask then xorMask ctx.currentFrame.maskingKey
      (ctx.payloadOffset + wsToCopy ctx c.length)
      (d.take (wsToCopy (wsCopyPayload (wsGrowPayload ctx) c) d.length))
      else d.take (wsToCopy (wsCopyPayload (wsGrowPayload ctx) c) d.length))
  rw [hfirst, wsToCopy_of_le hc, hboth]
  cases ctx.currentFrame.mask with
  | false => rfl
  | true => exact xorMask_append _ _ _ _

/-- Copying two pieces one after the other is copying both at once. -/
theorem wsCopyPayload_append (ctx : WsParserCtx) (c d : List UInt8)
    (hc : c.length ≤ ctx.currentFrame.payloadLen - ctx.payloadOffset) :
    wsCopyPayload (wsGrowPayload (wsCopyPayload (wsGrowPayload ctx) c)) d =
      wsCopyPayload (wsGrowPayload ctx) (c ++ d) := by
  apply WsParserCtx.ext
  case payloadBuffer =>
    change (ctx.payloadBuffer.write ctx.payloadOffset (wsPiece (wsGrowPayload ctx) c)).write
      (ctx.payloadOffset + wsToCopy (wsGrowPayload ctx) c.length)
      (wsPiece (wsGrowPayload (wsCopyPayload (wsGrowPayload ctx) c)) d) =
        ctx.payloadBuffer.write ctx.payloadOffset (wsPiece (wsGrowPayload ctx) (c ++ d))
    rw [wsPiece_append ctx c d hc, Memory.write_append, wsPiece_length]
  case payloadCapacity =>
    change max (max ctx.payloadCapacity ctx.currentFrame.payloadLen)
      ctx.currentFrame.payloadLen = max ctx.payloadCapacity ctx.currentFrame.payloadLen
    omega
  case payloadOffset =>
    change ctx.payloadOffset + wsToCopy ctx c.length +
      wsToCopy (wsCopyPayload (wsGrowPayload ctx) c) d.length =
        ctx.payloadOffset + wsToCopy ctx (c ++ d).length
    rw [wsToCopy_append ctx c d hc, wsToCopy_of_le hc, Nat.add_assoc]
  all_goals rfl

/-- A chunk that holds all the frame still lacks: what follows it is not looked at. -/
theorem wsReadPayload_full (cfg : WsConfig) (realloc : WsRealloc) {ctx : WsParserCtx}
    (c d : List UInt8)
    (hc : ctx.currentFrame.payloadLen - ctx.payloadOffset ≤ c.length) :
    wsToCopy ctx (c ++ d).length = wsToCopy ctx c.length ∧
      wsReadPayload cfg realloc ctx (c ++ d) = wsReadPayload cfg realloc ctx c := by
  have hlen : wsToCopy ctx (c ++ d).length = wsToCopy ctx c.length := by
    rw [List.length_append]
    simp only [wsToCopy]
    omega
  have hle : wsToCopy ctx c.length ≤ c.length := Nat.min_le_left _ _
  have hcopy : wsCopyPayload (wsGrowPayload ctx) (c ++ d) =
      wsCopyPayload (wsGrowPayload ctx) c := by
    have hlen' : wsToCopy (wsGrowPayload ctx) (c ++ d).length =
      wsToCopy (wsGrowPayload ctx) c.length := hlen
    have htake : (c ++ d).take (wsToCopy (wsGrowPayload ctx) c.length) =
        c.take (wsToCopy (wsGrowPayload ctx) c.length) := List.take_append_of_le_length hle
    simp only [wsCopyPayload, wsPiece, hlen', htake]
  exact ⟨hlen, by simp only [wsReadPayload, hcopy]⟩

/-- A chunk that the frame outlasts does not complete it. -/
theorem wsCopyPayload_unfinished {ctx : WsParserCtx} {c : List UInt8}
    (hc : c.length < ctx.currentFrame.payloadLen - ctx.payloadOffset) :
    (wsCopyPayload (wsGrowPayload ctx) c).payloadOffset ≠
      (wsCopyPayload (wsGrowPayload ctx) c).currentFrame.payloadLen := by
  change ctx.payloadOffset + wsToCopy ctx c.length ≠ ctx.currentFrame.payloadLen
  simp only [wsToCopy]
  omega

/-- It is only copied, if there is room for the frame. -/
theorem wsReadPayload_unfinished {ctx : WsParserCtx} {c : List UInt8}
    (hc : c.length < ctx.currentFrame.payloadLen - ctx.payloadOffset)
    (hok : (wsReadPayload cfg realloc ctx c).failure = none) :
    wsReadPayload cfg realloc ctx c = done (wsCopyPayload (wsGrowPayload ctx) c) := by
  unfold wsReadPayload at hok ⊢
  split at hok
  · cases hok
  · rename_i hgrant
    rw [if_neg hgrant, if_neg (wsCopyPayload_unfinished hc)]

/-- The next chunk then finds the payload state as one chunk would have. -/
theorem wsReadPayload_append {ctx : WsParserCtx} (c d : List UInt8)
    (hc : c.length < ctx.currentFrame.payloadLen - ctx.payloadOffset) :
    wsReadPayload cfg realloc ctx (c ++ d) = (wsReadPayload cfg realloc ctx c).andThen
      fun ctx' => wsReadPayload cfg realloc ctx' d := by
  by_cases hgrant : ctx.currentFrame.payloadLen > ctx.payloadCapacity ∧
      realloc .payload ctx.currentFrame.payloadLen = false
  · rw [wsReadPayload, if_pos hgrant, wsReadPayload, if_pos hgrant]
    rfl
  · have hroom : ¬ ((wsCopyPayload (wsGrowPayload ctx) c).currentFrame.payloadLen >
        (wsCopyPayload (wsGrowPayload ctx) c).payloadCapacity ∧
        realloc .payload (wsCopyPayload (wsGrowPayload ctx) c).currentFrame.payloadLen = false) := by
      change ¬ (ctx.currentFrame.payloadLen >
        max ctx.payloadCapacity ctx.currentFrame.payloadLen ∧ _)
      omega
    have hcopied : wsReadPayload cfg realloc ctx c =
        done (wsCopyPayload (wsGrowPayload ctx) c) := by
      rw [wsReadPayload, if_neg hgrant, if_neg (wsCopyPayload_unfinished hc)]
    rw [hcopied, done_andThen, wsReadPayload, wsReadPayload, if_neg hgrant, if_neg hroom,
      wsCopyPayload_append ctx c d hc.le]

/-- What two chunks leave unread is what they leave as one. -/
theorem wsUnread_append {ctx : WsParserCtx} (hs : ctx.state = .readPayload) (b y : UInt8)
    (bs ys : List UInt8)
    (hc : (b :: bs).length < ctx.currentFrame.payloadLen - ctx.payloadOffset) :
    wsUnread ctx b (bs ++ y :: ys) =
      wsUnread (wsCopyPayload (wsGrowPayload ctx) (b :: bs)) y ys := by
  have hs' : (wsCopyPayload (wsGrowPayload ctx) (b :: bs)).state = .readPayload := hs
  have hdrop : wsToCopy ctx ((bs ++ y :: ys).length + 1) = (b :: bs).length +
      wsToCopy (wsCopyPayload (wsGrowPayload ctx) (b :: bs)) (ys.length + 1) := by
    change _ = (b :: bs).length + min (ys.length + 1) (ctx.currentFrame.payloadLen -
      (ctx.payloadOffset + min (b :: bs).length
        (ctx.currentFrame.payloadLen - ctx.payloadOffset)))
    simp only [wsToCopy, List.length_append, List.length_cons] at hc ⊢
    omega
  rw [wsUnread, wsUnread, if_pos hs, if_pos hs', hdrop, ← List.cons_append,
    List.drop_length_add_append]

/-- A frame that ends within the first part: the turn is that of the first part alone. -/
theorem wsParserIterate_within {ctx : WsParserCtx} (hs : ctx.state = .readPayload) (b : UInt8)
    (bs d : List UInt8)
    (hc : ctx.currentFrame.payloadLen - ctx.payloadOffset ≤ (b :: bs).length) :
    wsParserIterate cfg realloc ctx b (bs ++ d) = wsParserIterate cfg realloc ctx b bs ∧
      wsUnread ctx b (bs ++ d) = wsUnread ctx b bs ++ d := by
  obtain ⟨hlen, hread⟩ := wsReadPayload_full cfg realloc (b :: bs) d hc
  constructor
  · rw [wsParserIterate_payload hs, wsParserIterate_payload hs, ← List.cons_append, hread]
  · simp only [List.cons_append, List.length_cons] at hlen
    simp only [wsUnread, if_pos hs, hlen, ← List.cons_append]
    exact List.drop_append_of_le_length (Nat.min_le_left _ _)

theorem wsUnread_unfinished {ctx : WsParserCtx} (hs : ctx.state = .readPayload) (b : UInt8)
    (bs : List UInt8)
    (hc : (b :: bs).length < ctx.currentFrame.payloadLen - ctx.payloadOffset) :
    wsUnread ctx b bs = [] := by
  simp only [wsUnread, if_pos hs]
  apply List.drop_of_length_le
  simp only [wsToCopy, List.length_cons] at hc ⊢
  omega

/-- A frame that outlasts the first part goes on in the second. -/
theorem wsParserFeed_across {ctx : WsParserCtx} (hs : ctx.state = .readPayload) (b y : UInt8)
    (bs ys : List UInt8)
    (hc : (b :: bs).length < ctx.currentFrame.payloadLen - ctx.payloadOffset) :
    ((wsParserIterate cfg realloc ctx b (bs ++ y :: ys)).andThen fun ctx' =>
        wsParserFeed cfg realloc ctx' (wsUnread ctx b (bs ++ y :: ys))) =
      (wsParserIterate cfg realloc ctx b bs).andThen fun ctx' =>
        wsParserFeed cfg realloc ctx' (y :: ys) := by
  have hs' : (wsCopyPayload (wsGrowPayload ctx) (b :: bs)).state = .readPayload := hs
  rw [wsParserIterate_payload hs, wsParserIterate_payload hs, ← List.cons_append,
    wsReadPayload_append _ _ hc, andThen_assoc]
  refine andThen_congr fun hok => ?_
  rw [wsReadPayload_unfinished hc hok, wsUnread_append hs b y bs ys hc]
  change (wsReadPayload cfg realloc _ (y :: ys)).andThen _ =
    wsParserFeed cfg realloc (wsCopyPayload (wsGrowPayload ctx) (b :: bs)) (y :: ys)
  rw [wsParserFeed_cons, wsParserIterate_payload hs']
  rfl

/-- Reading a chunk is reading its first part and then, unless that failed, the rest. -/
theorem wsParserFeed_append (ctx : WsParserCtx) (c d : List UInt8) :
    wsParserFeed cfg realloc ctx (c ++ d) =
      (wsParserFeed cfg realloc ctx c).andThen (wsParserFeed cfg realloc · d) := by
  induction hm : wsMeasure ctx c using Nat.strong_induction_on generalizing ctx c with
  | _ m ih =>
    subst hm
    cases c with
    | nil => rw [wsParserFeed_nil, done_andThen, List.nil_append]
    | cons b bs =>
      have hstep (hok : (wsParserIterate cfg realloc ctx b bs).failure = none) :=
        ih _ (wsParserIterate_progress cfg realloc ctx b bs hok) _ _ rfl
      rw [List.cons_append, wsParserFeed_cons, wsParserFeed_cons, andThen_assoc]
      by_cases hs : ctx.state = .readPayload
      · by_cases hfull : ctx.currentFrame.payloadLen - ctx.payloadOffset ≤ (b :: bs).length
        · obtain ⟨hiter, hunread⟩ := wsParserIterate_within hs b bs d hfull
          rw [hiter, hunread]
          exact andThen_congr hstep
        · have hunread := wsUnread_unfinished hs b bs (not_le.mp hfull)
          simp only [hunread, wsParserFeed_nil, done_andThen]
          cases d with
          | nil => simp only [List.append_nil, hunread, wsParserFeed_nil]
          | cons y ys => exact wsParserFeed_across hs b y bs ys (not_le.mp hfull)
      · rw [wsParserIterate_header hs b (bs ++ d), wsUnread_header hs,
          wsParserIterate_header hs b bs, wsUnread_header hs]
        rw [wsParserIterate_header hs b bs, wsUnread_header hs] at hstep
        exact andThen_congr hstep

/-- `ws_parser_feed` is an incremental reader of its stream. -/
theorem wsParserFeed_incremental (cfg : WsConfig) (realloc : WsRealloc) :
    Incremental (wsParserFeed cfg realloc) :=
  ⟨wsParserFeed_nil cfg realloc, wsParserFeed_append⟩

end AbstractHttp.WebSocket
