import AbstractHttp.ErrorCode
import AbstractHttp.Library.LinkedQueue
import AbstractHttp.Library.Schedule

/-!
# The message bus of the actors

A handler may send messages and process the bus while a message is handed to it, so calls of
`abstract_http_message_bus_process` nest. Every call of a handler is a frame, and control is with
the innermost handler, or with the caller where there is none, unless a drain loop runs.
-/
namespace AbstractHttp.Concurrency
open Library

variable {ρ δ : Type*}

/-- `struct AbstractHttpMessage`, over any actors and payloads; no receiver is NULL. -/
structure Message (ρ δ : Type*) where
  type : ℤ
  payload : δ
  sender : Option ρ
  receiver : Option ρ
  deriving DecidableEq, Repr

/-- `abstract_http_actor_send`; `addr` is what `malloc` returns. -/
def actorSend (bus : LinkedQueue (Message ρ δ)) (msg : Message ρ δ) (addr : Option ℕ) :
    Except ErrorCode (LinkedQueue (Message ρ δ)) :=
  match msg.receiver, addr with
  | none, _ => .error .inval
  | some _, none => .error .nomem
  | some _, some addr => .ok (bus.append addr msg)

/-- A handler that runs: its node and the message in it, how many messages the drain loop around it
had handled, and how many had been handed over at all. -/
structure HandlerFrame (ρ δ : Type*) where
  addr : ℕ
  msg : Message ρ δ
  count : ℕ
  place : ℕ
  deriving DecidableEq, Repr

/-- Whether a drain loop is about to look at the queue. -/
inductive BusControl where
  | callable
  | draining (count : ℕ)
  deriving DecidableEq, Repr

/-- The bus with its running handlers, the innermost first, and a record: the messages sent and
those handed to handlers, and what each `abstract_http_message_bus_process` returned, with
`*out_processed`. -/
structure BusState (ρ δ : Type*) where
  bus : LinkedQueue (Message ρ δ)
  control : BusControl
  frames : List (HandlerFrame ρ δ)
  sent : List (Message ρ δ)
  handed : List (Message ρ δ)
  returned : List (ℤ × ℕ)

/-- The bus as `abstract_http_message_bus_init` makes it. -/
def BusState.init : BusState ρ δ := ⟨.empty, .callable, [], [], [], []⟩

namespace BusState

/-- A call of `abstract_http_actor_send`. -/
def send (s : BusState ρ δ) (msg : Message ρ δ) (addr : Option ℕ) : BusState ρ δ :=
  match actorSend s.bus msg addr with
  | .ok bus => { s with bus := bus, sent := s.sent ++ [msg] }
  | .error _ => s

/-- The drain loop as far as the call of a handler, or to its end. -/
def round (s : BusState ρ δ) (count : ℕ) : BusState ρ δ :=
  match s.bus.unlink with
  | none => { s with control := .callable, returned := s.returned ++ [(0, count)] }
  | some (addr, msg, rest) =>
    { s with
      bus := rest
      control := .callable
      frames := ⟨addr, msg, count, s.handed.length⟩ :: s.frames
      handed := s.handed ++ [msg] }

/-- A handler returns into the drain loop. -/
def handlerReturns (s : BusState ρ δ) (rc : ℤ) (frame : HandlerFrame ρ δ)
    (frames : List (HandlerFrame ρ δ)) : BusState ρ δ :=
  if rc ≠ 0 then
    { s with
      bus := s.bus.free frame.addr
      frames := frames
      returned := s.returned ++ [(rc, frame.count)] }
  else
    { s with
      bus := s.bus.free frame.addr
      control := .draining (frame.count + 1)
      frames := frames }

end BusState

/-- The actions of the callers, of the handlers and of the drain loops. -/
inductive BusAction (ρ δ : Type*) where
  | send (msg : Message ρ δ) (addr : Option ℕ)
  | process
  | round
  | handlerReturns (rc : ℤ)

/-- One action, where it is enabled; `malloc` returns an address that is not in use. -/
def busStep (s : BusState ρ δ) : BusAction ρ δ → Option (BusState ρ δ)
  | .send msg addr =>
    if s.control = .callable ∧ ∀ a ∈ addr, (s.bus.nodes a).isNone then some (s.send msg addr)
    else none
  | .process =>
    if s.control = .callable then some { s with control := .draining 0 } else none
  | .round =>
    match s.control with
    | .draining count => some (s.round count)
    | .callable => none
  | .handlerReturns rc =>
    match s.control, s.frames with
    | .callable, frame :: frames => some (s.handlerReturns rc frame frames)
    | _, _ => none

section Delivery

variable {s u : BusState ρ δ} {cells : List (ℕ × Message ρ δ)} {actions : List (BusAction ρ δ)}

/-- The bus holds what was sent and not handed over yet, and the nodes of the running handlers
are still allocated. -/
structure Delivers (s : BusState ρ δ) (cells : List (ℕ × Message ρ δ)) : Prop where
  holding : Holding s.bus (s.frames.map fun frame => (frame.addr, frame.msg)) cells
  inOrder : s.handed ++ cells.map Prod.snd = s.sent
  places : ∀ frame ∈ s.frames, s.handed[frame.place]? = some frame.msg

theorem actorSend_ok {bus bus' : LinkedQueue (Message ρ δ)} {msg : Message ρ δ} {addr : Option ℕ}
    (h : actorSend bus msg addr = .ok bus') : ∃ a, addr = some a ∧ bus' = bus.append a msg := by
  unfold actorSend at h
  split at h
  next => cases h
  next => cases h
  next => exact ⟨_, rfl, (Except.ok.inj h).symm⟩

theorem Delivers.send {msg : Message ρ δ} {addr : Option ℕ} (h : Delivers s cells)
    (hfresh : ∀ a ∈ addr, (s.bus.nodes a).isNone) : ∃ cells, Delivers (s.send msg addr) cells := by
  rw [BusState.send]
  cases hsend : actorSend s.bus msg addr with
  | ok bus =>
    obtain ⟨a, rfl, rfl⟩ := actorSend_ok hsend
    have hfree : s.bus.nodes a = none := Option.isNone_iff_eq_none.mp (hfresh a rfl)
    refine ⟨cells ++ [(a, msg)], h.holding.append hfree, ?_, h.places⟩
    rw [List.map_append, ← List.append_assoc, h.inOrder]
    rfl
  | error e => exact ⟨cells, h⟩

theorem Delivers.round {count : ℕ} (h : Delivers s cells) :
    ∃ cells, Delivers (s.round count) cells := by
  match cells with
  | [] =>
    rw [BusState.round, h.holding.queued.unlink_nil]
    exact ⟨[], h.holding, h.inOrder, h.places⟩
  | (addr, msg) :: cells =>
    obtain ⟨rest, hunlink, hholding⟩ := h.holding.unlink
    rw [BusState.round, hunlink]
    refine ⟨cells, hholding, ?_, ?_⟩
    · rw [← h.inOrder, List.append_assoc]
      rfl
    · intro frame hframe
      rcases List.mem_cons.mp hframe with rfl | hframe
      · exact List.getElem?_concat_length
      · have hplace := h.places frame hframe
        rw [List.getElem?_append_left (List.getElem?_eq_some_iff.mp hplace).1, hplace]

theorem Delivers.handlerReturns {rc : ℤ} {frame : HandlerFrame ρ δ}
    {frames : List (HandlerFrame ρ δ)}
    (h : Delivers s cells) (hframes : s.frames = frame :: frames) :
    Delivers (s.handlerReturns rc frame frames) cells := by
  have hholding := h.holding
  have hplaces := h.places
  rw [hframes] at hholding hplaces
  have hrest : ∀ frame ∈ frames, s.handed[frame.place]? = some frame.msg :=
    fun frame hframe => hplaces frame (List.mem_cons_of_mem _ hframe)
  rw [BusState.handlerReturns]
  split_ifs
  · exact ⟨hholding.free, h.inOrder, hrest⟩
  · exact ⟨hholding.free, h.inOrder, hrest⟩

theorem busStep_delivers {a : BusAction ρ δ} (h : ∃ cells, Delivers s cells)
    (hstep : busStep s a = some u) : ∃ cells, Delivers u cells := by
  obtain ⟨cells, h⟩ := h
  cases a with
  | send msg addr =>
    rw [busStep, Option.ite_none_right_eq_some] at hstep
    obtain rfl := Option.some.inj hstep.2
    exact h.send hstep.1.2
  | process =>
    rw [busStep, Option.ite_none_right_eq_some] at hstep
    obtain rfl := Option.some.inj hstep.2
    exact ⟨cells, h.holding, h.inOrder, h.places⟩
  | round =>
    rw [busStep] at hstep
    split at hstep
    next count hcontrol =>
      obtain rfl := Option.some.inj hstep
      exact h.round
    next => cases hstep
  | handlerReturns rc =>
    rw [busStep] at hstep
    split at hstep
    next frame frames hcontrol hframes =>
      obtain rfl := Option.some.inj hstep
      exact ⟨cells, h.handlerReturns hframes⟩
    next => cases hstep

theorem delivers_of_run (h : Run busStep .init actions s) : ∃ cells, Delivers s cells :=
  h.invariant (P := fun s => ∃ cells, Delivers s cells) (A := fun _ => True)
    (fun _ _ _ _ hprev hstep => busStep_delivers hprev hstep)
    ⟨[], .empty, rfl, fun _ hframe => absurd hframe List.not_mem_nil⟩ fun _ _ => trivial

/-- A round hands over the first message that was not handed over yet, if there is one. -/
theorem Delivers.round_handed {count : ℕ} (h : Delivers s cells) :
    (s.round count).handed = s.sent.take (s.handed.length + 1) := by
  match cells with
  | [] =>
    rw [BusState.round, h.holding.queued.unlink_nil, ← h.inOrder, List.map_nil, List.append_nil]
    exact (List.take_of_length_le (Nat.le_succ _)).symm
  | (addr, msg) :: cells =>
    obtain ⟨rest, hunlink, -⟩ := h.holding.unlink
    rw [BusState.round, hunlink, ← h.inOrder, List.take_length_add_append]
    rfl

/-- What was handed over and what is still queued is what was sent, in this order, and the next
drain loop goes on from there, also when a handler has failed. -/
structure InOrder (s : BusState ρ δ) : Prop where
  delivered : ∃ cells, Queued s.bus cells ∧ s.handed ++ cells.map Prod.snd = s.sent
  next : ∀ u, [.process, .round].foldlM busStep s = some u →
    u.handed = s.sent.take (s.handed.length + 1)
  resumes : ∀ rc frame frames u, rc ≠ 0 → s.frames = frame :: frames →
    [.handlerReturns rc, .process, .round].foldlM busStep s = some u →
      s.handed[frame.place]? = some frame.msg ∧ u.handed = s.sent.take (s.handed.length + 1)

theorem Delivers.process_round (h : Delivers s cells)
    (hsteps : [.process, .round].foldlM busStep s = some u) :
    u.handed = s.sent.take (s.handed.length + 1) := by
  obtain ⟨v, hprocess, hround⟩ := Option.bind_eq_some_iff.mp hsteps
  rw [busStep, Option.ite_none_right_eq_some] at hprocess
  obtain rfl := Option.some.inj hprocess.2
  obtain rfl := Option.some.inj hround
  have hdraining : Delivers { s with control := .draining 0 } cells :=
    ⟨h.holding, h.inOrder, h.places⟩
  exact hdraining.round_handed

/-- In every run of sends, drain loops and handlers, however they nest and fail, the messages are
handed over in the order in which they were sent, none is lost and none is handed over twice. -/
theorem bus_inOrder (h : Run busStep .init actions s) : InOrder s := by
  obtain ⟨cells, hcells⟩ := delivers_of_run h
  refine ⟨⟨cells, hcells.holding.queued, hcells.inOrder⟩, fun u => hcells.process_round, ?_⟩
  intro rc frame frames u hrc hframes hsteps
  refine ⟨hcells.places frame (hframes ▸ List.mem_cons_self), ?_⟩
  obtain ⟨v, hreturns, hrest⟩ := Option.bind_eq_some_iff.mp hsteps
  rw [busStep] at hreturns
  split at hreturns
  next frame' frames' hcontrol hframes' =>
    obtain rfl := Option.some.inj hreturns
    have hreturned : Delivers (s.handlerReturns rc frame' frames') cells :=
      hcells.handlerReturns hframes'
    have hfailed := hreturned.process_round hrest
    rw [BusState.handlerReturns, if_pos hrc] at hfailed
    exact hfailed
  next => cases hreturns

end Delivery

/-- A message to the only actor. -/
def toActor (payload : ℕ) : Message Unit ℕ := ⟨0, payload, none, some ()⟩

/-- Three messages are sent; the handler of the first one sends another one and processes the bus,
where the handler of the second one fails. -/
def nestedFailure : List (BusAction Unit ℕ) :=
  [.send (toActor 1) (some 10), .send (toActor 2) (some 11), .send (toActor 3) (some 12), .process,
    .round, .send (toActor 4) (some 13), .process, .round, .handlerReturns 5, .handlerReturns 0,
    .round]

theorem bus_inOrder_nestedFailure :
    ∃ s, Run busStep .init nestedFailure s ∧ s.handed = [toActor 1, toActor 2, toActor 3] ∧
      InOrder s := by
  obtain ⟨s, hs⟩ := Option.isSome_iff_exists.mp
    (by decide : (nestedFailure.foldlM busStep (.init : BusState Unit ℕ)).isSome)
  have hhanded : (nestedFailure.foldlM busStep (.init : BusState Unit ℕ)).map BusState.handed =
      some [toActor 1, toActor 2, toActor 3] := by decide
  rw [hs] at hhanded
  exact ⟨s, run_iff.mpr hs, Option.some.inj hhanded, bus_inOrder (run_iff.mpr hs)⟩

end AbstractHttp.Concurrency
