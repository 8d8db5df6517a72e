import Mathlib.Data.List.Basic
import Mathlib.Tactic

/-!
# Calls that change a state, emit outputs and may fail

An outcome keeps the state a failed call leaves behind, because a caller may go
on using it.  `Incremental` is the law of a reader of a stream: reading a list
of items is reading any first part of it and then, unless that failed, the rest.
Every consequence below holds of any reader with this law.
-/
namespace AbstractHttp.Library

variable {σ τ ι ω ε : Type*}

/-- State left, outputs emitted in order, and the failure, if the call failed. -/
@[ext] structure Outcome (σ ω ε : Type*) where
  state : σ
  output : List ω
  failure : Option ε

namespace Outcome

/-- A call that only moves to a state. -/
def done (s : σ) : Outcome σ ω ε := ⟨s, [], none⟩

/-- A failing call that leaves `s` and emits `out`. -/
def fail (s : σ) (out : List ω) (e : ε) : Outcome σ ω ε := ⟨s, out, some e⟩

/-- Continue from the state reached, unless the call failed. -/
def andThen (o : Outcome σ ω ε) (k : σ → Outcome σ ω ε) : Outcome σ ω ε :=
  match o.failure with
  | none => ⟨(k o.state).state, o.output ++ (k o.state).output, (k o.state).failure⟩
  | some _ => o

@[simp] theorem done_failure (s : σ) : (done s : Outcome σ ω ε).failure = none := rfl

@[simp] theorem fail_failure (s : σ) (out : List ω) (e : ε) :
    (fail s out e).failure = some e := rfl

@[simp] theorem done_andThen (s : σ) (k : σ → Outcome σ ω ε) : (done s).andThen k = k s := rfl

@[simp] theorem fail_andThen (s : σ) (out : List ω) (e : ε) (k : σ → Outcome σ ω ε) :
    (fail s out e).andThen k = fail s out e := rfl

@[simp] theorem andThen_done (o : Outcome σ ω ε) : o.andThen done = o := by
  obtain ⟨s, out, _ | e⟩ := o
  · simp [andThen, done]
  · rfl

theorem andThen_of_none {o : Outcome σ ω ε} (h : o.failure = none) (k : σ → Outcome σ ω ε) :
    o.andThen k = ⟨(k o.state).state, o.output ++ (k o.state).output, (k o.state).failure⟩ := by
  simp [andThen, h]

theorem andThen_of_failure {o : Outcome σ ω ε} (h : o.failure ≠ none) (k : σ → Outcome σ ω ε) :
    o.andThen k = o := by
  obtain ⟨s, out, _ | e⟩ := o
  · exact absurd rfl h
  · rfl

/-- Only what is done in the state reached matters. -/
theorem andThen_congr {o : Outcome σ ω ε} {k l : σ → Outcome σ ω ε}
    (h : o.failure = none → k o.state = l o.state) : o.andThen k = o.andThen l := by
  cases hf : o.failure with
  | none => rw [andThen_of_none hf, andThen_of_none hf, h hf]
  | some e => rw [andThen_of_failure (by simp [hf]), andThen_of_failure (by simp [hf])]

/-- A last move adds no output. -/
theorem andThen_done_output (o : Outcome σ ω ε) (f : σ → σ) :
    (o.andThen fun s => done (f s)).output = o.output := by
  obtain ⟨s, out, _ | e⟩ := o
  · exact List.append_nil out
  · rfl

theorem andThen_assoc (o : Outcome σ ω ε) (k l : σ → Outcome σ ω ε) :
    (o.andThen k).andThen l = o.andThen fun s => (k s).andThen l := by
  obtain ⟨s, out, _ | e⟩ := o
  · cases h : (k s).failure <;> simp [andThen, h]
  · rfl

/-- A sequence of calls fails exactly when its first part does or its second part does. -/
theorem andThen_failure_none {o : Outcome σ ω ε} {k : σ → Outcome σ ω ε} :
    (o.andThen k).failure = none ↔ o.failure = none ∧ (k o.state).failure = none := by
  obtain ⟨s, out, _ | e⟩ := o <;> simp [andThen]

theorem mem_andThen_output {o : Outcome σ ω ε} {k : σ → Outcome σ ω ε} {w : ω} :
    w ∈ (o.andThen k).output ↔
      w ∈ o.output ∨ (o.failure = none ∧ w ∈ (k o.state).output) := by
  obtain ⟨s, out, _ | e⟩ := o <;> simp [andThen]

/-- Same outputs and same failure, and related states where neither failed. -/
structure Related (R : σ → τ → Prop) (o : Outcome σ ω ε) (o' : Outcome τ ω ε) : Prop where
  output : o.output = o'.output
  failure : o.failure = o'.failure
  state : o.failure = none → R o.state o'.state

theorem related_done {R : σ → τ → Prop} {s : σ} {t : τ} (h : R s t) :
    Related R (done s : Outcome σ ω ε) (done t) := ⟨rfl, rfl, fun _ => h⟩

theorem related_fail (R : σ → τ → Prop) (s : σ) (t : τ) (out : List ω) (e : ε) :
    Related R (fail s out e) (fail t out e) := ⟨rfl, rfl, fun h => by cases h⟩

/-- Related calls stay related when they are continued alike. -/
theorem Related.andThen {R S : σ → τ → Prop} {o : Outcome σ ω ε} {o' : Outcome τ ω ε}
    {k : σ → Outcome σ ω ε} {k' : τ → Outcome τ ω ε} (h : Related R o o')
    (hk : o.failure = none → R o.state o'.state → Related S (k o.state) (k' o'.state)) :
    Related S (o.andThen k) (o'.andThen k') := by
  cases hf : o.failure with
  | none =>
    have hnext := hk hf (h.state hf)
    rw [andThen_of_none hf, andThen_of_none (h.failure ▸ hf)]
    exact ⟨by rw [h.output, hnext.output], hnext.failure, hnext.state⟩
  | some e =>
    rw [andThen_of_failure (by simp [hf]), andThen_of_failure (by simp [← h.failure, hf])]
    exact ⟨h.output, h.failure, fun hok => by simp [hf] at hok⟩

theorem andThen_output_forall {o : Outcome σ ω ε} {k : σ → Outcome σ ω ε} {Q : ω → Prop}
    (h : o.failure = none) :
    (∀ w ∈ (o.andThen k).output, Q w) ↔
      (∀ w ∈ o.output, Q w) ∧ ∀ w ∈ (k o.state).output, Q w := by
  rw [andThen_of_none h]
  simp only [List.mem_append, or_imp, forall_and]

/-- The first call does as the second, or fails earlier after some of its outputs. -/
def CutShort (o o' : Outcome σ ω ε) : Prop :=
  o = o' ∨ (o.failure ≠ none ∧ ∀ w ∈ o.output, w ∈ o'.output)

theorem CutShort.refl (o : Outcome σ ω ε) : CutShort o o := Or.inl rfl

theorem CutShort.andThen {o o' : Outcome σ ω ε} {k k' : σ → Outcome σ ω ε} (h : CutShort o o')
    (hk : ∀ s, CutShort (k s) (k' s)) : CutShort (o.andThen k) (o'.andThen k') := by
  rcases h with rfl | ⟨hfail, hout⟩
  · cases hf : o.failure with
    | none =>
      rcases hk o.state with heq | ⟨hfail, hout⟩
      · exact Or.inl (by rw [andThen_of_none hf, andThen_of_none hf, heq])
      · refine Or.inr ⟨fun hnone => hfail (andThen_failure_none.mp hnone).2, fun w hw => ?_⟩
        rcases mem_andThen_output.mp hw with hw | ⟨-, hw⟩
        · exact mem_andThen_output.mpr (Or.inl hw)
        · exact mem_andThen_output.mpr (Or.inr ⟨hf, hout w hw⟩)
    | some e =>
      have hne : o.failure ≠ none := by simp [hf]
      exact Or.inl (by rw [andThen_of_failure hne, andThen_of_failure hne])
  · rw [andThen_of_failure hfail]
    exact Or.inr ⟨hfail, fun w hw => mem_andThen_output.mpr (Or.inl (hout w hw))⟩

theorem CutShort.output {o o' : Outcome σ ω ε} (h : CutShort o o') {Q : ω → Prop}
    (hall : ∀ w ∈ o'.output, Q w) : ∀ w ∈ o.output, Q w := by
  rcases h with rfl | ⟨-, hout⟩
  · exact hall
  · exact fun w hw => hall w (hout w hw)

/-- Whether or not the call fails, the state left has `P`, and every output has `Q`. -/
structure Keeps (P : σ → Prop) (Q : ω → Prop) (o : Outcome σ ω ε) : Prop where
  state : P o.state
  output : ∀ w ∈ o.output, Q w

theorem Keeps.andThen {P : σ → Prop} {Q : ω → Prop} {o : Outcome σ ω ε}
    {k : σ → Outcome σ ω ε} (h : Keeps P Q o) (hk : ∀ s, P s → Keeps P Q (k s)) :
    Keeps P Q (o.andThen k) := by
  have hnext := hk o.state h.state
  cases hf : o.failure with
  | none =>
    rw [andThen_of_none hf]
    exact ⟨hnext.state, fun w hw => (List.mem_append.mp hw).elim (h.output w) (hnext.output w)⟩
  | some e =>
    rw [andThen_of_failure (by simp [hf])]
    exact h

theorem keeps_done {P : σ → Prop} {Q : ω → Prop} {s : σ} (h : P s) :
    Keeps P Q (done s : Outcome σ ω ε) := ⟨h, by simp [done]⟩

/-- A call that fails emits an output with `Q`. -/
def Announced (Q : ω → Prop) (o : Outcome σ ω ε) : Prop :=
  o.failure ≠ none → ∃ w ∈ o.output, Q w

theorem announced_done (Q : ω → Prop) (s : σ) : Announced Q (done s : Outcome σ ω ε) :=
  fun h => absurd rfl h

theorem Announced.andThen {Q : ω → Prop} {o : Outcome σ ω ε} {k : σ → Outcome σ ω ε}
    (h : Announced Q o) (hk : o.failure = none → Announced Q (k o.state)) :
    Announced Q (o.andThen k) := by
  intro hfail
  cases hf : o.failure with
  | none =>
    rw [andThen_of_none hf] at hfail
    obtain ⟨w, hw, hq⟩ := hk hf hfail
    exact ⟨w, mem_andThen_output.mpr (Or.inr ⟨hf, hw⟩), hq⟩
  | some e =>
    obtain ⟨w, hw, hq⟩ := h (by simp [hf])
    exact ⟨w, mem_andThen_output.mpr (Or.inl hw), hq⟩

/-- Without such an output the call has not failed. -/
theorem Announced.failure_eq_none {Q : ω → Prop} {o : Outcome σ ω ε} (h : Announced Q o)
    (hnone : ∀ w ∈ o.output, ¬ Q w) : o.failure = none := by
  by_contra hfail
  obtain ⟨w, hw, hq⟩ := h hfail
  exact hnone w hw hq

/-- An output with `Q` comes last, and only from a call that fails. -/
def Final (Q : ω → Prop) (o : Outcome σ ω ε) : Prop :=
  (∀ w ∈ o.output, ¬ Q w) ∨
    o.failure ≠ none ∧ ∃ out w, o.output = out ++ [w] ∧ ∀ v ∈ out, ¬ Q v

theorem Final.andThen {Q : ω → Prop} {o : Outcome σ ω ε} {k : σ → Outcome σ ω ε}
    (h : Final Q o) (hk : o.failure = none → Final Q (k o.state)) : Final Q (o.andThen k) := by
  by_cases hf : o.failure = none
  · have hbefore : ∀ w ∈ o.output, ¬ Q w := h.resolve_right fun hlast => hlast.1 hf
    rw [andThen_of_none hf]
    rcases hk hf with hnone | ⟨hfail, out, w, hout, hrest⟩
    · exact .inl (List.forall_mem_append.mpr ⟨hbefore, hnone⟩)
    · refine .inr ⟨hfail, o.output ++ out, w, ?_, List.forall_mem_append.mpr ⟨hbefore, hrest⟩⟩
      rw [hout, List.append_assoc]
  · rw [andThen_of_failure hf]
    exact h

end Outcome
open Outcome

/-- Successive calls on the chunks of a list, stopping at the first call that fails. -/
def feedChunks (feed : σ → List ι → Outcome σ ω ε) : σ → List (List ι) → Outcome σ ω ε
  | s, [] => done s
  | s, c :: cs => (feed s c).andThen fun t => feedChunks feed t cs

/-- Successive calls on the chunks of a list, going on after calls that fail. -/
def feedCalls (feed : σ → List ι → Outcome σ ω ε) : σ → List (List ι) → σ × List ω
  | s, [] => (s, [])
  | s, c :: cs =>
    ((feedCalls feed (feed s c).state cs).1,
      (feed s c).output ++ (feedCalls feed (feed s c).state cs).2)

/-- Reading a list is reading a first part of it and then the rest. -/
structure Incremental (feed : σ → List ι → Outcome σ ω ε) : Prop where
  nil : ∀ s, feed s [] = done s
  append : ∀ s a b, feed s (a ++ b) = (feed s a).andThen (feed · b)

namespace Incremental
variable {feed : σ → List ι → Outcome σ ω ε}

theorem andThen_nil (h : Incremental feed) (o : Outcome σ ω ε) : o.andThen (feed · []) = o := by
  rw [funext h.nil]
  exact andThen_done o

theorem cons (h : Incremental feed) (s : σ) (i : ι) (is : List ι) :
    feed s (i :: is) = (feed s [i]).andThen (feed · is) :=
  h.append s [i] is

/-- How a list is cut into chunks makes no difference. -/
theorem feedChunks_eq (h : Incremental feed) (s : σ) (cs : List (List ι)) :
    feedChunks feed s cs = feed s cs.flatten := by
  induction cs generalizing s with
  | nil => rw [feedChunks, List.flatten_nil, h.nil]
  | cons c cs ih =>
    rw [feedChunks, List.flatten_cons, h.append]
    simp only [ih]

/-- A property of states that every single item preserves holds wherever the reader stops. -/
theorem invariant (h : Incremental feed) {P : σ → Prop}
    (hstep : ∀ s i, P s → P (feed s [i]).state) {s : σ} (hs : P s) (is : List ι) :
    P (feed s is).state := by
  induction is generalizing s with
  | nil => rw [h.nil]; exact hs
  | cons i is ih =>
    have h1 := hstep s i hs
    rw [h.cons]
    cases hf : (feed s [i]).failure with
    | none => rw [andThen_of_none hf]; exact ih h1
    | some e => rw [andThen_of_failure (by simp [hf])]; exact h1

variable {P : σ → Prop} {Bad : σ → ι → Prop}

/-- No item of a list is bad in the state in which it is read. -/
def NoneBad (feed : σ → List ι → Outcome σ ω ε) (Bad : σ → ι → Prop) (s : σ) (is : List ι) : Prop :=
  ∀ p i q, is = p ++ i :: q → (feed s p).failure = none → ¬ Bad (feed s p).state i

theorem noneBad_cons (h : Incremental feed) {s : σ} {i : ι} {is : List ι} :
    NoneBad feed Bad s (i :: is) ↔
      ¬ Bad s i ∧ ((feed s [i]).failure = none → NoneBad feed Bad (feed s [i]).state is) := by
  constructor
  · intro hall
    refine ⟨by simpa [h.nil, done] using hall [] i is rfl, fun hok p j q hsplit hp => ?_⟩
    have hcons := hall (i :: p) j q (by rw [hsplit]; rfl)
    rw [h.cons, andThen_failure_none, andThen_of_none hok] at hcons
    exact hcons ⟨hok, hp⟩
  · rintro ⟨hi, hrest⟩ p j q hsplit hok
    cases p with
    | nil =>
      obtain ⟨rfl, rfl⟩ := List.cons.inj hsplit
      rwa [h.nil]
    | cons k p =>
      obtain ⟨rfl, rfl⟩ := List.cons.inj hsplit
      rw [h.cons, andThen_failure_none] at hok
      rw [h.cons, andThen_of_none hok.1]
      exact hrest hok.1 p j q rfl hok.2

/-- What every item preserves unless it is bad holds after a list without bad items. -/
theorem invariant_of_noneBad (h : Incremental feed)
    (hstep : ∀ s i, P s → ¬ Bad s i → P (feed s [i]).state) {s : σ} (hs : P s) {is : List ι}
    (hgood : NoneBad feed Bad s is) : P (feed s is).state := by
  induction is generalizing s with
  | nil => rw [h.nil]; exact hs
  | cons i is ih =>
    obtain ⟨hi, hrest⟩ := h.noneBad_cons.mp hgood
    have h1 := hstep s i hs hi
    rw [h.cons]
    cases hf : (feed s [i]).failure with
    | none => rw [andThen_of_none hf]; exact ih h1 (hrest hf)
    | some e => rw [andThen_of_failure (by simp [hf])]; exact h1

/-- Where a single item has only good outputs exactly when it is not bad, a list has only good
outputs exactly when none of its items is bad where it is read. -/
theorem output_forall_iff (h : Incremental feed) {Q : ω → Prop}
    (hstep : ∀ s i, P s → ¬ Bad s i → P (feed s [i]).state)
    (hbad : ∀ s i, P s → ((∀ w ∈ (feed s [i]).output, Q w) ↔ ¬ Bad s i))
    {s : σ} (hs : P s) (is : List ι) :
    (∀ w ∈ (feed s is).output, Q w) ↔ NoneBad feed Bad s is := by
  induction is generalizing s with
  | nil => rw [h.nil]; simp [done, NoneBad]
  | cons i is ih =>
    have hi := hbad s i hs
    rw [h.noneBad_cons, h.cons, ← hi]
    constructor
    · intro hall
      have hgood : ∀ w ∈ (feed s [i]).output, Q w :=
        fun w hw => hall w (mem_andThen_output.mpr (Or.inl hw))
      exact ⟨hgood, fun hok => (ih (hstep s i hs (hi.mp hgood))).mp fun w hw =>
        hall w (mem_andThen_output.mpr (Or.inr ⟨hok, hw⟩))⟩
    · rintro ⟨hgood, hrest⟩ w hw
      rcases mem_andThen_output.mp hw with hw | ⟨hok, hw⟩
      · exact hgood w hw
      · exact (ih (hstep s i hs (hi.mp hgood))).mpr (hrest hok) w hw

/-- No item of a list that is fed in chunks, calls that fail included, is bad in the state in
which it is read. -/
def NoneBadCalls (feed : σ → List ι → Outcome σ ω ε) (Bad : σ → ι → Prop) (s : σ)
    (cs : List (List ι)) : Prop :=
  ∀ p c q, cs = p ++ c :: q → NoneBad feed Bad (feedCalls feed s p).1 c

theorem noneBadCalls_cons {s : σ} {c : List ι} {cs : List (List ι)} :
    NoneBadCalls feed Bad s (c :: cs) ↔
      NoneBad feed Bad s c ∧ NoneBadCalls feed Bad (feed s c).state cs := by
  constructor
  · intro hall
    refine ⟨hall [] c cs rfl, fun p d q hsplit => ?_⟩
    exact hall (c :: p) d q (by rw [hsplit]; rfl)
  · rintro ⟨hc, hrest⟩ p d q hsplit
    cases p with
    | nil =>
      obtain ⟨rfl, rfl⟩ := List.cons.inj hsplit
      exact hc
    | cons c' p =>
      obtain ⟨rfl, rfl⟩ := List.cons.inj hsplit
      exact hrest p d q rfl

/-- The same of successive calls that go on after calls that fail. -/
theorem feedCalls_forall_iff (h : Incremental feed) {Q : ω → Prop}
    (hstep : ∀ s i, P s → ¬ Bad s i → P (feed s [i]).state)
    (hbad : ∀ s i, P s → ((∀ w ∈ (feed s [i]).output, Q w) ↔ ¬ Bad s i))
    {s : σ} (hs : P s) (cs : List (List ι)) :
    (∀ w ∈ (feedCalls feed s cs).2, Q w) ↔ NoneBadCalls feed Bad s cs := by
  induction cs generalizing s with
  | nil =>
    refine iff_of_true (by simp [feedCalls]) fun p c q hsplit => ?_
    simp at hsplit
  | cons c cs ih =>
    have hc := h.output_forall_iff hstep hbad hs c
    rw [noneBadCalls_cons, ← hc, feedCalls]
    simp only [List.mem_append, or_imp, forall_and]
    refine and_congr_right fun hgood => ?_
    exact ih (h.invariant_of_noneBad hstep hs (hc.mp hgood))

end Incremental
end AbstractHttp.Library
