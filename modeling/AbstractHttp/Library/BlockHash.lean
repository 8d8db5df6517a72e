import Mathlib.Data.List.Basic
import Mathlib.Tactic

/-!
# Absorbing a stream block by block

A hash that compresses blocks of a fixed size keeps a state and the bytes that do
not fill a block yet.  What it has absorbed depends on the stream only, not on
the pieces in which the stream came.
-/
namespace AbstractHttp.Library

variable {σ α : Type*} {size : ℕ} [NeZero size]

/-- The state after all complete blocks of a stream, and what follows them. -/
def absorb (compress : σ → List α → σ) (size : ℕ) [NeZero size] (s : σ) (xs : List α) :
    σ × List α :=
  if size ≤ xs.length then absorb compress size (compress s (xs.take size)) (xs.drop size)
  else (s, xs)
termination_by xs.length
decreasing_by
  have hpos := NeZero.pos size
  simp only [List.length_drop]
  omega

variable {compress : σ → List α → σ} {s : σ} {xs ys : List α}

theorem absorb_of_lt (h : xs.length < size) : absorb compress size s xs = (s, xs) := by
  rw [absorb, if_neg (by omega)]

theorem absorb_of_le (h : size ≤ xs.length) : absorb compress size s xs =
    absorb compress size (compress s (xs.take size)) (xs.drop size) := by
  rw [absorb, if_pos h]

@[simp] theorem absorb_nil : absorb compress size s [] = (s, []) :=
  absorb_of_lt (NeZero.pos size)

/-- One block at the front is one compression. -/
theorem absorb_block_append (h : xs.length = size) :
    absorb compress size s (xs ++ ys) = absorb compress size (compress s xs) ys := by
  rw [absorb_of_le (by rw [List.length_append]; omega), List.take_left' h, List.drop_left' h]

/-- A stream that goes on is absorbed from the state and the rest that it has reached. -/
theorem absorb_append (s : σ) (xs ys : List α) : absorb compress size s (xs ++ ys) =
    absorb compress size (absorb compress size s xs).1
      ((absorb compress size s xs).2 ++ ys) := by
  induction s, xs using absorb.induct compress size with
  | case1 s xs h ih =>
    rw [absorb_of_le (by rw [List.length_append]; omega), List.take_append_of_le_length h,
      List.drop_append_of_le_length h, absorb_of_le h, ih]
  | case2 s xs h => rw [absorb_of_lt (show xs.length < size by omega)]

/-- What is left over are the bytes behind the last complete block. -/
theorem absorb_snd (s : σ) (xs : List α) :
    (absorb compress size s xs).2 = xs.drop (xs.length - xs.length % size) := by
  induction s, xs using absorb.induct compress size with
  | case1 s xs h ih =>
    have hmod : (xs.length - size) % size = xs.length % size := (Nat.mod_eq_sub_mod h).symm
    have hle := Nat.mod_le (xs.length - size) size
    rw [absorb_of_le h, ih, List.drop_drop, List.length_drop, hmod]
    rw [hmod] at hle
    congr 1
    omega
  | case2 s xs h =>
    have hlt : xs.length < size := by omega
    rw [absorb_of_lt hlt, Nat.mod_eq_of_lt hlt, Nat.sub_self, List.drop_zero]

theorem absorb_snd_length (s : σ) (xs : List α) :
    (absorb compress size s xs).2.length = xs.length % size := by
  have hle := Nat.mod_le xs.length size
  rw [absorb_snd, List.length_drop]
  omega

end AbstractHttp.Library
