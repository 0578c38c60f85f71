/-
The trail of a reader who follows links and goes back.

A trail lists the places from the first to the current one. To follow a link adds its place, to
go back takes the last one away, and a jump goes to the last visit of a place, or to the place
instead of the current one. What is followed and gone back from leaves no trace.
-/
import Mathlib.Data.List.Chain
import Mathlib.Data.List.DropRight

set_option autoImplicit false

namespace Trail

variable {α : Type*}

/-- A place that is not the last one may be put behind a trail, and no place is next to itself
then. -/
theorem isChain_concat {trail : List α} (h : trail.IsChain (· ≠ ·)) {a : α} (ha : trail.getLast? ≠ some a) :
    (trail ++ [a]).IsChain (· ≠ ·) := by
  refine h.append (List.isChain_singleton a) fun x hx y hy => ?_
  rintro rfl
  obtain rfl : x = a := (Option.some.inj hy).symm
  exact ha hx

variable [DecidableEq α]

/-! ## Moves -/

/-- What a reader does. -/
inductive Move (α : Type*)
  | start (a : α)
  | follow (a : α)
  | back
  | jump (a : α)
  | close
deriving DecidableEq

def move (trail : List α) : Move α → List α
  | Move.start a => [a]
  | Move.follow a => if trail.getLast? = some a then trail else trail ++ [a]
  | Move.back => if 1 < trail.length then trail.dropLast else trail
  | Move.jump a => if a ∈ trail then trail.rdropWhile (· ≠ a) else trail.dropLast ++ [a]
  | Move.close => []

def walk (trail : List α) (moves : List (Move α)) : List α := moves.foldl move trail

@[simp] theorem walk_nil (trail : List α) : walk trail [] = trail := rfl

@[simp] theorem walk_cons (trail : List α) (m : Move α) (moves : List (Move α)) :
    walk trail (m :: moves) = walk (move trail m) moves := rfl

theorem walk_append (trail : List α) (moves moves' : List (Move α)) :
    walk trail (moves ++ moves') = walk (walk trail moves) moves' := List.foldl_append

/-- No move puts a place next to itself. To follow a link to the current place leaves the
trail as it is; the other moves cut the trail off, or jump to a place that it does not have at
all. -/
theorem isChain_move {trail : List α} (h : trail.IsChain (· ≠ ·)) (m : Move α) : (move trail m).IsChain (· ≠ ·) := by
  cases m with
  | start a => exact List.isChain_singleton a
  | follow a =>
    rw [move]
    split
    · exact h
    · next hne => exact isChain_concat h hne
  | back =>
    rw [move]
    split
    · exact h.dropLast
    · exact h
  | jump a =>
    rw [move]
    split
    · exact h.prefix (List.rdropWhile_prefix _ _)
    · next hnot =>
      refine isChain_concat h.dropLast fun hlast => hnot ?_
      exact trail.dropLast_subset (List.mem_of_getLast? hlast)
  | close => exact List.isChain_nil

/-! ## Going back -/

/-- Going back some times leaves the first part of the trail, as many places shorter. The
first place is never gone back from. -/
theorem walk_backs (trail : List α) {n : ℕ} (h : n < trail.length) :
    walk trail (List.replicate n Move.back) = trail.take (trail.length - n) := by
  induction n generalizing trail with
  | zero =>
    rw [List.replicate_zero, walk_nil, Nat.sub_zero, List.take_length]
  | succ n ih =>
    -- one step back first, and the rest from the shorter trail
    have hback : move trail Move.back = trail.dropLast := if_pos (by omega)
    rw [List.replicate_succ, walk_cons, hback, ih _ (by rw [List.length_dropLast]; omega), List.length_dropLast,
      List.dropLast_eq_take, List.take_take]
    congr 1
    omega

/-- Moves in which each new place is gone back from. -/
inductive Excursion : List α → List (Move α) → Prop
  | nil (trail : List α) : Excursion trail []
  | stay {trail : List α} {a : α} {rest : List (Move α)} (ha : trail.getLast? = some a)
      (hrest : Excursion trail rest) : Excursion trail (Move.follow a :: rest)
  | away {trail : List α} {a : α} {inner rest : List (Move α)} (ha : trail.getLast? ≠ some a)
      (hinner : Excursion (trail ++ [a]) inner) (hrest : Excursion trail rest) :
      Excursion trail (Move.follow a :: (inner ++ Move.back :: rest))

/-- An excursion ends where it started, with the same way behind it: each place that it adds
is taken away again by its own step back. By induction on the excursion, from a trail with a
place in it. -/
theorem Excursion.walk_eq {trail : List α} {moves : List (Move α)} (h : Excursion trail moves) (hne : trail ≠ []) :
    walk trail moves = trail := by
  induction h with
  | nil trail => rfl
  | stay ha _ ih => rw [walk_cons, move, if_pos ha, ih hne]
  | @away trail a inner rest ha _ _ ihinner ihrest =>
    have hlong : 1 < (trail ++ [a]).length := by
      have hpos := List.length_pos_iff.2 hne
      rw [List.length_append, List.length_singleton]
      omega
    have hback : move (trail ++ [a]) Move.back = trail := by
      rw [move, if_pos hlong, List.dropLast_concat]
    rw [walk_cons, move, if_neg ha, walk_append, ihinner (List.concat_ne_nil a trail), walk_cons, hback, ihrest hne]

end Trail
