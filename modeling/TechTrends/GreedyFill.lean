/-
A text filled piece by piece up to a limit.

The pieces are appended in order while the text stays within the limit. The first
one that does not fit ends the text, and what is written for it may depend on the
number of pieces left out.
-/
import Mathlib.Data.List.Basic
import Mathlib.Order.Bounds.Basic

set_option autoImplicit false

namespace GreedyFill

variable {α : Type*}

/-- The text filled with the pieces, `rest n` standing for the `n` left out. -/
def fill (limit : ℕ) (rest : ℕ → List α) : List α → List (List α) → List α
  | text, [] => text
  | text, p :: ps =>
    if limit < text.length + p.length then text ++ rest (ps.length + 1)
    else fill limit rest (text ++ p) ps

/-- The text with the first `k` pieces. -/
def upTo (text : List α) (pieces : List (List α)) (k : ℕ) : List α :=
  text ++ (pieces.take k).flatten

/-- There are `k` pieces, and after none of them the text is over the limit. -/
def Fits (limit : ℕ) (text : List α) (pieces : List (List α)) (k : ℕ) : Prop :=
  k ≤ pieces.length ∧ ∀ j ≤ k, (upTo text pieces j).length ≤ limit

variable {limit : ℕ}

theorem upTo_zero (text : List α) (pieces : List (List α)) : upTo text pieces 0 = text :=
  List.append_nil text

theorem upTo_cons_succ (text p : List α) (ps : List (List α)) (k : ℕ) :
    upTo text (p :: ps) (k + 1) = upTo (text ++ p) ps k := by
  rw [upTo, upTo, List.take_succ_cons, List.flatten_cons, List.append_assoc]

theorem fits_zero {text : List α} (h : text.length ≤ limit) (pieces : List (List α)) :
    Fits limit text pieces 0 := by
  refine ⟨Nat.zero_le _, fun j hj => ?_⟩
  rw [Nat.le_zero.1 hj, upTo_zero]
  exact h

/-- To fit one piece and some more is to fit those behind the longer text. -/
theorem fits_cons_succ {text : List α} (h : text.length ≤ limit) (p : List α) (ps : List (List α))
    (k : ℕ) : Fits limit text (p :: ps) (k + 1) ↔ Fits limit (text ++ p) ps k := by
  constructor
  · rintro ⟨hk, hfit⟩
    refine ⟨Nat.le_of_succ_le_succ hk, fun j hj => ?_⟩
    rw [← upTo_cons_succ]
    exact hfit (j + 1) (Nat.succ_le_succ hj)
  · rintro ⟨hk, hfit⟩
    refine ⟨Nat.succ_le_succ hk, fun j hj => ?_⟩
    cases j with
    | zero =>
      rw [upTo_zero]
      exact h
    | succ j =>
      rw [upTo_cons_succ]
      exact hfit j (Nat.le_of_succ_le_succ hj)

/-- A piece that is too long is where the filling stops, whatever shorter ones come behind it. -/
theorem not_fits_of_lt {text p : List α} (h : limit < text.length + p.length) (ps : List (List α))
    (k : ℕ) : ¬ Fits limit text (p :: ps) (k + 1) := by
  rintro ⟨-, hfit⟩
  have hone := hfit 1 (Nat.succ_le_succ (Nat.zero_le k))
  rw [upTo_cons_succ, upTo_zero, List.length_append] at hone
  omega

/-- The text holds the largest number of pieces that fit, and says how many it leaves out
exactly when it leaves some out. By induction on the pieces, for any text before them. -/
theorem fill_spec (rest : ℕ → List α) {text : List α} (h : text.length ≤ limit) (pieces : List (List α)) :
    ∃ k, IsGreatest {k | Fits limit text pieces k} k ∧
      fill limit rest text pieces
        = upTo text pieces k ++ if k < pieces.length then rest (pieces.length - k) else [] := by
  induction pieces generalizing text with
  | nil =>
    refine ⟨0, ⟨fits_zero h [], fun k hk => hk.1⟩, ?_⟩
    rw [fill, upTo_zero, List.length_nil, if_neg (Nat.lt_irrefl 0), List.append_nil]
  | cons p ps ih =>
    by_cases hp : limit < text.length + p.length
    · refine ⟨0, ⟨fits_zero h (p :: ps), fun k hk => ?_⟩, ?_⟩
      · cases k with
        | zero => exact Nat.le_refl 0
        | succ k => exact absurd hk (not_fits_of_lt hp ps k)
      · rw [fill, if_pos hp, upTo_zero, List.length_cons, if_pos (Nat.succ_pos ps.length), Nat.sub_zero]
    · have hnext : (text ++ p).length ≤ limit := by
        rw [List.length_append]
        omega
      obtain ⟨k, ⟨hfits, hmax⟩, hfill⟩ := ih hnext
      refine ⟨k + 1, ⟨(fits_cons_succ h p ps k).2 hfits, fun j hj => ?_⟩, ?_⟩
      · cases j with
        | zero => exact Nat.zero_le _
        | succ j => exact Nat.succ_le_succ (hmax ((fits_cons_succ h p ps j).1 hj))
      · rw [fill, if_neg hp, hfill, upTo_cons_succ, List.length_cons, Nat.add_sub_add_right]
        simp only [Nat.add_lt_add_iff_right]

end GreedyFill
