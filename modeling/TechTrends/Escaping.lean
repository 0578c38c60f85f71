/-
Escaping with a mark: the mark is put before every special sign, itself included.

The reader takes the sign behind a mark literally. What is escaped is read back as it
was, wherever it stands, and the parity of the marks before a sign says whether the
reader sees it.
-/
import Mathlib.Algebra.Ring.Parity
import Mathlib.Data.List.Basic

set_option autoImplicit false

namespace Escaping

variable {α : Type*} [DecidableEq α]

/-! ## Writing and reading -/

/-- A sign as the reader sees it: `literal` when a mark stood before it. -/
structure Sign (α : Type*) where
  literal : Bool
  sign : α

def read (mark : α) : List α → List (Sign α)
  | [] => []
  | [x] => [⟨false, x⟩]
  | x :: y :: rest =>
    if x = mark then ⟨true, y⟩ :: read mark rest else ⟨false, x⟩ :: read mark (y :: rest)

def readBack (mark : α) (xs : List α) : List α := (read mark xs).map Sign.sign

/-- A sign that is special gets the mark. -/
def written (mark : α) (special : List α) (x : α) : List α := if x ∈ special then [mark, x] else [x]

def write (mark : α) (special : List α) (xs : List α) : List α := xs.flatMap (written mark special)

/-- The marks at the end of a text. -/
def marksAtEnd (mark : α) (xs : List α) : ℕ := (xs.reverse.takeWhile (· = mark)).length

variable {mark : α} {special : List α}

theorem written_of_mem {x : α} (h : x ∈ special) : written mark special x = [mark, x] := if_pos h

theorem written_of_notMem {x : α} (h : x ∉ special) : written mark special x = [x] := if_neg h

theorem write_cons_of_mem {x : α} (h : x ∈ special) (xs : List α) :
    write mark special (x :: xs) = mark :: x :: write mark special xs := by
  rw [write, List.flatMap_cons, written_of_mem h]
  rfl

/-- Any other one is written as it is. -/
theorem write_cons_of_notMem {x : α} (h : x ∉ special) (xs : List α) :
    write mark special (x :: xs) = x :: write mark special xs := by
  rw [write, List.flatMap_cons, written_of_notMem h]
  rfl

/-! ## One sign after the other -/

/-- One more sign can be escaped in a text where others are: the marks that stand there are no
such sign. So escaping sign after sign, as a chain of `replace` does, is escaping all of them
at once, if the mark is the first. -/
theorem write_write {c : α} (hc : c ≠ mark) (hnew : c ∉ special) (xs : List α) :
    write mark [c] (write mark special xs) = write mark (c :: special) xs := by
  rw [write, write, write, List.flatMap_assoc]
  refine List.flatMap_congr fun x _ => ?_
  -- a sign that has its mark gets no second one, and neither does the mark
  by_cases hx : x ∈ special
  · have hxc : x ≠ c := fun h => hnew (h ▸ hx)
    rw [written_of_mem hx, written_of_mem (List.mem_cons_of_mem c hx)]
    simp [written, hxc, hc.symm]
  · rw [written_of_notMem hx]
    by_cases hxc : x = c <;> simp [written, hxc, hnew, hx]

/-! ## Reading what was written -/

theorem read_mark_cons (y : α) (rest : List α) :
    read mark (mark :: y :: rest) = ⟨true, y⟩ :: read mark rest := if_pos rfl

theorem read_cons_of_ne {x : α} (h : x ≠ mark) (rest : List α) :
    read mark (x :: rest) = ⟨false, x⟩ :: read mark rest := by
  cases rest with
  | nil => rfl
  | cons y rest => exact if_neg h

/-- What the reader makes of an escaped text, whatever follows it. -/
theorem read_write_append (hmark : mark ∈ special) (xs after : List α) :
    read mark (write mark special xs ++ after) =
      xs.map (fun x => ⟨decide (x ∈ special), x⟩) ++ read mark after := by
  induction xs with
  | nil => rfl
  | cons x xs ih =>
    by_cases hx : x ∈ special
    · rw [write_cons_of_mem hx, List.cons_append, List.cons_append, read_mark_cons, ih, List.map_cons,
        decide_eq_true hx, List.cons_append]
    · have hne : x ≠ mark := fun h => hx (h ▸ hmark)
      rw [write_cons_of_notMem hx, List.cons_append, read_cons_of_ne hne, ih, List.map_cons,
        decide_eq_false hx, List.cons_append]

/-- What the reader makes of an escaped text: the signs that were there, each of them literal
where it is special. -/
theorem read_write (hmark : mark ∈ special) (xs : List α) :
    read mark (write mark special xs) = xs.map fun x => ⟨decide (x ∈ special), x⟩ := by
  have h := read_write_append hmark xs []
  rwa [List.append_nil, show read mark [] = [] from rfl, List.append_nil] at h

theorem readBack_write (hmark : mark ∈ special) (xs : List α) :
    readBack mark (write mark special xs) = xs := by
  rw [readBack, read_write hmark, List.map_map]
  exact List.map_id xs

/-! ## The marks before a sign -/

/-- Nothing before a sign that is no mark counts. -/
theorem marksAtEnd_append_cons {x : α} (h : x ≠ mark) (before after : List α) :
    marksAtEnd mark (before ++ x :: after) = marksAtEnd mark after := by
  have hstop : (x :: before.reverse).takeWhile (fun y => decide (y = mark)) = [] :=
    List.takeWhile_cons_of_neg (by simpa using h)
  rw [marksAtEnd, marksAtEnd, List.reverse_append, List.reverse_cons, List.append_assoc,
    List.singleton_append, List.takeWhile_append, hstop, List.append_nil]
  split
  · next hall => exact hall.symm
  · rfl

/-- Two marks in front do not change the parity. -/
theorem even_marksAtEnd_mark_mark (xs : List α) :
    Even (marksAtEnd mark (mark :: mark :: xs)) ↔ Even (marksAtEnd mark xs) := by
  have hpair : [mark, mark].takeWhile (fun y => decide (y = mark)) = [mark, mark] := by simp
  rw [marksAtEnd, marksAtEnd, List.reverse_cons, List.reverse_cons, List.append_assoc,
    List.singleton_append, List.takeWhile_append, hpair]
  split
  · next hall =>
    rw [List.length_append, ← hall]
    exact Nat.even_add.trans (iff_true_right even_two)
  · exact Iff.rfl

/-- A written sign in front does not change the parity either. -/
theorem even_marksAtEnd_written (hmark : mark ∈ special) (x : α) (xs : List α) :
    Even (marksAtEnd mark (written mark special x ++ xs)) ↔ Even (marksAtEnd mark xs) := by
  by_cases hxm : x = mark
  · rw [hxm, written_of_mem hmark]
    exact even_marksAtEnd_mark_mark xs
  · by_cases hx : x ∈ special
    · have hcons := marksAtEnd_append_cons hxm [mark] xs
      rw [written_of_mem hx, ← hcons]
      rfl
    · have hcons := marksAtEnd_append_cons hxm [] xs
      rw [written_of_notMem hx, ← hcons]
      rfl

/-- An escaped text does not end in a mark that waits for a sign. So what is put behind it is
read as if it stood alone. -/
theorem even_marksAtEnd_write (hmark : mark ∈ special) (xs : List α) :
    Even (marksAtEnd mark (write mark special xs)) := by
  induction xs with
  | nil => exact ⟨0, rfl⟩
  | cons x xs ih =>
    rw [write, List.flatMap_cons, even_marksAtEnd_written hmark]
    exact ih

/-- In what is written for one sign, only the mark stands before it. -/
theorem eq_mark_of_written_eq {x y : α} {before after : List α} (hx : x ∈ special) (hne : x ≠ mark)
    (h : written mark special y = before ++ x :: after) : before = [mark] := by
  by_cases hy : y ∈ special
  · rw [written_of_mem hy] at h
    rcases List.cons_eq_append_iff.1 h with ⟨-, hcons⟩ | ⟨rest, rfl, hrest⟩
    · exact absurd (List.cons_eq_cons.1 hcons).1 hne
    · rcases List.singleton_eq_append_iff.1 hrest with ⟨rfl, -⟩ | ⟨-, hnil⟩
      · rfl
      · cases hnil
  · rw [written_of_notMem hy] at h
    rcases List.singleton_eq_append_iff.1 h with ⟨-, hcons⟩ | ⟨-, hnil⟩
    · exact absurd ((List.cons_eq_cons.1 hcons).1 ▸ hx) hy
    · cases hnil

/-- Before a special sign that is no mark the marks are odd in number. An even number would be
marks that escape each other, and the sign would count. -/
theorem odd_marksAtEnd_before (hmark : mark ∈ special) {xs before after : List α} {x : α}
    (hx : x ∈ special) (hne : x ≠ mark) (h : write mark special xs = before ++ x :: after) :
    Odd (marksAtEnd mark before) := by
  induction xs generalizing before with
  | nil =>
    rw [write, List.flatMap_nil] at h
    exact absurd h.symm (by simp)
  | cons y ys ih =>
    -- The sign stands in what is written for `y`, or behind it.
    rw [write, List.flatMap_cons] at h
    rcases List.append_eq_append_iff.1 h with ⟨rest, hbefore, hrest⟩ | ⟨rest, hy, hrest⟩
    · rw [hbefore, ← Nat.not_even_iff_odd, even_marksAtEnd_written hmark, Nat.not_even_iff_odd]
      exact ih hrest
    · cases rest with
      | nil => exact absurd (@ih [] hrest.symm) (by simp [marksAtEnd])
      | cons z rest =>
        obtain ⟨rfl, -⟩ := List.cons_eq_cons.1 hrest
        rw [eq_mark_of_written_eq hx hne hy]
        simp [marksAtEnd]

end Escaping
