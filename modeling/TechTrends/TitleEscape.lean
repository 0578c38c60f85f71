/-
`trends-queue.events.ts`: the title of an article inside a Markdown link.

Seven replacements run one after the other. The first puts a title on one line, the
second doubles the backslashes, the others put one before a sign that Markdown would
read. Together they escape six signs with a backslash, the backslash itself among them.
-/
import TechTrends.Escaping
import TechTrends.Notification

set_option autoImplicit false

namespace TechTrends

namespace TrendQueueEventsListener

open JsString (Units unit replace replaceAll replaceAll_before matchText replace_matchText_hit replace_matchText_miss)
open Escaping (write written marksAtEnd read readBack)

/-! ## On one line -/

def isLineBreak (u : UInt16) : Bool := u == unit '\r' || u == unit '\n'

/-- A title with every run of line breaks as one blank; `inRun` says that the blank of
the run is already there. -/
def oneLineFrom (inRun : Bool) : Units → Units
  | [] => []
  | u :: us =>
    if isLineBreak u then (if inRun then [] else [unit ' ']) ++ oneLineFrom true us
    else u :: oneLineFrom false us

def oneLine (title : Units) : Units := oneLineFrom false title

theorem matchLineBreaks_of_break {u : UInt16} (h : isLineBreak u = true) (b : Option UInt16) (us : Units) :
    matchLineBreaks b (u :: us) = some ([unit ' '], (us.takeWhile isLineBreak).length + 1) := by
  have hrun : ((u :: us).takeWhile fun v => v == unit '\r' || v == unit '\n') =
      u :: us.takeWhile isLineBreak := List.takeWhile_cons_of_pos h
  rw [matchLineBreaks, hrun]
  rfl

theorem matchLineBreaks_of_not {u : UInt16} (h : ¬ isLineBreak u = true) (b : Option UInt16) (us : Units) :
    matchLineBreaks b (u :: us) = none := by
  have hrun : ((u :: us).takeWhile fun v => v == unit '\r' || v == unit '\n') = [] :=
    List.takeWhile_cons_of_neg h
  rw [matchLineBreaks, hrun]

/-- The walk of the first replacement, outside a run and inside of one. By induction on the
text, for both at once. -/
theorem replaceAll_matchLineBreaks (us : Units) :
    (∀ b, replaceAll matchLineBreaks 0 b us = oneLineFrom false us) ∧
      ∀ b, replaceAll matchLineBreaks (us.takeWhile isLineBreak).length b us = oneLineFrom true us := by
  -- a match skips its run, and the walk comes back to it sign by sign
  induction us with
  | nil => exact ⟨fun _ => rfl, fun _ => rfl⟩
  | cons u us ih =>
    obtain ⟨outside, inside⟩ := ih
    by_cases hu : isLineBreak u = true
    · constructor
      · intro b
        rw [replaceAll, matchLineBreaks_of_break hu, oneLineFrom, if_pos hu]
        exact congrArg ([unit ' '] ++ ·) (inside (some u))
      · intro b
        rw [List.takeWhile_cons_of_pos hu, List.length_cons, replaceAll, oneLineFrom, if_pos hu]
        exact inside (some u)
    · have hstep : ∀ b, replaceAll matchLineBreaks 0 b (u :: us) = u :: oneLineFrom false us := by
        intro b
        rw [replaceAll, matchLineBreaks_of_not hu]
        exact congrArg (u :: ·) (outside (some u))
      constructor
      · intro b
        rw [hstep, oneLineFrom, if_neg hu]
      · intro b
        rw [List.takeWhile_cons_of_neg hu, List.length_nil, hstep, oneLineFrom, if_neg hu]

theorem replace_matchLineBreaks (title : Units) : replace matchLineBreaks title = oneLine title :=
  (replaceAll_matchLineBreaks title).1 none

/-- No line break is left. -/
theorem isLineBreak_of_mem_oneLineFrom {u : UInt16} {inRun : Bool} {us : Units}
    (h : u ∈ oneLineFrom inRun us) : isLineBreak u = false := by
  induction us generalizing inRun with
  | nil => cases h
  | cons v us ih =>
    rw [oneLineFrom] at h
    split at h
    · rcases List.mem_append.1 h with h | h
      · cases inRun with
        | true => cases h
        | false =>
          rw [List.mem_singleton.1 h]
          decide
      · exact ih h
    · next hv =>
      rcases List.mem_cons.1 h with rfl | h
      · exact Bool.not_eq_true _ ▸ hv
      · exact ih h

/-! ## The signs of a link -/

/-- The signs a link or a code span is made of. -/
def linkSigns : Units := [unit ')', unit '(', unit ']', unit '[', unit '`']

def escapedSigns : Units := linkSigns ++ [unit '\\']

/-- One replacement escapes one sign, at every place where it stands. -/
theorem escapeSign_eq_write (c : Char) (us : Units) : escapeSign c us = write (unit '\\') [unit c] us := by
  induction us with
  | nil => rfl
  | cons u us ih =>
    by_cases hu : u = unit c
    · rw [hu, Escaping.write_cons_of_mem (List.mem_singleton_self _), ← ih]
      exact replace_matchText_hit us
    · have hmiss : ¬ [unit c] <+: u :: us := fun h => hu (List.cons_prefix_cons.1 h).1.symm
      rw [Escaping.write_cons_of_notMem (fun h => hu (List.mem_singleton.1 h)), ← ih]
      exact replace_matchText_miss hmiss

/-- All replacements together escape six signs at once. The backslash comes first: it would
double those that the others put in otherwise. -/
theorem safeTitle_eq_write (title : Units) :
    safeTitle title = write (unit '\\') escapedSigns (oneLine title) := by
  rw [safeTitle, replace_matchLineBreaks]
  simp only [escapeSign_eq_write]
  -- the backslash is doubled first, so that the later passes put in marks that stay single
  rw [Escaping.write_write (c := unit '`') (by decide) (by decide),
    Escaping.write_write (c := unit '[') (by decide) (by decide),
    Escaping.write_write (c := unit ']') (by decide) (by decide),
    Escaping.write_write (c := unit '(') (by decide) (by decide),
    Escaping.write_write (c := unit ')') (by decide) (by decide)]
  rfl

theorem backslash_mem_escapedSigns : unit '\\' ∈ escapedSigns := by decide

/-- No line break is put in again. -/
theorem isLineBreak_of_mem_safeTitle {u : UInt16} {title : Units} (h : u ∈ safeTitle title) :
    isLineBreak u = false := by
  rw [safeTitle_eq_write, write] at h
  obtain ⟨v, hv, hu⟩ := List.mem_flatMap.1 h
  have hbreak := isLineBreak_of_mem_oneLineFrom hv
  by_cases hspecial : v ∈ escapedSigns
  · rw [Escaping.written_of_mem hspecial] at hu
    rcases List.mem_cons.1 hu with rfl | hu
    · decide
    · rw [List.mem_singleton.1 hu]
      exact hbreak
  · rw [Escaping.written_of_notMem hspecial] at hu
    rw [List.mem_singleton.1 hu]
    exact hbreak

/-- **The escaping of titles.** Every sign of a link in the escaped title stands behind an
odd number of backslashes, the title has no line break and no open backslash at its end,
and a reader of Markdown gets the title back, on one line. Whatever follows it is read as
if it stood alone, so that the bracket behind the title closes the link and no earlier
sign does. -/
theorem safeTitle_reads_back (title : Units) :
    (∀ before sign after, safeTitle title = before ++ sign :: after → sign ∈ linkSigns →
      Odd (marksAtEnd (unit '\\') before)) ∧
    (unit '\r' ∉ safeTitle title ∧ unit '\n' ∉ safeTitle title) ∧
    Even (marksAtEnd (unit '\\') (safeTitle title)) ∧
    readBack (unit '\\') (safeTitle title) = oneLine title ∧
    (∀ after, read (unit '\\') (safeTitle title ++ after) =
      read (unit '\\') (safeTitle title) ++ read (unit '\\') after) ∧
    ∀ s ∈ read (unit '\\') (safeTitle title), s.sign ∈ linkSigns → s.literal = true := by
  have hmark := backslash_mem_escapedSigns
  refine ⟨?_, ⟨?_, ?_⟩, ?_, ?_, ?_, ?_⟩
  · intro before sign after h hsign
    rw [safeTitle_eq_write] at h
    have hne : sign ≠ unit '\\' := fun hs => absurd (hs ▸ hsign) (by decide)
    exact Escaping.odd_marksAtEnd_before hmark (List.mem_append_left _ hsign) hne h
  · intro h
    exact absurd (isLineBreak_of_mem_safeTitle h) (by decide)
  · intro h
    exact absurd (isLineBreak_of_mem_safeTitle h) (by decide)
  · rw [safeTitle_eq_write]
    exact Escaping.even_marksAtEnd_write hmark _
  · rw [safeTitle_eq_write]
    exact Escaping.readBack_write hmark _
  · intro after
    rw [safeTitle_eq_write, Escaping.read_write_append hmark, Escaping.read_write hmark]
  · intro s hs hsign
    rw [safeTitle_eq_write, Escaping.read_write hmark] at hs
    obtain ⟨u, -, rfl⟩ := List.mem_map.1 hs
    exact decide_eq_true (List.mem_append_left _ hsign)

end TrendQueueEventsListener

end TechTrends
