/-
A queue of named jobs, as the program that uses it sees it.

A program looks a name up, adds a job under a name, and has a worker that is handed a job
with its data and reports how the job ended. The rest is the queue's own: which job a
worker is handed, when a failed one comes again and how often, what becomes of a job whose
worker went away, which ended jobs stay, and what an operator does to them by hand. So a
queue is no definition here but the operations of a `Service`, over any type of states, and
what it does by itself are the labels of `move`.

What a program may rely on is `Lawful`: that a name is taken once, that a worker is handed
the data that the job was added with, and that nobody but the program adds jobs. Nothing is
said of when a job comes, or of whether it comes at all.
-/
import Mathlib.Data.List.AList

set_option autoImplicit false

namespace JobQueue

/-- The operations of a queue whose state is of type `σ`: jobs have names in `κ` and data
in `δ`, they are added with options in `ω`, and `μ` are the moves that the queue makes
without the program. -/
structure Service (σ κ δ ω μ : Type*) where
  /-- The data of the job of a name, as long as the queue keeps the job. -/
  getJob : σ → κ → Option δ
  /-- A job is added under a name. -/
  add : σ → κ → δ → ω → σ
  /-- The worker is handed the job of a name, with its data. -/
  take : σ → κ → Option (δ × σ)
  /-- The worker reports that the job of a name is done. The queue may refuse, as when the
  job is not this worker's any more. -/
  complete : σ → κ → Option σ
  /-- The worker reports that the job of a name failed. -/
  fail : σ → κ → Option σ
  /-- A pause is over, a job that lost its worker waits again, one is tried again or
  removed by hand, and the like. -/
  move : σ → μ → Option σ

variable {σ κ δ ω μ : Type*} (queue : Service σ κ δ ω μ)

namespace Service

/-- Every job of the later state is one of the earlier state, with the same data. -/
def OnlyDrops (q q' : σ) : Prop :=
  ∀ id data, queue.getJob q' id = some data → queue.getJob q id = some data

/-- What a program may rely on. A name that is free takes the job added under it, and one
that is not keeps its own; the other names are not touched. A job that is handed out is in
the queue and stays there, and its data is what the queue has for it. An end, and whatever
the queue does by itself, may drop jobs, and neither adds one nor changes its data. -/
structure Lawful : Prop where
  add_new : ∀ q id data options, queue.getJob q id = none →
    queue.getJob (queue.add q id data options) id = some data
  add_known : ∀ q id known data options, queue.getJob q id = some known →
    queue.getJob (queue.add q id data options) id = some known
  add_other : ∀ q id other data options, other ≠ id →
    queue.getJob (queue.add q id data options) other = queue.getJob q other
  take_data : ∀ q id data q', queue.take q id = some (data, q') → queue.getJob q id = some data
  take_keeps : ∀ q id data q', queue.take q id = some (data, q') →
    ∀ other, queue.getJob q' other = queue.getJob q other
  complete : ∀ q id q', queue.complete q id = some q' → queue.OnlyDrops q q'
  fail : ∀ q id q', queue.fail q id = some q' → queue.OnlyDrops q q'
  move : ∀ q m q', queue.move q m = some q' → queue.OnlyDrops q q'

namespace Lawful

variable {queue} (h : queue.Lawful)
include h

/-- A job that is there stays what it is when another one is added, or one of its own name. -/
theorem getJob_add_of_some {q : σ} {id other : κ} {known data : δ} {options : ω}
    (hknown : queue.getJob q other = some known) :
    queue.getJob (queue.add q id data options) other = some known := by
  by_cases hsame : other = id
  · rw [hsame] at hknown ⊢
    exact h.add_known q id known data options hknown
  · rw [h.add_other q id other data options hsame]
    exact hknown

/-- A job that is there after `add` was there before, or is the one that was added. -/
theorem eq_or_eq_of_getJob_add {q : σ} {id other : κ} {data found : δ} {options : ω}
    (hfound : queue.getJob (queue.add q id data options) other = some found) :
    queue.getJob q other = some found ∨ other = id ∧ found = data := by
  by_cases hsame : other = id
  · rw [hsame] at hfound ⊢
    cases hjob : queue.getJob q id with
    | none =>
      rw [h.add_new q id data options hjob, Option.some.injEq] at hfound
      exact Or.inr ⟨rfl, hfound.symm⟩
    | some known =>
      rw [h.add_known q id known data options hjob] at hfound
      exact Or.inl hfound
  · rw [h.add_other q id other data options hsame] at hfound
    exact Or.inl hfound

/-- After `add` there is a job of the name, whoever added it, so an `add` that meets another
one is no loss. -/
theorem exists_getJob_add (q : σ) (id : κ) (data : δ) (options : ω) :
    ∃ found, queue.getJob (queue.add q id data options) id = some found := by
  cases hjob : queue.getJob q id with
  | none => exact ⟨data, h.add_new q id data options hjob⟩
  | some known => exact ⟨known, h.add_known q id known data options hjob⟩

end Lawful

end Service

/-! ## A line of jobs

The simplest queue that has the rules: the jobs wait in line, one that is done leaves, one
that failed stays to be tried again, and an operator may remove any. -/

variable [DecidableEq κ]

/-- Whether the queue has a job of the name. -/
def held (q : AList fun _ : κ => δ) (id : κ) : Bool := (q.lookup id).isSome

def line : Service (AList fun _ : κ => δ) κ δ ω κ where
  getJob := fun q id => q.lookup id
  add := fun q id data _ => if held q id then q else q.insert id data
  take := fun q id => (q.lookup id).map fun data => (data, q)
  complete := fun q id => if held q id then some (q.erase id) else none
  fail := fun q id => if held q id then some q else none
  move := fun q id => some (q.erase id)

/-- To take a job out of the line drops it and adds none. -/
theorem onlyDrops_erase (q : AList fun _ : κ => δ) (id : κ) :
    (line : Service (AList fun _ : κ => δ) κ δ ω κ).OnlyDrops q (q.erase id) := by
  intro other data hother
  change (q.erase id).lookup other = some data at hother
  by_cases hsame : other = id
  · rw [hsame, AList.lookup_erase] at hother
    cases hother
  · rw [AList.lookup_erase_ne hsame] at hother
    exact hother

/-- A line of jobs, each there once under its name, follows the rules. So what is proved of
lawful queues is proved of something. -/
theorem line_lawful : (line : Service (AList fun _ : κ => δ) κ δ ω κ).Lawful where
  add_new := by
    intro q id data options hnone
    change q.lookup id = none at hnone
    show (if held q id then q else q.insert id data).lookup id = some data
    rw [if_neg (show ¬ held q id = true by rw [held, hnone]; nofun), AList.lookup_insert]
  add_known := by
    intro q id known data options hknown
    change q.lookup id = some known at hknown
    show (if held q id then q else q.insert id data).lookup id = some known
    rw [if_pos (show held q id = true by rw [held, hknown]; rfl)]
    exact hknown
  add_other := by
    intro q id other data options hne
    show (if held q id then q else q.insert id data).lookup other = q.lookup other
    split
    · rfl
    · exact AList.lookup_insert_ne hne
  take_data := by
    intro q id data q' htake
    obtain ⟨found, hfound, heq⟩ := Option.map_eq_some_iff.1 htake
    cases heq
    exact hfound
  take_keeps := by
    intro q id data q' htake other
    obtain ⟨found, -, heq⟩ := Option.map_eq_some_iff.1 htake
    cases heq
    rfl
  -- what finishes or is moved may drop jobs, and never changes one
  complete := by
    intro q id q' h
    obtain ⟨-, h⟩ := Option.ite_none_right_eq_some.1 h
    obtain rfl := Option.some.inj h
    exact onlyDrops_erase q id
  fail := by
    intro q id q' h
    obtain ⟨-, h⟩ := Option.ite_none_right_eq_some.1 h
    obtain rfl := Option.some.inj h
    exact fun _ _ hjob => hjob
  move := by
    intro q id q' h
    obtain rfl := Option.some.inj h
    exact onlyDrops_erase q id

end JobQueue
