/-
Effectful programs over a state, which can throw and can be killed.

An effect takes a state to an outcome and a state. A thrown error can be caught;
a killed program runs no further code, handlers included, and leaves the state
as it was at the kill. `Ensures x s Q` says that `Q` holds of what `x` comes to
from `s`, and there is one rule for each way to build a program. A relation that
is reflexive and transitive is kept by a program whose parts keep it.
-/
import Mathlib.Order.Defs.Unbundled

set_option autoImplicit false

/-- How a program ends. -/
inductive Outcome (ε α : Type*)
  | ret (a : α)
  | throw (e : ε)
  | killed
deriving DecidableEq

def Effect (σ ε α : Type*) : Type _ := σ → Outcome ε α × σ

namespace Effect

universe u

variable {σ ε : Type*} {α β : Type u}

/-! ## Programs -/

/-- The next step after an outcome: only a returned value goes on. -/
def andThen (r : Outcome ε α × σ) (f : α → Effect σ ε β) : Outcome ε β × σ :=
  match r with
  | (Outcome.ret a, s) => f a s
  | (Outcome.throw e, s) => (Outcome.throw e, s)
  | (Outcome.killed, s) => (Outcome.killed, s)

instance : Monad (Effect σ ε) where
  pure a := fun s => (Outcome.ret a, s)
  bind x f := fun s => andThen (x s) f

def throw (e : ε) : Effect σ ε α := fun s => (Outcome.throw e, s)

/-- `try x catch (e) h`. -/
def tryCatch (x : Effect σ ε α) (h : ε → Effect σ ε α) : Effect σ ε α := fun s =>
  match x s with
  | (Outcome.throw e, s') => h e s'
  | r => r

/-- Read a part of the state. -/
def reads (f : σ → α) : Effect σ ε α := fun s => (Outcome.ret (f s), s)

def modify (f : σ → σ) : Effect σ ε Unit := fun s => (Outcome.ret (), f s)

/-! ## What a program comes to -/

/-- `Q` holds of the outcome and the state that `x` comes to from `s`. -/
def Ensures (x : Effect σ ε α) (s : σ) (Q : Outcome ε α → σ → Prop) : Prop := Q (x s).1 (x s).2

/-- What is asked of a first part when `Q` is asked of the whole. -/
def After (f : α → Effect σ ε β) (Q : Outcome ε β → σ → Prop) : Outcome ε α → σ → Prop
  | Outcome.ret a, s => Ensures (f a) s Q
  | Outcome.throw e, s => Q (Outcome.throw e) s
  | Outcome.killed, s => Q Outcome.killed s

/-- What is asked of a guarded part. -/
def Handled (h : ε → Effect σ ε α) (Q : Outcome ε α → σ → Prop) : Outcome ε α → σ → Prop
  | Outcome.throw e, s => Ensures (h e) s Q
  | o, s => Q o s

theorem ensures_pure {a : α} {s : σ} {Q : Outcome ε α → σ → Prop} (h : Q (Outcome.ret a) s) :
    Ensures (pure a) s Q := h

theorem ensures_reads {f : σ → α} {s : σ} {Q : Outcome ε α → σ → Prop}
    (h : Q (Outcome.ret (f s)) s) : Ensures (reads f) s Q := h

theorem ensures_modify {f : σ → σ} {s : σ} {Q : Outcome ε Unit → σ → Prop}
    (h : Q (Outcome.ret ()) (f s)) : Ensures (modify f) s Q := h

theorem Ensures.mono {x : Effect σ ε α} {s : σ} {Q Q' : Outcome ε α → σ → Prop}
    (h : Ensures x s Q) (hQ : ∀ o t, Q o t → Q' o t) : Ensures x s Q' := hQ _ _ h

/-- **Sequence.** What is asked of the whole is asked of the second part where the first one
returns, and of the first part alone where it throws or is killed: nothing behind it runs
then. -/
theorem ensures_bind {x : Effect σ ε α} {f : α → Effect σ ε β} {s : σ}
    {Q : Outcome ε β → σ → Prop} (h : Ensures x s (After f Q)) : Ensures (x >>= f) s Q := by
  unfold Ensures at h ⊢
  show Q (andThen (x s) f).1 (andThen (x s) f).2
  rcases hx : x s with ⟨o, s'⟩
  rw [hx] at h
  cases o with
  | ret a => exact h
  | throw e => exact h
  | killed => exact h

/-- **Guarded program.** The handler runs when the guarded part throws. It does not run when
that part is killed, which is what makes a kill worse than an error. -/
theorem ensures_tryCatch {x : Effect σ ε α} {h : ε → Effect σ ε α} {s : σ}
    {Q : Outcome ε α → σ → Prop} (hx : Ensures x s (Handled h Q)) :
    Ensures (tryCatch x h) s Q := by
  unfold Ensures at hx ⊢
  unfold tryCatch
  rcases hs : x s with ⟨o, s'⟩
  rw [hs] at hx
  cases o with
  | ret a => exact hx
  | throw e => exact hx
  | killed => exact hx

/-- The outcome and the state are what the program comes to. An effect has no choices of its
own: whatever is not decided by the code is in its state. -/
theorem ensures_iff {x : Effect σ ε α} {s : σ} {Q : Outcome ε α → σ → Prop} :
    Ensures x s Q ↔ ∀ o t, x s = (o, t) → Q o t := by
  constructor
  · intro h o t hx
    unfold Ensures at h
    rwa [hx] at h
  · intro h
    exact h _ _ rfl

/-! ## What a program returns -/

/-- `P` holds of every value that `x` returns from `s`, and of the state then. -/
def Yields (x : Effect σ ε α) (s : σ) (P : α → σ → Prop) : Prop :=
  ∀ a t, x s = (Outcome.ret a, t) → P a t

theorem yields_pure {a : α} {s : σ} {P : α → σ → Prop} (h : P a s) :
    Yields (pure a : Effect σ ε α) s P := by
  rintro b t ⟨⟩
  exact h

theorem yields_throw {e : ε} {s : σ} {P : α → σ → Prop} : Yields (throw e) s P := by
  rintro a t ⟨⟩

theorem yields_reads {f : σ → α} {s : σ} {P : α → σ → Prop} (h : P (f s) s) :
    Yields (reads f : Effect σ ε α) s P := by
  rintro a t ⟨⟩
  exact h

theorem yields_modify {f : σ → σ} {s : σ} {P : Unit → σ → Prop} (h : P () (f s)) :
    Yields (modify f : Effect σ ε Unit) s P := by
  rintro a t ⟨⟩
  exact h

theorem Yields.mono {x : Effect σ ε α} {s : σ} {P P' : α → σ → Prop} (h : Yields x s P)
    (hP : ∀ a t, P a t → P' a t) : Yields x s P' := fun a t hx => hP a t (h a t hx)

/-- The value and the state are what the program returns. -/
theorem yields_self {x : Effect σ ε α} {s : σ} :
    Yields x s fun a t => x s = (Outcome.ret a, t) := fun _ _ h => h

/-- A sequence returns what its second part returns after its first returned. -/
theorem bind_eq_ret {x : Effect σ ε α} {f : α → Effect σ ε β} {s t : σ} {b : β}
    (h : (x >>= f) s = (Outcome.ret b, t)) :
    ∃ a u, x s = (Outcome.ret a, u) ∧ f a u = (Outcome.ret b, t) := by
  change andThen (x s) f = (Outcome.ret b, t) at h
  rcases hx : x s with ⟨o, u⟩
  rw [hx] at h
  cases o with
  | ret a => exact ⟨a, u, rfl, h⟩
  | throw e => cases h
  | killed => cases h

theorem yields_bind {x : Effect σ ε α} {f : α → Effect σ ε β} {s : σ} {P : α → σ → Prop}
    {Q : β → σ → Prop} (hx : Yields x s P) (hf : ∀ a t, P a t → Yields (f a) t Q) :
    Yields (x >>= f) s Q := by
  intro b t h
  obtain ⟨a, u, ha, hb⟩ := bind_eq_ret h
  exact hf a u (hx a u ha) b t hb

/-- What a guarded program returns is returned by the guarded part or by its handler. -/
theorem yields_tryCatch {x : Effect σ ε α} {h : ε → Effect σ ε α} {s : σ} {P : α → σ → Prop}
    (hx : Yields x s P) (hh : ∀ e t, x s = (Outcome.throw e, t) → Yields (h e) t P) :
    Yields (tryCatch x h) s P := by
  intro a t ht
  unfold tryCatch at ht
  rcases hs : x s with ⟨o, u⟩
  rw [hs] at ht
  cases o with
  | ret b => exact hx a t (hs.trans ht)
  | throw e => exact hh e u hs a t ht
  | killed => cases ht

/-- A run is its outcome and the state it ends in. -/
theorem eq_of_outcome {x : Effect σ ε α} {s : σ} {o : Outcome ε α} (h : (x s).1 = o) :
    x s = (o, (x s).2) := by
  rw [← h]

/-! ## Relations that a program keeps -/

/-- The state a program starts in and the state it ends in are related by `R`,
however it ends. -/
def Moves (R : σ → σ → Prop) (x : Effect σ ε α) : Prop := ∀ s, R s (x s).2

section Moves

variable {R : σ → σ → Prop} [IsPreorder σ R]

theorem moves_pure (a : α) : Moves R (pure a : Effect σ ε α) := fun s => refl_of R s

theorem moves_throw (e : ε) : Moves R (throw e : Effect σ ε α) := fun s => refl_of R s

theorem moves_reads (f : σ → α) : Moves R (reads f : Effect σ ε α) := fun s => refl_of R s

/-- A relation that is kept by both parts is kept by their sequence, however it ends. With the
rules around this one, a whole program keeps a relation as soon as its calls do. -/
theorem moves_bind {x : Effect σ ε α} {f : α → Effect σ ε β} (hx : Moves R x)
    (hf : ∀ a, Moves R (f a)) : Moves R (x >>= f) := by
  intro s
  show R s (andThen (x s) f).2
  have hs := hx s
  rcases h : x s with ⟨o, s'⟩
  rw [h] at hs
  cases o with
  | ret a => exact trans_of R hs (hf a s')
  | throw e => exact hs
  | killed => exact hs

theorem moves_tryCatch {x : Effect σ ε α} {h : ε → Effect σ ε α} (hx : Moves R x)
    (hh : ∀ e, Moves R (h e)) : Moves R (tryCatch x h) := by
  intro s
  unfold tryCatch
  have hs := hx s
  rcases hr : x s with ⟨o, s'⟩
  rw [hr] at hs
  cases o with
  | ret a => exact hs
  | throw e => exact trans_of R hs (hh e s')
  | killed => exact hs

end Moves

theorem Moves.mono {R R' : σ → σ → Prop} {x : Effect σ ε α} (h : Moves R x)
    (hR : ∀ s t, R s t → R' s t) : Moves R' x := fun s => hR s _ (h s)

/-- What a program that keeps `R` returns, it returns in a state related to the first. -/
theorem Moves.yields {R : σ → σ → Prop} {x : Effect σ ε α} {s : σ} {P : α → σ → Prop}
    (h : Moves R x) (hP : Yields x s P) : Yields x s fun a t => R s t ∧ P a t := by
  intro a t hx
  have hs := h s
  rw [hx] at hs
  exact ⟨hs, hP a t hx⟩

/-- A first part that keeps `R`, and what it returns, before what the whole ensures. This is
the rule for a call between two others: the call is known by what it leaves and answers, not
by what it does. -/
theorem Moves.ensures_bind {R : σ → σ → Prop} {x : Effect σ ε α} {f : α → Effect σ ε β} {s : σ}
    {P : α → σ → Prop} {Q : Outcome ε β → σ → Prop} (hx : Moves R x) (hP : Yields x s P)
    (hf : ∀ a t, R s t → P a t → Ensures (f a) t Q) (hthrow : ∀ e t, R s t → Q (Outcome.throw e) t)
    (hkilled : ∀ t, R s t → Q Outcome.killed t) : Ensures (x >>= f) s Q := by
  apply Effect.ensures_bind
  rw [ensures_iff]
  intro o t hs
  have hR : R s t := by simpa [hs] using hx s
  cases o with
  | ret a => exact hf a t hR (hP a t hs)
  | throw e => exact hthrow e t hR
  | killed => exact hkilled t hR

theorem Ensures.and {x : Effect σ ε α} {s : σ} {Q Q' : Outcome ε α → σ → Prop}
    (h : Ensures x s Q) (h' : Ensures x s Q') : Ensures x s fun o t => Q o t ∧ Q' o t := ⟨h, h'⟩

/-! ## What a program adds to a log -/

section Appends

variable {lam : Type*} {log : σ → List lam}

/-- A program only adds to the log, and `Q` holds of its outcome and the lines it
adds. -/
def Appends (log : σ → List lam) (x : Effect σ ε α) (Q : Outcome ε α → List lam → Prop) : Prop :=
  ∀ s, ∃ new, log (x s).2 = log s ++ new ∧ Q (x s).1 new

theorem Appends.mono {x : Effect σ ε α} {Q Q' : Outcome ε α → List lam → Prop}
    (h : Appends log x Q) (hQ : ∀ o new, Q o new → Q' o new) : Appends log x Q' := fun s =>
  (h s).imp fun new hnew => ⟨hnew.1, hQ _ new hnew.2⟩

/-- A program that adds nothing. -/
theorem appends_nil {x : Effect σ ε α} {Q : Outcome ε α → List lam → Prop}
    (hx : ∀ s, log (x s).2 = log s) (h : ∀ o, Q o []) : Appends log x Q := fun s =>
  ⟨[], by rw [hx, List.append_nil], h _⟩

theorem appends_pure {a : α} {Q : Outcome ε α → List lam → Prop} (h : Q (Outcome.ret a) []) :
    Appends log (pure a : Effect σ ε α) Q := fun _ => ⟨[], (List.append_nil _).symm, h⟩

theorem appends_throw {e : ε} {Q : Outcome ε α → List lam → Prop} (h : Q (Outcome.throw e) []) :
    Appends log (throw e : Effect σ ε α) Q := fun _ => ⟨[], (List.append_nil _).symm, h⟩

/-- **Sequence.** The lines of the first part come before those of the second. -/
theorem appends_bind {x : Effect σ ε α} {f : α → Effect σ ε β} {P : Outcome ε α → List lam → Prop}
    {Q : Outcome ε β → List lam → Prop} (hx : Appends log x P)
    (hret : ∀ a new, P (Outcome.ret a) new → Appends log (f a) fun o new' => Q o (new ++ new'))
    (hthrow : ∀ e new, P (Outcome.throw e) new → Q (Outcome.throw e) new)
    (hkilled : ∀ new, P Outcome.killed new → Q Outcome.killed new) : Appends log (x >>= f) Q := by
  intro s
  show ∃ new, log (andThen (x s) f).2 = log s ++ new ∧ Q (andThen (x s) f).1 new
  obtain ⟨new, hlog, hP⟩ := hx s
  rcases hs : x s with ⟨o, t⟩
  rw [hs] at hlog hP
  cases o with
  | ret a =>
    obtain ⟨new', hlog', hQ⟩ := hret a new hP t
    refine ⟨new ++ new', ?_, hQ⟩
    show log (f a t).2 = _
    rw [hlog', hlog, List.append_assoc]
  | throw e => exact ⟨new, hlog, hthrow e new hP⟩
  | killed => exact ⟨new, hlog, hkilled new hP⟩

/-- **Guarded program.** The lines of the handler come behind those that the guarded part had
added when it threw. -/
theorem appends_tryCatch {x : Effect σ ε α} {h : ε → Effect σ ε α}
    {P Q : Outcome ε α → List lam → Prop} (hx : Appends log x P)
    (hret : ∀ a new, P (Outcome.ret a) new → Q (Outcome.ret a) new)
    (hthrow : ∀ e new, P (Outcome.throw e) new → Appends log (h e) fun o new' => Q o (new ++ new'))
    (hkilled : ∀ new, P Outcome.killed new → Q Outcome.killed new) :
    Appends log (tryCatch x h) Q := by
  intro s
  obtain ⟨new, hlog, hP⟩ := hx s
  unfold tryCatch
  rcases hs : x s with ⟨o, t⟩
  rw [hs] at hlog hP
  cases o with
  | ret a => exact ⟨new, hlog, hret a new hP⟩
  | throw e =>
    obtain ⟨new', hlog', hQ⟩ := hthrow e new hP t
    refine ⟨new ++ new', ?_, hQ⟩
    show log (h e t).2 = _
    rw [hlog', hlog, List.append_assoc]
  | killed => exact ⟨new, hlog, hkilled new hP⟩

end Appends

end Effect
