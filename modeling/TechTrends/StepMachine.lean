/-
Partial labelled step machines, and the induction rules for their runs.

A machine is one function: what a labelled step does to a state, or `none` when
the step is not possible there. All nondeterminism is in the labels, so that a
run is the list of its labels and a concrete run can be evaluated.

The rules are of three kinds. What every step keeps, every run keeps. What every
step keeps *under a condition on the state before it* is kept by the runs whose
steps all meet the condition. And a relation that every step only moves along is
a relation between the two ends of a run.
-/
import Mathlib.Data.List.Basic
import Mathlib.Data.List.Induction
import Mathlib.Data.Option.Basic

set_option autoImplicit false

/-- A partial step function with labels. -/
structure StepMachine (σ α : Type*) where
  /-- The state after the step labelled `a`, when that step is possible. -/
  step : σ → α → Option σ

namespace StepMachine

variable {σ α : Type*} (M : StepMachine σ α)

/-! ## Runs -/

/-- The state after the steps `as`, or `none` when one of them is not possible. -/
def run : List α → σ → Option σ
  | [], s => some s
  | a :: as, s => (M.step s a).bind (run as)

@[simp] theorem run_nil (s : σ) : M.run [] s = some s := rfl

theorem run_cons (a : α) (as : List α) (s : σ) :
    M.run (a :: as) s = (M.step s a).bind (M.run as) := rfl

/-- A nonempty run is one step and the rest of the run. It is the form in which inductions on
the labels use a run. -/
theorem run_cons_eq_some {a : α} {as : List α} {s u : σ} :
    M.run (a :: as) s = some u ↔ ∃ t, M.step s a = some t ∧ M.run as t = some u := by
  rw [run_cons, Option.bind_eq_some_iff]

theorem run_append (as bs : List α) (s : σ) :
    M.run (as ++ bs) s = (M.run as s).bind (M.run bs) := by
  induction as generalizing s with
  | nil => rfl
  | cons a as ih =>
    rw [List.cons_append, run_cons, run_cons, Option.bind_assoc]
    exact congrArg _ (funext ih)

/-- A run of two pieces passes through a middle state. -/
theorem run_append_eq_some {as bs : List α} {s u : σ} :
    M.run (as ++ bs) s = some u ↔ ∃ t, M.run as s = some t ∧ M.run bs t = some u := by
  rw [run_append, Option.bind_eq_some_iff]

/-! ## Invariants -/

/-- `P` is kept by every step that meets `ok` at the state before it. -/
def KeepsIf (ok : σ → α → Prop) (P : σ → Prop) : Prop :=
  ∀ s a t, P s → ok s a → M.step s a = some t → P t

/-- `P` is kept by every step. -/
def Keeps (P : σ → Prop) : Prop :=
  ∀ s a t, P s → M.step s a = some t → P t

/-- Every step of the run `as` from `s` meets `ok` at the state before it. -/
def Meets (ok : σ → α → Prop) : List α → σ → Prop
  | [], _ => True
  | a :: as, s => ok s a ∧ ∀ t, M.step s a = some t → Meets ok as t

/-- Along a run on concrete labels, a decidable condition is evaluated. -/
instance decidableMeets {ok : σ → α → Prop} [∀ s a, Decidable (ok s a)] :
    ∀ (as : List α) (s : σ), Decidable (M.Meets ok as s)
  | [], _ => isTrue trivial
  | a :: as, s =>
    match hstep : M.step s a with
    | none => decidable_of_iff (ok s a) ⟨fun h => ⟨h, fun t ht => by rw [hstep] at ht; cases ht⟩,
        fun h => h.1⟩
    | some t =>
      have : Decidable (M.Meets ok as t) := decidableMeets as t
      decidable_of_iff (ok s a ∧ M.Meets ok as t)
        ⟨fun h => ⟨h.1, fun u hu => by rw [hstep] at hu; cases hu; exact h.2⟩,
          fun h => ⟨h.1, h.2 t hstep⟩⟩

/-- **The run rule, under a condition.** What a step keeps under `ok`, a run whose steps all
meet `ok` keeps. By induction on the labels, from the first step on. -/
theorem KeepsIf.run {ok : σ → α → Prop} {P : σ → Prop} (h : M.KeepsIf ok P) :
    ∀ {as : List α} {s t : σ}, P s → M.Meets ok as s → M.run as s = some t → P t := by
  intro as
  induction as with
  | nil =>
    intro s t hs _ hr
    rw [run_nil, Option.some.injEq] at hr
    exact hr ▸ hs
  | cons a as ih =>
    intro s t hs hok hr
    obtain ⟨m, hm, hr⟩ := (M.run_cons_eq_some).1 hr
    exact ih (h s a m hs hok.1 hm) (hok.2 m hm) hr

/-- **The run rule.** What every step keeps, every run keeps: the invariant of a machine is
shown at its steps. -/
theorem Keeps.run {P : σ → Prop} (h : M.Keeps P) :
    ∀ {as : List α} {s t : σ}, P s → M.run as s = some t → P t := by
  intro as
  induction as with
  | nil =>
    intro s t hs hr
    rw [run_nil, Option.some.injEq] at hr
    exact hr ▸ hs
  | cons a as ih =>
    intro s t hs hr
    obtain ⟨m, hm, hr⟩ := (M.run_cons_eq_some).1 hr
    exact ih (h s a m hs hm) hr

/-- One step, and the rest. -/
theorem Meets.cons {ok : σ → α → Prop} {a : α} {as : List α} {s t : σ} (hstep : M.step s a = some t)
    (ha : ok s a) (has : M.Meets ok as t) : M.Meets ok (a :: as) s := by
  refine ⟨ha, fun t' ht' => ?_⟩
  rw [hstep] at ht'
  cases ht'
  exact has

/-- A condition that follows from another one carries a run along. -/
theorem Meets.mono {ok ok' : σ → α → Prop} (h : ∀ s a, ok s a → ok' s a) :
    ∀ {as : List α} {s : σ}, M.Meets ok as s → M.Meets ok' as s := by
  intro as
  induction as with
  | nil => exact fun _ => trivial
  | cons a as ih => exact fun hs => ⟨h _ _ hs.1, fun t ht => ih (hs.2 t ht)⟩

/-- A condition that the labels meet in every state is met along the run. -/
theorem Meets.of_labels {ok : σ → α → Prop} :
    ∀ {as : List α} {s : σ}, (∀ a ∈ as, ∀ s, ok s a) → M.Meets ok as s := by
  intro as
  induction as with
  | nil => exact fun _ => trivial
  | cons a as ih =>
    intro s h
    exact ⟨h a List.mem_cons_self s, fun t _ => ih fun b hb => h b (List.mem_cons_of_mem a hb)⟩

/-- The first part of a run meets what the run meets. -/
theorem Meets.left {ok : σ → α → Prop} {bs : List α} :
    ∀ {as : List α} {s : σ}, M.Meets ok (as ++ bs) s → M.Meets ok as s := by
  intro as
  induction as with
  | nil => exact fun _ => trivial
  | cons a as ih => exact fun hs => ⟨hs.1, fun t ht => ih (hs.2 t ht)⟩

/-- A run meets what its two parts meet. -/
theorem Meets.append {ok : σ → α → Prop} {bs : List α} {t : σ} :
    ∀ {as : List α} {s : σ}, M.Meets ok as s → M.run as s = some t → M.Meets ok bs t → M.Meets ok (as ++ bs) s := by
  intro as
  induction as with
  | nil =>
    intro s _ hrun hbs
    obtain rfl := Option.some.inj hrun
    exact hbs
  | cons a as ih =>
    intro s hs hrun hbs
    obtain ⟨m, hm, hrun⟩ := (M.run_cons_eq_some).1 hrun
    exact Meets.cons M hm hs.1 (ih (hs.2 m hm) hrun hbs)

/-- Two conditions on the steps of a run are one. -/
theorem Meets.and {ok ok' : σ → α → Prop} :
    ∀ {as : List α} {s : σ}, M.Meets ok as s → M.Meets ok' as s →
      M.Meets (fun s a => ok s a ∧ ok' s a) as s := by
  intro as
  induction as with
  | nil => exact fun _ _ => trivial
  | cons a as ih => exact fun hs hs' => ⟨⟨hs.1, hs'.1⟩, fun t ht => ih (hs.2 t ht) (hs'.2 t ht)⟩

/-- The steps of a run meet `ok` exactly when each one does at the state the steps before it
lead to. This is what the condition says to somebody who looks at one step in the middle. -/
theorem meets_iff {ok : σ → α → Prop} {as : List α} {s : σ} :
    M.Meets ok as s ↔
      ∀ pre a post t, as = pre ++ a :: post → M.run pre s = some t → ok t a := by
  induction as generalizing s with
  | nil => simp [Meets]
  | cons b as ih =>
    constructor
    · rintro ⟨hb, has⟩ pre a post t hsplit hr
      cases pre with
      | nil =>
        rw [List.nil_append, List.cons.injEq] at hsplit
        rw [run_nil, Option.some.injEq] at hr
        rw [← hsplit.1, ← hr]
        exact hb
      | cons c pre =>
        rw [List.cons_append, List.cons.injEq] at hsplit
        rw [← hsplit.1] at hr
        obtain ⟨m, hm, hr⟩ := (M.run_cons_eq_some).1 hr
        exact (ih.1 (has m hm)) pre a post t hsplit.2 hr
    · intro h
      refine ⟨h [] b as s rfl rfl, fun m hm => ih.2 ?_⟩
      intro pre a post t hsplit hr
      exact h (b :: pre) a post t (by rw [hsplit]; rfl) ((M.run_cons_eq_some).2 ⟨m, hm, hr⟩)

/-- **The exact condition, with an invariant.** Where `K` is kept as long as `P` holds, and a
step from there keeps `P` exactly when it meets `ok`, a run keeps `P` in all its states
exactly when all its steps meet `ok`. A step that is not possible has to meet it. -/
theorem throughout_iff_of_kept {ok : σ → α → Prop} {P K : σ → Prop}
    (stuck : ∀ s a, M.step s a = none → ok s a)
    (kept : ∀ s a t, K s → P s → M.step s a = some t → P t → K t)
    (exact : ∀ s a t, K s → P s → M.step s a = some t → (P t ↔ ok s a)) {as : List α} {s : σ}
    (hK : K s) (hP : P s) :
    (∀ pre post t, as = pre ++ post → M.run pre s = some t → P t) ↔ M.Meets ok as s := by
  induction as generalizing s with
  | nil =>
    refine iff_of_true (fun pre post t hsplit hr => ?_) trivial
    rw [(List.append_eq_nil_iff.1 hsplit.symm).1, run_nil, Option.some.injEq] at hr
    exact hr ▸ hP
  | cons a as ih =>
    constructor
    · intro h
      have hnext : ∀ t, M.step s a = some t → P t := fun t ht =>
        h [a] as t rfl ((M.run_cons_eq_some).2 ⟨t, ht, rfl⟩)
      refine ⟨?_, fun t ht => (ih (kept s a t hK hP ht (hnext t ht)) (hnext t ht)).1 ?_⟩
      · cases ha : M.step s a with
        | none => exact stuck s a ha
        | some t => exact (exact s a t hK hP ha).1 (hnext t ha)
      · intro pre post u hsplit hr
        exact h (a :: pre) post u (by rw [hsplit]; rfl) ((M.run_cons_eq_some).2 ⟨t, ht, hr⟩)
    · rintro ⟨hok, hrest⟩ pre post u hsplit hr
      cases pre with
      | nil =>
        rw [run_nil, Option.some.injEq] at hr
        exact hr ▸ hP
      | cons b pre =>
        rw [List.cons_append, List.cons.injEq] at hsplit
        obtain ⟨t, ht, hr⟩ := (M.run_cons_eq_some).1 hr
        rw [← hsplit.1] at ht
        have hPt := (exact s a t hK hP ht).2 hok
        exact (ih (kept s a t hK hP ht hPt) hPt).2 (hrest t ht) pre post u hsplit.2 hr

/-- **The exact condition.** Where a step of a total machine keeps `P` exactly when
it meets `ok`, a run keeps `P` in all its states exactly when all its steps meet
`ok`. -/
theorem throughout_iff {ok : σ → α → Prop} {P : σ → Prop} (total : ∀ s a, ∃ t, M.step s a = some t)
    (exact : ∀ s a t, P s → M.step s a = some t → (P t ↔ ok s a)) {as : List α} {s : σ} (hs : P s) :
    (∀ pre post t, as = pre ++ post → M.run pre s = some t → P t) ↔ M.Meets ok as s := by
  refine throughout_iff_of_kept M (K := fun _ => True) (fun s a hnone => ?_) (fun _ _ _ _ _ _ _ => trivial)
    (fun s a t _ => exact s a t) trivial hs
  obtain ⟨t, ht⟩ := total s a
  rw [hnone] at ht
  cases ht

/-! ## What can be reached -/

/-- From `s`, a run of at most `n` steps that meet `ok` leads to a state with `P`. -/
def Reaches (ok : σ → α → Prop) (n : ℕ) (P : σ → Prop) (s : σ) : Prop :=
  ∃ as t, as.length ≤ n ∧ M.Meets ok as s ∧ M.run as s = some t ∧ P t

section Reaches

variable {M} {ok : σ → α → Prop} {P Q : σ → Prop} {m n : ℕ} {s t : σ}

theorem Reaches.now (hs : P s) : M.Reaches ok n P s :=
  ⟨[], s, Nat.zero_le n, trivial, rfl, hs⟩

theorem Reaches.next {a : α} (hok : ok s a) (hstep : M.step s a = some t)
    (h : M.Reaches ok n P t) : M.Reaches ok (n + 1) P s := by
  obtain ⟨as, u, hlength, hmeets, hrun, hu⟩ := h
  refine ⟨a :: as, u, Nat.succ_le_succ hlength, Meets.cons M hstep hok hmeets, ?_, hu⟩
  exact M.run_cons_eq_some.2 ⟨t, hstep, hrun⟩

theorem Reaches.mono (h : M.Reaches ok m P s) (hmn : m ≤ n) : M.Reaches ok n P s := by
  obtain ⟨as, t, hlength, hrest⟩ := h
  exact ⟨as, t, Nat.le_trans hlength hmn, hrest⟩

/-- What is reached may be gone on from. The run so far is given, for what it has kept. -/
theorem Reaches.bind (h : M.Reaches ok m P s)
    (hnext : ∀ as t, M.run as s = some t → P t → M.Reaches ok n Q t) :
    M.Reaches ok (m + n) Q s := by
  obtain ⟨as, t, hlength, hmeets, hrun, ht⟩ := h
  obtain ⟨bs, u, hlength', hmeets', hrun', hu⟩ := hnext as t hrun ht
  refine ⟨as ++ bs, u, ?_, Meets.append M hmeets hrun hmeets', ?_, hu⟩
  · rw [List.length_append]
    omega
  · exact M.run_append_eq_some.2 ⟨t, hrun, hrun'⟩

end Reaches

/-! ## The ends of a run, and the states between them -/

/-- A preorder that every step moves along relates the two ends of a run: what grows, and what
is never taken back. -/
theorem run_rel {R : σ → σ → Prop} (refl : ∀ s, R s s)
    (trans : ∀ s t u, R s t → R t u → R s u)
    (step : ∀ s a t, M.step s a = some t → R s t) :
    ∀ {as : List α} {s t : σ}, M.run as s = some t → R s t := by
  intro as
  induction as with
  | nil =>
    intro s t hr
    rw [run_nil, Option.some.injEq] at hr
    exact hr ▸ refl s
  | cons a as ih =>
    intro s t hr
    obtain ⟨m, hm, hr⟩ := (M.run_cons_eq_some).1 hr
    exact trans s m t (step s a m hm) (ih hr)

/-- A run does not skip a value of a count that no step raises by more than one: for each
value between the first and the last one there is a state of the run that has it. -/
theorem run_passes {f : σ → ℕ} (step : ∀ s a t, M.step s a = some t → f t ≤ f s + 1) {n : ℕ} :
    ∀ {as : List α} {s t : σ}, M.run as s = some t → f s ≤ n → n ≤ f t →
      ∃ pre post u, as = pre ++ post ∧ M.run pre s = some u ∧ M.run post u = some t ∧ f u = n := by
  intro as
  induction as with
  | nil =>
    intro s t h hlow hhigh
    obtain rfl := Option.some.inj h
    exact ⟨[], [], s, rfl, rfl, rfl, Nat.le_antisymm hlow hhigh⟩
  | cons a as ih =>
    intro s t h hlow hhigh
    rcases Nat.eq_or_lt_of_le hlow with heq | hlt
    · exact ⟨[], a :: as, s, rfl, rfl, h, heq⟩
    · obtain ⟨m, hm, hr⟩ := (M.run_cons_eq_some).1 h
      obtain ⟨pre, post, u, hsplit, hpre, hpost, hu⟩ := ih hr (by have := step s a m hm; omega) hhigh
      exact ⟨a :: pre, post, u, by rw [hsplit]; rfl, (M.run_cons_eq_some).2 ⟨m, hm, hpre⟩, hpost, hu⟩

/-- **The run rule, with the past.** What holds of no steps and is carried on by every step,
together with the steps before it, holds of every run and its end. It is for properties of a
state that speak of how it was reached. -/
theorem run_history {P : List α → σ → Prop} {s : σ} (init : P [] s)
    (step : ∀ as t a u, P as t → M.step t a = some u → P (as ++ [a]) u) {as : List α} {t : σ}
    (h : M.run as s = some t) : P as t := by
  induction as using List.reverseRecOn generalizing t with
  | nil =>
    rw [run_nil, Option.some.injEq] at h
    exact h ▸ init
  | append_singleton as a ih =>
    obtain ⟨m, hm, ha⟩ := (M.run_append_eq_some).1 h
    obtain ⟨u, hu, hnil⟩ := (M.run_cons_eq_some).1 ha
    rw [run_nil, Option.some.injEq] at hnil
    exact hnil ▸ step as m a u (ih hm) hu

end StepMachine
