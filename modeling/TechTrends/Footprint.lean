/-
Operations on a keyed store, and the keys they depend on.

An operation takes a store to an answer and a store. It *stays within* a set of
keys when what it answers and writes is a function of these keys, and it leaves
the other keys alone. Operations that stay within a set are not affected by
operations that leave the set alone: in any interleaving of the two kinds, the
first are answered as if the second had not happened (`answers_filter`).
-/
import Mathlib.Data.Set.Basic

set_option autoImplicit false

namespace Footprint

variable {κ ν ρ α : Type*}

/-- The stores agree on the keys `K`. -/
def Agree (K : Set κ) (s t : κ → ν) : Prop := ∀ k ∈ K, s k = t k

theorem Agree.refl (K : Set κ) (s : κ → ν) : Agree K s s := fun _ _ => rfl

theorem Agree.symm {K : Set κ} {s t : κ → ν} (h : Agree K s t) : Agree K t s :=
  fun k hk => (h k hk).symm

theorem Agree.trans {K : Set κ} {s t u : κ → ν} (h : Agree K s t) (h' : Agree K t u) : Agree K s u :=
  fun k hk => (h k hk).trans (h' k hk)

/-- What `op` answers and writes on `K` is a function of the store on `K`. -/
def Within (K : Set κ) (op : (κ → ν) → ρ × (κ → ν)) : Prop :=
  ∀ s t, Agree K s t → (op s).1 = (op t).1 ∧ Agree K (op s).2 (op t).2

/-- `op` writes no key of `K`. -/
def Leaves (K : Set κ) (op : (κ → ν) → ρ × (κ → ν)) : Prop := ∀ s, Agree K (op s).2 s

theorem Leaves.mono {K L : Set κ} {op : (κ → ν) → ρ × (κ → ν)} (h : Leaves L op) (hKL : K ⊆ L) :
    Leaves K op := fun s k hk => h s k (hKL hk)

/-- The operations one after the other, each with its answer. -/
def answers (op : α → (κ → ν) → ρ × (κ → ν)) : List α → (κ → ν) → List (α × ρ)
  | [], _ => []
  | a :: as, s => (a, (op a s).1) :: answers op as (op a s).2

/-- **Isolation.** Where the operations of one kind stay within `K` and all others leave `K`
alone, the first kind is answered as if it were alone. The two runs are on different stores;
what they have in common throughout is what is under the keys of `K`. -/
theorem answers_filter {K : Set κ} (op : α → (κ → ν) → ρ × (κ → ν)) (mine : α → Bool)
    (hmine : ∀ a, mine a = true → Within K (op a)) (hother : ∀ a, mine a = false → Leaves K (op a))
    (as : List α) : ∀ {s t : κ → ν}, Agree K s t →
      (answers op as s).filter (fun x => mine x.1) = answers op (as.filter mine) t := by
  induction as with
  | nil => exact fun _ => rfl
  | cons a as ih =>
    intro s t h
    cases ha : mine a with
    | true =>
      obtain ⟨hanswer, hnext⟩ := hmine a ha s t h
      rw [answers, List.filter_cons_of_pos (by exact ha), List.filter_cons_of_pos ha, answers, hanswer,
        ih hnext]
    | false =>
      have hskip : ¬ mine a = true := by rw [ha]; decide
      rw [answers, List.filter_cons_of_neg (by exact hskip), List.filter_cons_of_neg hskip]
      exact ih ((hother a ha s).trans h)

end Footprint
