/-
Calls in flight, some of which will answer a question.

The calls are kept in a list; `key` says which question a call answers, when it
answers one of the kind in view. An answer that is still to come is `Awaits`, and
what a list operation does to it is said here once for any calls and any keys.
-/
import Mathlib.Data.List.Basic

set_option autoImplicit false

namespace InFlight

variable {γ κ : Type*} {key : γ → Option κ} {calls : List γ} {k : κ}

/-- One of the calls will answer `k`. -/
def Awaits (key : γ → Option κ) (calls : List γ) (k : κ) : Prop := ∃ c ∈ calls, key c = some k

instance [DecidableEq κ] (key : γ → Option κ) (calls : List γ) (k : κ) :
    Decidable (Awaits key calls k) :=
  inferInstanceAs (Decidable (∃ c ∈ calls, key c = some k))

theorem not_awaits_nil : ¬ Awaits key [] k := by
  rintro ⟨c, hc, -⟩
  exact List.not_mem_nil hc

/-- A further call takes no answer away. -/
theorem Awaits.append (h : Awaits key calls k) (more : List γ) : Awaits key (calls ++ more) k := by
  obtain ⟨c, hc, hk⟩ := h
  exact ⟨c, List.mem_append_left more hc, hk⟩

/-- The call that was just made will answer its question. -/
theorem awaits_concat (key : γ → Option κ) {c : γ} (h : key c = some k) (calls : List γ) : Awaits key (calls ++ [c]) k :=
  ⟨c, List.mem_append_right calls (List.mem_singleton_self c), h⟩

/-- The calls are the one at an index and the others. -/
theorem mem_iff_eraseIdx {i : ℕ} {c d : γ} (h : calls[i]? = some c) :
    d ∈ calls ↔ d = c ∨ d ∈ calls.eraseIdx i := by
  obtain ⟨hi, rfl⟩ := List.getElem?_eq_some_iff.1 h
  have hsplit : calls.eraseIdx i = calls.take i ++ calls.drop (i + 1) := List.eraseIdx_eq_take_drop_succ calls i
  have hcalls : calls = calls.take i ++ calls[i] :: calls.drop (i + 1) := by
    rw [List.getElem_cons_drop, List.take_append_drop]
  constructor
  · intro hd
    rw [hcalls] at hd
    rw [hsplit]
    simp only [List.mem_append, List.mem_cons] at hd ⊢
    tauto
  · rintro (rfl | hd)
    · exact List.getElem_mem hi
    · exact List.mem_of_mem_eraseIdx hd

/-- When a call ends, `k` was its question, or the others still answer it. Two calls with the
same question are two entries of the list, and the one is awaited after the other has ended. -/
theorem awaits_iff_eraseIdx {i : ℕ} {c : γ} (h : calls[i]? = some c) :
    Awaits key calls k ↔ key c = some k ∨ Awaits key (calls.eraseIdx i) k := by
  constructor
  · rintro ⟨d, hd, hk⟩
    rcases (mem_iff_eraseIdx h).1 hd with rfl | hd
    · exact Or.inl hk
    · exact Or.inr ⟨d, hd, hk⟩
  · rintro (hk | ⟨d, hd, hk⟩)
    · exact ⟨c, (mem_iff_eraseIdx h).2 (Or.inl rfl), hk⟩
    · exact ⟨d, (mem_iff_eraseIdx h).2 (Or.inr hd), hk⟩

/-- The end of a call with another question changes nothing. -/
theorem awaits_eraseIdx_of_ne {i : ℕ} {c : γ} (h : calls[i]? = some c) (hk : key c ≠ some k) :
    Awaits key (calls.eraseIdx i) k ↔ Awaits key calls k := by
  rw [awaits_iff_eraseIdx h, or_iff_right hk]

/-- Nor does the end of a call without a question of this kind. -/
theorem awaits_eraseIdx_of_none {i : ℕ} {c : γ} (h : calls[i]? = some c) (hk : key c = none) :
    Awaits key (calls.eraseIdx i) k ↔ Awaits key calls k :=
  awaits_eraseIdx_of_ne h fun hsome => Option.some_ne_none k (hsome.symm.trans hk)

/-- A call that goes on with the same question changes nothing. -/
theorem awaits_set {i : ℕ} {c c' : γ} (h : calls[i]? = some c) (hk : key c' = key c) :
    Awaits key (calls.set i c') k ↔ Awaits key calls k := by
  obtain ⟨hi, -⟩ := List.getElem?_eq_some_iff.1 h
  have hget : (calls.set i c')[i]? = some c' := List.getElem?_set_self hi
  have hrest : (calls.set i c').eraseIdx i = calls.eraseIdx i := List.eraseIdx_set_eq
  rw [awaits_iff_eraseIdx hget, hrest, hk, awaits_iff_eraseIdx h]

end InFlight
