/-
Single-flight maps.

A map from keys to loads is meant to hold, for each key, the one load that is
open for it. `Tracks` says that it holds exactly the open ones; starting a load
under a free key and closing a load keep that.
-/
import Mathlib.Logic.Function.Basic

set_option autoImplicit false

namespace SingleFlight

variable {κ ℓ : Type*}

/-- The entries are the open loads, each under its key. -/
def Tracks (entries : κ → Option ℓ) (openKey : ℓ → Option κ) : Prop :=
  ∀ k l, entries k = some l ↔ openKey l = some k

variable {entries : κ → Option ℓ} {openKey : ℓ → Option κ} {k : κ} {l l' : ℓ}

/-- At most one load is open for a key, as the map has one entry for it. -/
theorem Tracks.unique (h : Tracks entries openKey) (hl : openKey l = some k)
    (hl' : openKey l' = some k) : l = l' :=
  Option.some.inj (((h k l).2 hl).symm.trans ((h k l').2 hl'))

/-- Without open loads the map is empty, so that nothing is left behind. -/
theorem Tracks.empty (h : Tracks entries openKey) (hopen : ∀ l, openKey l = none) (k : κ) :
    entries k = none := by
  rw [Option.eq_none_iff_forall_ne_some]
  intro l hl
  rw [h k l, hopen l] at hl
  cases hl

variable [DecidableEq κ] [DecidableEq ℓ]

/-- **Start.** A new load is entered under a key that is free. With an entry there, the load
before it would be lost from the map. -/
theorem Tracks.start (h : Tracks entries openKey) (hk : entries k = none)
    (hl : openKey l = none) :
    Tracks (Function.update entries k (some l)) (Function.update openKey l (some k)) := by
  intro k' l'
  by_cases hk' : k' = k
  · rw [hk', Function.update_self]
    by_cases hl' : l' = l
    · rw [hl', Function.update_self]
      exact ⟨fun _ => rfl, fun _ => rfl⟩
    · rw [Function.update_of_ne hl', ← h k l', hk]
      exact ⟨fun he => absurd (Option.some.inj he).symm hl', fun he => by cases he⟩
  · rw [Function.update_of_ne hk']
    by_cases hl' : l' = l
    · rw [hl', Function.update_self, h k' l, hl]
      exact ⟨fun he => (by cases he), fun he => absurd (Option.some.inj he).symm hk'⟩
    · rw [Function.update_of_ne hl']
      exact h k' l'

/-- **Finish.** A load that closes takes its entry with it. The entry under its key is its
own, since no other load is open for the key. -/
theorem Tracks.finish (h : Tracks entries openKey) (hl : openKey l = some k) :
    Tracks (Function.update entries k none) (Function.update openKey l none) := by
  intro k' l'
  by_cases hk' : k' = k
  · rw [hk', Function.update_self]
    by_cases hl' : l' = l
    · rw [hl', Function.update_self]
      exact ⟨fun he => (by cases he), fun he => (by cases he)⟩
    · rw [Function.update_of_ne hl']
      exact ⟨fun he => (by cases he), fun he => absurd (h.unique he hl) hl'⟩
  · rw [Function.update_of_ne hk']
    by_cases hl' : l' = l
    · rw [hl', Function.update_self, h k' l, hl]
      exact ⟨fun he => absurd (Option.some.inj he).symm hk', fun he => (by cases he)⟩
    · rw [Function.update_of_ne hl']
      exact h k' l'

end SingleFlight
