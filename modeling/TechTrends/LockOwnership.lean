/-
The lock of `RedisService`: who owns it, and how it can go away.

Any number of clients call `acquireLock` and `releaseLock` on any keys, in any
order, while the clock runs; a lock ends at its deadline whether or not its
holder is done. Each `acquireLock` draws its own token with `randomUUID`. The
state keeps, beside the store, the tokens drawn and the calls that succeeded.

The invariant is `Owned`: what is stored under the key is the token of the call
that succeeded last. A release with any other token then changes nothing.
-/
import TechTrends.StepMachine
import TechTrends.Redis
import Mathlib.Data.List.Nodup

set_option autoImplicit false

namespace TechTrends

namespace LockOwnership

/-- A call of `acquireLock` that succeeded. -/
structure Grant where
  client : ℕ
  key : String
  token : String
deriving DecidableEq

structure State where
  now : ℕ
  store : Store
  /-- The tokens that `randomUUID` has drawn. -/
  drawn : List String
  /-- The successful calls, the last one first. -/
  grants : List Grant

/-- What happens next: a call of either method, or time passes. -/
inductive Act
  | acquireLock (client : ℕ) (key : String) (ttlMs : ℕ) (lockValue : String)
  | releaseLock (client : ℕ) (key value : String)
  | tick (ms : ℕ)

/-- Tokens are never drawn twice, and Redis takes positive times only. -/
def step (s : State) : Act → Option State
  | Act.acquireLock client key ttlMs lockValue =>
    if lockValue ∈ s.drawn ∨ ttlMs = 0 then none
    else
      let (result, store) := RedisService.acquireLock s.now s.store key ttlMs lockValue
      let granted := match result with
        | some token => [⟨client, key, token⟩]
        | none => []
      some { s with
        store := store
        drawn := lockValue :: s.drawn
        grants := granted ++ s.grants }
  | Act.releaseLock _ key value =>
    some { s with store := (RedisService.releaseLock s.now s.store key value).2 }
  | Act.tick ms => some { s with now := s.now + ms }

def machine : StepMachine State Act where
  step := step

/-- The call for the key that succeeded last. -/
def lastGrant (key : String) (grants : List Grant) : Option Grant := grants.find? (·.key = key)

def State.lastGrant (s : State) (key : String) : Option Grant :=
  LockOwnership.lastGrant key s.grants

/-- The lock entry of the key that has not expired. -/
def State.lock (s : State) (key : String) : Option Entry := Redis.lookup s.now s.store key

/-- While the key is locked, the token of the call that succeeded last. -/
def State.owner (s : State) (key : String) : Option String :=
  (s.lock key).bind fun _ => (s.lastGrant key).map Grant.token

/-! ## What a step does -/

/-- A step takes a free lock under a new token, removes the lock that holds the
released value, or leaves store and successful calls as they are. -/
inductive Moves (s : State) : Act → State → Prop
  | acquired {client : ℕ} {key token : String} {ttlMs : ℕ} (fresh : token ∉ s.drawn)
      (free : s.lock key = none) :
      Moves s (Act.acquireLock client key ttlMs token)
        { s with
          store := Redis.set s.store key token (some (s.now + ttlMs))
          drawn := token :: s.drawn
          grants := ⟨client, key, token⟩ :: s.grants }
  | taken {client : ℕ} {key token : String} {ttlMs : ℕ} :
      Moves s (Act.acquireLock client key ttlMs token) { s with drawn := token :: s.drawn }
  | released {client : ℕ} {key value : String} (held : Redis.get s.now s.store key = some value) :
      Moves s (Act.releaseLock client key value) { s with store := Redis.del s.store key }
  | kept {client : ℕ} {key value : String} : Moves s (Act.releaseLock client key value) s
  | ticked {ms : ℕ} : Moves s (Act.tick ms) { s with now := s.now + ms }

/-- What a step can do, case by case. `acquireLock` succeeds with a new token where there is
no lock, or changes nothing; `releaseLock` removes the lock for its value, or changes nothing. -/
theorem moves_of_step {s t : State} {a : Act} (h : step s a = some t) : Moves s a t := by
  cases a with
  | acquireLock client key ttlMs token =>
    rw [step] at h
    split at h
    · cases h
    · next hguard =>
      rw [not_or] at hguard
      rw [RedisService.acquireLock] at h
      cases hfree : Redis.keyExists s.now s.store key with
      | true =>
        rw [hfree, if_pos rfl] at h
        rw [← Option.some.inj h]
        exact Moves.taken
      | false =>
        rw [hfree, if_neg (by decide)] at h
        rw [← Option.some.inj h]
        exact Moves.acquired hguard.1 (Option.isSome_eq_false_iff.1 hfree |> Option.isNone_iff_eq_none.1)
  | releaseLock client key value =>
    rw [step, RedisService.releaseLock] at h
    rw [← Option.some.inj h]
    split
    · exact Moves.released ‹_›
    · exact Moves.kept
  | tick ms =>
    rw [← Option.some.inj h]
    exact Moves.ticked

/-! ## The invariant -/

/-- The stored value is the token of the last successful call for the key, and
no two successful calls have one token. -/
structure Owned (key : String) (s : State) : Prop where
  holder : ∀ e, s.store key = some e → ∃ g, s.lastGrant key = some g ∧ e.value = g.token
  drawn : ∀ g ∈ s.grants, g.token ∈ s.drawn
  distinct : (s.grants.map Grant.token).Nodup

theorem lastGrant_cons_self (g : Grant) (grants : List Grant) :
    lastGrant g.key (g :: grants) = some g := by
  rw [lastGrant, List.find?_cons_of_pos (by simp)]

theorem lastGrant_cons_ne {g : Grant} {key : String} (h : g.key ≠ key) (grants : List Grant) :
    lastGrant key (g :: grants) = lastGrant key grants := by
  rw [lastGrant, List.find?_cons_of_neg (by simpa using h), lastGrant]

/-- **Step.** What is stored is the token of the last call that succeeded, and it stays so: a
new call succeeds only where nothing is stored, and is then the last one itself. -/
theorem Owned.step {key : String} {s t : State} {a : Act} (h : Owned key s) (hm : Moves s a t) :
    Owned key t := by
  cases hm with
  | @acquired client key' token ttlMs fresh free =>
    refine ⟨fun e he => ?_, fun g hg => ?_, ?_⟩
    · by_cases hkey : key' = key
      · -- the new entry, and the new grant
        subst hkey
        change Function.update s.store key' _ key' = some e at he
        rw [Function.update_self] at he
        exact ⟨_, lastGrant_cons_self _ s.grants, by rw [← Option.some.inj he]⟩
      · change Function.update s.store key' _ key = some e at he
        rw [Function.update_of_ne (Ne.symm hkey)] at he
        obtain ⟨g, hg, hvalue⟩ := h.holder e he
        exact ⟨g, (lastGrant_cons_ne hkey s.grants).trans hg, hvalue⟩
    · rcases List.mem_cons.1 hg with rfl | hg
      · exact List.mem_cons_self
      · exact List.mem_cons_of_mem _ (h.drawn g hg)
    · refine List.nodup_cons.2 ⟨fun hmem => ?_, h.distinct⟩
      obtain ⟨g, hg, heq⟩ := List.mem_map.1 hmem
      have hold := h.drawn g hg
      rw [heq] at hold
      exact fresh hold
  | taken => exact ⟨h.holder, fun g hg => List.mem_cons_of_mem _ (h.drawn g hg), h.distinct⟩
  | @released client key' value held =>
    refine ⟨fun e he => ?_, h.drawn, h.distinct⟩
    by_cases hkey : key' = key
    · rw [hkey] at he
      change Function.update s.store key none key = some e at he
      rw [Function.update_self] at he
      cases he
    · change Function.update s.store key' none key = some e at he
      rw [Function.update_of_ne (Ne.symm hkey)] at he
      exact h.holder e he
  | kept => exact h
  | ticked => exact ⟨h.holder, h.drawn, h.distinct⟩

theorem machine_keeps_owned (key : String) : machine.Keeps (Owned key) :=
  fun _ _ _ h hstep => h.step (moves_of_step hstep)

/-! ## Ownership -/

/-- Before the first call on the key: nothing is stored under it. -/
structure Initial (key : String) (s : State) : Prop where
  unlocked : s.store key = none
  drawn : s.drawn = []
  grants : s.grants = []

theorem Initial.owned {key : String} {s : State} (h : Initial key s) : Owned key s where
  holder e he := by rw [h.unlocked] at he; cases he
  drawn g hg := by rw [h.grants] at hg; cases hg
  distinct := by rw [h.grants]; exact List.nodup_nil

theorem State.lock_store {s : State} {key : String} {e : Entry} (h : s.lock key = some e) :
    s.store key = some e := (Option.filter_eq_some_iff.1 h).1

/-- The owner's token is the stored value. Without a lock there is neither. -/
theorem Owned.owner_eq {key : String} {s : State} (h : Owned key s) :
    s.owner key = Redis.get s.now s.store key := by
  rw [State.owner, Redis.get, ← State.lock]
  cases he : s.lock key with
  | none => rfl
  | some e =>
    obtain ⟨g, hg, hvalue⟩ := h.holder e (State.lock_store he)
    rw [Option.bind_some, hg, Option.map_some, Option.map_some, hvalue]

/-- A release answers true and removes the lock when it is given the owner's token, and
otherwise answers false and changes nothing. The script compares and deletes in one go, so no
other command comes between the two. -/
theorem Owned.releaseLock {key : String} {s : State} (h : Owned key s) (value : String) :
    let released := RedisService.releaseLock s.now s.store key value
    (released.1 = true ↔ s.owner key = some value) ∧
      (s.owner key = some value → Redis.lookup s.now released.2 key = none) ∧
      (s.owner key ≠ some value → released.2 = s.store) := by
  rw [h.owner_eq, RedisService.releaseLock]
  by_cases hv : Redis.get s.now s.store key = some value
  · rw [if_pos hv]
    exact ⟨iff_of_true rfl hv, fun _ => Redis.lookup_del_self s.now s.store key,
      fun hne => absurd hv hne⟩
  · rw [if_neg hv]
    exact ⟨iff_of_false Bool.false_ne_true hv, fun h => absurd h hv, fun _ => rfl⟩

/-- How a lock goes away: it is released with its own value, or its deadline passes. A later
`acquireLock` does not replace it, because of `NX`, and it is not prolonged either. -/
theorem Moves.lock_gone {s t : State} {a : Act} (hm : Moves s a t) {key : String} {e : Entry}
    (he : s.lock key = some e) (hgone : t.lock key ≠ some e) :
    (∃ client, a = Act.releaseLock client key e.value) ∨
      ∃ ms d, a = Act.tick ms ∧ e.deadline = some d ∧ d < t.now := by
  cases hm with
  | @acquired client key' token ttlMs fresh free =>
    refine absurd ?_ hgone
    have hkey : key ≠ key' := by
      rintro rfl
      rw [he] at free
      cases free
    exact (Redis.lookup_set_ne s.now s.store token _ hkey).trans he
  | taken => exact absurd he hgone
  | @released client key' value held =>
    left
    by_cases hkey : key = key'
    · subst hkey
      rw [Redis.get, ← State.lock, he] at held
      exact ⟨client, by rw [← Option.some.inj held]⟩
    · exact absurd ((Redis.lookup_del_ne s.now s.store hkey).trans he) hgone
  | kept => exact absurd he hgone
  | @ticked ms =>
    right
    have hstore := State.lock_store he
    cases hd : e.deadline with
    | none =>
      refine absurd ?_ hgone
      exact Option.filter_eq_some_iff.2 ⟨hstore, by rw [Entry.live, hd]⟩
    | some d =>
      refine ⟨ms, d, rfl, rfl, not_le.1 fun hle => hgone ?_⟩
      refine Option.filter_eq_some_iff.2 ⟨hstore, ?_⟩
      rw [Entry.live, hd]
      exact decide_eq_true hle

/-- **Lock ownership.** In every state that calls of `acquireLock` and
`releaseLock` and the clock lead to, whatever the key's lock is: its value is the
token of the call that succeeded last; a release removes it, and answers true,
exactly when it is given this token; and the step after which it is gone is a
release with this token, which no other successful call was ever given, or the
clock passing its deadline. -/
theorem lock_ownership {key : String} {s₀ s : State} {as : List Act} (h₀ : Initial key s₀)
    (hrun : machine.run as s₀ = some s) :
    (∀ e, s.lock key = some e → ∃ g, s.lastGrant key = some g ∧ e.value = g.token) ∧
    (∀ value, let released := RedisService.releaseLock s.now s.store key value
      (released.1 = true ↔ s.owner key = some value) ∧
      (s.owner key = some value → Redis.lookup s.now released.2 key = none) ∧
      (s.owner key ≠ some value → released.2 = s.store)) ∧
    ∀ a t e, machine.step s a = some t → s.lock key = some e → t.lock key ≠ some e →
      ∃ g, s.lastGrant key = some g ∧
        ((∃ client, a = Act.releaseLock client key g.token ∧
            ∀ g' ∈ s.grants, g'.token = g.token → g' = g) ∨
          ∃ ms d, a = Act.tick ms ∧ e.deadline = some d ∧ d < t.now) := by
  have howned : Owned key s := (machine_keeps_owned key).run machine h₀.owned hrun
  have hholder : ∀ e, s.lock key = some e → ∃ g, s.lastGrant key = some g ∧ e.value = g.token :=
    fun e he => howned.holder e (State.lock_store he)
  refine ⟨hholder, howned.releaseLock, fun a t e hstep he hgone => ?_⟩
  obtain ⟨g, hg, hvalue⟩ := hholder e he
  refine ⟨g, hg, ?_⟩
  rcases (moves_of_step hstep).lock_gone he hgone with ⟨client, ha⟩ | hexpired
  · left
    rw [hvalue] at ha
    refine ⟨client, ha, fun g' hg' htoken => ?_⟩
    exact List.inj_on_of_nodup_map howned.distinct hg' (List.mem_of_find?_eq_some hg) htoken
  · exact Or.inr hexpired

/-- The first client's lock runs out, the second client takes it, and then the
first one releases. -/
def lateRelease : List Act :=
  [Act.acquireLock 0 "lock" 10 "token 0", Act.tick 11, Act.acquireLock 1 "lock" 10 "token 1"]

theorem lock_ownership_late_release :
    let s₀ : State := ⟨0, fun _ => none, [], []⟩
    ∃ s, machine.run lateRelease s₀ = some s ∧
      s.lastGrant "lock" = some ⟨1, "lock", "token 1"⟩ ∧
      (RedisService.releaseLock s.now s.store "lock" "token 0").2 = s.store := by
  intro s₀
  obtain ⟨s, hrun⟩ : ∃ s, machine.run lateRelease s₀ = some s := ⟨_, rfl⟩
  have hinitial : Initial "lock" s₀ := ⟨rfl, rfl, rfl⟩
  have howner := lock_ownership hinitial hrun
  obtain rfl := Option.some.inj hrun
  exact ⟨_, rfl, rfl, (howner.2.1 "token 0").2.2 (by decide +kernel)⟩

end LockOwnership

end TechTrends
