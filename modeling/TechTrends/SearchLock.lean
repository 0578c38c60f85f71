/-
The lock around the embedding of one text.

A lock entry carries the token of the call that took it and a fixed lease. As
long as no call outstays its lease, the entry of a call that is inside the
section stays in place, and with it every other call out of the section. Nothing
renews a lease: a call that queues for a permit or pauses between two attempts
for longer is still inside when the next one takes the lock.
-/
import TechTrends.SearchResolves

set_option autoImplicit false

namespace TechTrends

namespace EmbedSearchQuery

open AiService (cacheKey lockKey normalizeKeyword lockKey_inj cacheKey_ne_lockKey httpError)

variable {cfg : Config} {s t : State} {i : ℕ} {text : String}

/-! ## The lock entry -/

/-- The entry that `acquireLock` makes. -/
def Lease.entry (lease : Lease) : Entry := ⟨lease.token, some (lease.since + lockTtlMs)⟩

/-- The lease has not run out. -/
def Lease.valid (now : ℕ) (lease : Lease) : Prop := now ≤ lease.since + lockTtlMs

theorem Lease.live_entry {now : ℕ} {lease : Lease} :
    lease.entry.live now = true ↔ lease.valid now := by
  simp [Lease.entry, Entry.live, Lease.valid]

/-- A step changes the lock entry of its own text only: it takes a free lock, or it deletes an
entry that holds its own token. `releaseLock` compares and deletes in one script, so it never
deletes the entry of another call. -/
theorem Moves.store_lockKey {phase : Phase} {op : Op} {change : Change}
    (h : Moves cfg s i text phase op change) (u : String) :
    change.store (lockKey cfg.embeddingModelName u) = s.store (lockKey cfg.embeddingModelName u) ∨
      u = text ∧
        (phase = Phase.acquiring ∧
            Redis.keyExists s.now s.store (lockKey cfg.embeddingModelName text) = false ∨
          ∃ lease completion, phase = Phase.locked lease (Critical.releasing completion) ∧
            Redis.get s.now s.store (lockKey cfg.embeddingModelName text) = some lease.token) := by
  have hne : u ≠ text → lockKey cfg.embeddingModelName u ≠ lockKey cfg.embeddingModelName text :=
    fun hu hk => hu (lockKey_inj hk)
  have hcache := (cacheKey_ne_lockKey cfg.embeddingModelName text u).symm
  cases h with
  | acquireLost =>
    -- a lost answer to `SET NX` may have taken the lock
    by_cases hfree : Redis.keyExists s.now s.store (lockKey cfg.embeddingModelName text) = true
    · left
      simp only [RedisService.acquireLock, if_pos hfree]
    · by_cases hu : u = text
      · exact Or.inr ⟨hu, Or.inl ⟨rfl, by simpa using hfree⟩⟩
      · left
        simp only [RedisService.acquireLock, if_neg hfree, Redis.set,
          Function.update_of_ne (hne hu)]
  | acquired free =>
    by_cases hu : u = text
    · exact Or.inr ⟨hu, Or.inl ⟨rfl, free⟩⟩
    · left
      simp only [Redis.set, Function.update_of_ne (hne hu)]
  -- the cache entry of a text is not a lock
  | @stored lease vector fate =>
    have hset := RedisService.setCache_ne s.now s.store (vectorJson vector)
      cfg.embeddingTtlSeconds hcache
    left
    cases fate with
    | failed => rfl
    | ok => exact hset
    | lost => exact hset
  | @released lease completion fate =>
    by_cases hown : Redis.get s.now s.store (lockKey cfg.embeddingModelName text) = some lease.token
    · by_cases hu : u = text
      · exact Or.inr ⟨hu, Or.inr ⟨lease, completion, rfl, hown⟩⟩
      · left
        cases fate <;>
          simp only [releaseLock, RedisService.releaseLock, if_pos hown, Redis.del,
            Function.update_of_ne (hne hu)]
    · left
      cases fate <;> simp only [releaseLock, RedisService.releaseLock, if_neg hown]
  | answered =>
    left
    rfl
  | _ => exact Or.inl rfl

/-- A call inside the section was inside it before, under the same lease, or it has just taken
the free lock. No step renews a lease, however long the call is inside. -/
theorem Moves.lease {phase : Phase} {op : Op} {change : Change}
    (h : Moves cfg s i text phase op change) {lease : Lease} {critical : Critical}
    (hp : change.phase = Phase.locked lease critical) :
    (∃ critical', phase = Phase.locked lease critical') ∨
      phase = Phase.acquiring ∧ critical = Critical.queued ∧
        Redis.keyExists s.now s.store (lockKey cfg.embeddingModelName text) = false ∧
        lease = ⟨cfg.randomUUID i, s.now⟩ ∧
        change.store (lockKey cfg.embeddingModelName text) = some lease.entry := by
  cases h with
  | acquired free =>
    cases hp
    exact Or.inr ⟨rfl, rfl, free, rfl, Function.update_self _ _ _⟩
  | stored => rename_i fate; cases fate <;> cases hp <;> exact Or.inl ⟨_, rfl⟩
  | released => rename_i fate; cases fate <;> cases hp
  | answered => cases hp; exact Or.inl ⟨_, rfl⟩
  | permit => cases hp; exact Or.inl ⟨_, rfl⟩
  | retried => cases hp; exact Or.inl ⟨_, rfl⟩
  | rethrown => cases hp; exact Or.inl ⟨_, rfl⟩
  | paused => cases hp; exact Or.inl ⟨_, rfl⟩
  | _ => cases hp

/-! ## Mutual exclusion -/

/-- The call is between a successful `acquireLock` and its `releaseLock`. -/
def Call.holds (c : Call) (lease : Lease) : Prop := ∃ critical, c.phase = Phase.locked lease critical

/-- The lease of a call inside the section. -/
def Call.lease? (c : Call) : Option Lease :=
  match c.phase with
  | Phase.locked lease _ => some lease
  | _ => none

/-- No two calls for one text are both inside the section. -/
def MutuallyExclusive (s : State) : Prop :=
  ∀ i j c d lease lease', s.calls i = some c → s.calls j = some d → c.holds lease →
    d.holds lease' → c.text = d.text → i = j

/-- The step lets no call outstay its lease, and leaves the locks in use alone. -/
def WithinLease (cfg : Config) (s : State) : Act → Prop
  | Act.tick ms => ∀ i c lease, s.calls i = some c → c.holds lease → lease.valid (s.now + ms)
  | Act.outside key _ => ∀ i c lease, s.calls i = some c → c.holds lease →
      key ≠ lockKey cfg.embeddingModelName c.text
  | _ => True

/-- The lock entry of a call inside the section is its own, and is live. -/
structure Leased (cfg : Config) (s : State) (i : ℕ) (c : Call) (lease : Lease) : Prop where
  token : lease.token = cfg.randomUUID i
  entry : s.store (lockKey cfg.embeddingModelName c.text) = some lease.entry
  valid : lease.valid s.now

def AllLeased (cfg : Config) (s : State) : Prop :=
  ∀ i c lease, s.calls i = some c → c.holds lease → Leased cfg s i c lease

theorem Leased.lookup {c : Call} {lease : Lease} (h : Leased cfg s i c lease) :
    Redis.lookup s.now s.store (lockKey cfg.embeddingModelName c.text) = some lease.entry := by
  rw [Redis.lookup, h.entry, Option.filter_some, if_pos (Lease.live_entry.2 h.valid)]

/-- Two leases on one key are one, by the tokens. Each is the token in the entry, and
`randomUUID` gives no token twice. -/
theorem AllLeased.exclusive (h : AllLeased cfg s) : MutuallyExclusive s := by
  intro i j c d lease lease' hc hd hl hl' htext
  have hi := h i c lease hc hl
  have hj := h j d lease' hd hl'
  have hentry : some lease.entry = some lease'.entry := by
    rw [← hi.entry, htext, hj.entry]
  have htoken : lease.token = lease'.token :=
    congrArg Entry.value (Option.some.inj hentry)
  rw [hi.token, hj.token] at htoken
  exact cfg.randomUUID_injective htoken

/-- A step of call `i` leaves the lock entry of another call inside the section in place: the
lock is not free for it, and its token is another one. -/
theorem AllLeased.frame (hs : AllLeased cfg s) {c : Call} {op : Op} {change : Change}
    (hc : s.calls i = some c) (hm : Moves cfg s i c.text c.phase op change) {j : ℕ} {d : Call}
    {lease : Lease} (hj : j ≠ i) (hd : s.calls j = some d) (hl : d.holds lease) :
    change.store (lockKey cfg.embeddingModelName d.text) = some lease.entry := by
  have hleased := hs j d lease hd hl
  rcases hm.store_lockKey d.text with hsame | ⟨htext, ⟨-, hfree⟩ | ⟨own, completion, hphase, hget⟩⟩
  · rw [hsame, hleased.entry]
  · -- the lock is not free, as this entry is live
    rw [← htext, Redis.keyExists, hleased.lookup] at hfree
    cases hfree
  · -- the entry would have to hold the token of both calls
    have hi := hs i c own hc ⟨_, hphase⟩
    rw [← htext, Redis.get, hleased.lookup] at hget
    have htoken : lease.token = own.token := Option.some.inj hget
    rw [hi.token, hleased.token] at htoken
    exact absurd (cfg.randomUUID_injective htoken) hj

/-- **Step.** While no call is inside for longer than its lease, each has its entry in the
store. When time passes this is what the condition is for; every other step keeps it by
itself. -/
theorem allLeased_step : (machine cfg).KeepsIf (WithinLease cfg) (AllLeased cfg) := by
  intro s a t hs hok h
  rcases step_cases h with ⟨i, query, rfl, hc, rfl⟩ | ⟨i, op, c, change, rfl, hc, hm, rfl⟩ |
    ⟨key, entry, rfl, hkey, rfl⟩ | ⟨ms, rfl, rfl⟩
  · have hb : (begins s query).store = s.store ∧
        ∀ lease critical, (begins s query).phase ≠ Phase.locked lease critical := by
      unfold begins
      split <;> exact ⟨rfl, by simp [State.giveUp, State.goto]⟩
    intro j d lease hd hl
    rcases apply_calls_some hd with ⟨rfl, rfl⟩ | ⟨hj, hd⟩
    · obtain ⟨critical, hl⟩ := hl
      exact absurd hl (hb.2 lease critical)
    · have hleased := hs j d lease hd hl
      exact ⟨hleased.token, by rw [State.apply, hb.1]; exact hleased.entry, hleased.valid⟩
  · intro j d lease hd hl
    rcases apply_calls_some hd with ⟨rfl, rfl⟩ | ⟨hj, hd⟩
    · obtain ⟨critical, hl⟩ := hl
      rcases hm.lease hl with ⟨critical', hphase⟩ | ⟨hphase, -, -, rfl, hstore⟩
      · -- still inside: the entry can only go when the call leaves the section
        have hleased := hs j c lease hc ⟨_, hphase⟩
        refine ⟨hleased.token, ?_, hleased.valid⟩
        rcases hm.store_lockKey c.text with hsame | ⟨-, ⟨-, hfree⟩ | ⟨own, completion, hrel, hget⟩⟩
        · exact hsame.trans hleased.entry
        · rw [Redis.keyExists, hleased.lookup] at hfree
          cases hfree
        · rw [hrel] at hm
          cases hm with
          | released => rename_i fate; cases fate <;> cases hl
          | giveUp unlocked failed => exact unlocked.elim
          | hit reads => exact reads.elim
      · -- just acquired: the lease starts now
        exact ⟨rfl, hstore, Nat.le_add_right _ _⟩
    · have hleased := hs j d lease hd hl
      exact ⟨hleased.token, hs.frame hc hm hj hd hl, hleased.valid⟩
  · intro j d lease hd hl
    have hleased := hs j d lease hd hl
    -- the condition keeps other parties away from the locks in use
    have hne := (hok j d lease hd hl).symm
    exact ⟨hleased.token, by simp only [Function.update_of_ne hne]; exact hleased.entry,
      hleased.valid⟩
  · intro j d lease hd hl
    have hleased := hs j d lease hd hl
    exact ⟨hleased.token, hleased.entry, hok j d lease hd hl⟩

/-- **Mutual exclusion within the lease.** In a run in which no call is inside the section for
longer than the lease, no two calls for one text are inside it. The lease is a fixed 10 s
(`ai.service.ts`, the `ttlMs` of `acquireLock`), while a call may queue for a permit and retry
for longer; `slowHolder_overlaps` is such a run. -/
theorem embedSearchQuery_exclusive (cfg : Config) (now : ℕ) (store : Store) (as : List Act)
    (t : State) (hrun : (machine cfg).run as (initial now store) = some t)
    (hlease : (machine cfg).Meets (WithinLease cfg) as (initial now store)) :
    MutuallyExclusive t := by
  have hinit : AllLeased cfg (initial now store) := by
    intro i c lease hc
    cases hc
  exact (StepMachine.KeepsIf.run _ allLeased_step hinit hlease hrun).exclusive

/-! ### Runs that are shorter than a lease -/

/-- How much time passes in a step. -/
def Act.elapsed : Act → ℕ
  | Act.tick ms => ms
  | _ => 0

/-- Nothing is written from outside. -/
def Act.Inside : Act → Prop
  | Act.outside _ _ => False
  | _ => True

/-- Every lease was taken at `start` or later. -/
def TakenSince (start : ℕ) (s : State) : Prop :=
  ∀ i c lease, s.calls i = some c → c.holds lease → start ≤ lease.since

theorem step_now {a : Act} (h : step cfg s a = some t) : t.now = s.now + a.elapsed := by
  rcases step_cases h with ⟨i, query, rfl, hc, rfl⟩ | ⟨i, op, c, change, rfl, hc, hm, rfl⟩ |
    ⟨key, entry, rfl, hkey, rfl⟩ | ⟨ms, rfl, rfl⟩
  · rfl
  · rfl
  · rfl
  · rfl

/-- The leases of the calls inside the section were taken since the start, and nothing makes
one older than the run. -/
theorem takenSince_step {start : ℕ} {a : Act} (hs : TakenSince start s) (hnow : start ≤ s.now)
    (h : step cfg s a = some t) : TakenSince start t := by
  rcases step_cases h with ⟨i, query, rfl, hc, rfl⟩ | ⟨i, op, c, change, rfl, hc, hm, rfl⟩ |
    ⟨key, entry, rfl, hkey, rfl⟩ | ⟨ms, rfl, rfl⟩
  · intro j d lease hd hl
    rcases apply_calls_some hd with ⟨rfl, rfl⟩ | ⟨hj, hd⟩
    · obtain ⟨critical, hl⟩ := hl
      unfold begins at hl
      split at hl
      · cases hl
      · cases hl
    · exact hs j d lease hd hl
  · intro j d lease hd hl
    rcases apply_calls_some hd with ⟨rfl, rfl⟩ | ⟨hj, hd⟩
    · obtain ⟨critical, hl⟩ := hl
      rcases hm.lease hl with ⟨critical', hphase⟩ | ⟨-, -, -, rfl, -⟩
      · exact hs j c lease hc ⟨_, hphase⟩
      · exact hnow
    · exact hs j d lease hd hl
  · exact hs
  · exact hs

/-- No call outstays its lease in a run that takes no longer than a lease. A lease that is
taken in the run ends after the run. -/
theorem meets_withinLease_of_short {start : ℕ} {as : List Act} (hinside : ∀ a ∈ as, a.Inside)
    (hs : TakenSince start s) (hnow : start ≤ s.now)
    (hshort : s.now + (as.map Act.elapsed).sum ≤ start + lockTtlMs) :
    (machine cfg).Meets (WithinLease cfg) as s := by
  induction as generalizing s with
  | nil => trivial
  | cons a as ih =>
    rw [List.map_cons, List.sum_cons] at hshort
    refine ⟨?_, fun t ht => ?_⟩
    · cases a with
      | tick ms =>
        intro i c lease hc hl
        have hsince := hs i c lease hc hl
        have hms : Act.elapsed (Act.tick ms) = ms := rfl
        rw [Lease.valid]
        omega
      | outside key entry => exact (hinside _ List.mem_cons_self).elim
      | start => trivial
      | call => trivial
    · have hlater := step_now ht
      exact ih (fun b hb => hinside b (List.mem_cons_of_mem a hb)) (takenSince_step hs hnow ht) (by omega)
        (by omega)

/-- Two calls for one text: the first takes the lock and holds it for five seconds, the
second waits. -/
def holderAndWaiter : List Act :=
  [Act.start 0 "redis", Act.start 1 "Redis", Act.call 0 (Op.redis Fate.ok),
    Act.call 1 (Op.redis Fate.ok), Act.call 0 (Op.redis Fate.ok), Act.tick 5000,
    Act.call 1 (Op.redis Fate.ok)]

theorem embedSearchQuery_exclusive_holderAndWaiter :
    ∃ t, (machine testConfig).run holderAndWaiter (initial 0 emptyStore) = some t ∧
      (t.calls 0).map Call.lease? = some (some ⟨"", 0⟩) ∧ MutuallyExclusive t := by
  have hholds : ((machine testConfig).run holderAndWaiter (initial 0 emptyStore)).map
      (fun t => (t.calls 0).map Call.lease?) = some (some (some ⟨"", 0⟩)) := by
    decide +kernel
  obtain ⟨t, ht, hlease⟩ := Option.map_eq_some_iff.1 hholds
  refine ⟨t, ht, hlease, embedSearchQuery_exclusive testConfig 0 emptyStore _ t ht ?_⟩
  refine meets_withinLease_of_short ?_ (fun i c lease hc => by cases hc) le_rfl (by decide)
  intro a ha
  simp only [holderAndWaiter, List.mem_cons, List.not_mem_nil, or_false] at ha
  rcases ha with rfl | rfl | rfl | rfl | rfl | rfl | rfl <;> trivial

/-! ## A holder that outstays its lease -/

theorem Call.holds_of_lease? {c : Call} {lease : Lease} (h : c.lease? = some lease) :
    c.holds lease := by
  unfold Call.lease? at h
  split at h
  · next l critical hphase =>
    cases h
    exact ⟨critical, hphase⟩
  · cases h

/-- The first call is told to slow down twice, and pauses for 3 s and for 9 s. -/
def slowHolder : List Act :=
  [Act.start 0 "redis", Act.start 1 "redis", Act.call 0 (Op.redis Fate.ok),
    Act.call 0 (Op.redis Fate.ok), Act.call 0 Op.permit,
    Act.call 0 (Op.answer (Reply.error (httpError 429 "quota"))), Act.tick 3000,
    Act.call 0 Op.wake, Act.call 0 (Op.answer (Reply.error (httpError 429 "quota"))),
    Act.tick 9000, Act.call 1 (Op.redis Fate.ok), Act.call 1 (Op.redis Fate.ok)]

/-- The second call takes the lock 12 s after the first one did, which is still
in its second pause. -/
theorem slowHolder_overlaps :
    ∃ t, (machine testConfig).run slowHolder (initial 0 emptyStore) = some t ∧
      ¬ MutuallyExclusive t := by
  have hcalls : ((machine testConfig).run slowHolder (initial 0 emptyStore)).map
      (fun t => [t.calls 0, t.calls 1].map (Option.map fun c => (c.query, c.lease?))) =
      some [some ("redis", some ⟨"", 0⟩), some ("redis", some ⟨"u", 12000⟩)] := by
    decide +kernel
  obtain ⟨t, ht, hproj⟩ := Option.map_eq_some_iff.1 hcalls
  simp only [List.map_cons, List.map_nil, List.cons.injEq, and_true] at hproj
  obtain ⟨c, hc, hcl⟩ := Option.map_eq_some_iff.1 hproj.1
  obtain ⟨d, hd, hdl⟩ := Option.map_eq_some_iff.1 hproj.2
  rw [Prod.mk.injEq] at hcl hdl
  refine ⟨t, ht, ?_⟩
  intro hexcl
  have htext : c.text = d.text := by
    unfold Call.text
    rw [hcl.1, hdl.1]
  have hcontra := hexcl 0 1 c d _ _ hc hd (Call.holds_of_lease? hcl.2) (Call.holds_of_lease? hdl.2) htext
  exact absurd hcontra (by decide)

end EmbedSearchQuery

end TechTrends
