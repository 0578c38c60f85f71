/-
`embedSearchQuery` of `AiService`, for any number of concurrent calls.

A call is a sequence of awaits. Between two awaits it runs alone, so one step of
the machine carries out the operation a call is waiting for and runs the call up
to its next await. The Redis server, the clock and the semaphore are shared. The
labels of the steps hold what the code does not decide: which call goes on, how
the API answers, whether a Redis command fails before or after it took effect,
how much time passes, and which entries other parties or expiry change.

The log is what an observer of the calls to Redis and to the API would see, with
the two warnings of `waitForCache`.
-/
import TechTrends.StepMachine
import TechTrends.Redis
import TechTrends.Retry
import TechTrends.Keyword

set_option autoImplicit false

namespace TechTrends

namespace EmbedSearchQuery

open AiService (cacheKey lockKey normalizeKeyword isBlank Verdict onError plainError)

/-! ## Data -/

/-- The settings of the service, and the tokens that `randomUUID` draws: call `i`
draws at most one, and no two draws agree. -/
structure Config where
  embeddingModelName : String
  embeddingTtlSeconds : ℕ
  randomUUID : ℕ → String
  randomUUID_injective : Function.Injective randomUUID

/-- A `number[]` as the JSON value it is. -/
def vectorJson (vector : List Binary64) : Json := Json.arr (vector.map Json.num)

/-- `cachedVector && Array.isArray(cachedVector) && cachedVector.length > 0`. -/
def usableVector : Json → Option (List Json)
  | Json.arr (v :: vs) => some (v :: vs)
  | _ => none

/-- What the inner `try` ends with before `finally` runs. -/
inductive Completion
  | returns (vector : Option (List Binary64))
  | throws
deriving DecidableEq

/-- Where a call is between `acquireLock` and `releaseLock`: it waits for a permit
of the semaphore, for the answer to its `attempt`-th API call, for the end of a
pause of `executeWithRetry`, for `setCache`, or for `releaseLock`. -/
inductive Critical
  | queued
  | calling (attempt : ℕ)
  | pausing (attempt wakeAt : ℕ)
  | storing (vector : List Binary64)
  | releasing (completion : Completion)
deriving DecidableEq

/-- The lock value a call got, and when it got it. -/
structure Lease where
  token : String
  since : ℕ
deriving DecidableEq

/-- Which operation a call waits for. A waiter is in round `round` of the loop of
`waitForCache`: in its pause, at `getCache`, or at `exists`. -/
inductive Phase
  | reading
  | acquiring
  | locked (lease : Lease) (critical : Critical)
  | sleeping (round wakeAt : ℕ)
  | polling (round : ℕ)
  | checking (round : ℕ)
  | settled (result : Option (List Json))

/-- A call that was made. -/
structure Call where
  query : String
  phase : Phase

/-- `normalizedQuery`. -/
def Call.text (c : Call) : String := normalizeKeyword c.query

/-- What an observer of the calls sees. -/
inductive Event
  | acquired (call : ℕ) (key token : String)
  | lockWaiting (call : ℕ)
  | embedContent (call : ℕ) (text : String)
  | embedded (text : String) (vector : List Binary64)
  | setCache (key : String) (value : Json)
  | releaseLock (call : ℕ) (key token : String)
  | lockReleased (call : ℕ)
  | lockTimeout (call : ℕ)

structure State where
  now : ℕ
  store : Store
  calls : ℕ → Option Call
  /-- The calls inside `semaphore.runExclusive`. -/
  permits : List ℕ
  log : List Event

/-- How a Redis command goes: it is answered, it fails and had no effect, or it
takes effect and its answer is lost. -/
inductive Fate
  | ok
  | failed
  | lost
deriving DecidableEq

/-- The outcome of `embedContent`: the values of its embeddings, or an error. -/
inductive Reply
  | embeddings (values : List (List Binary64))
  | error (e : ApiError)

/-- What happens to a call. -/
inductive Op
  | redis (fate : Fate)
  | permit
  | answer (reply : Reply)
  | wake

inductive Act
  | start (call : ℕ) (query : String)
  | call (i : ℕ) (op : Op)
  /-- Expiry, eviction, or a write of another party. -/
  | outside (key : String) (entry : Option Entry)
  | tick (ms : ℕ)

/-! ## One call -/

/-- What one step does for the call that takes it. -/
structure Change where
  phase : Phase
  store : Store
  permits : List ℕ
  events : List Event

/-- `ttlMs` of `acquireLock`, `maxRetries` and `delayMs` of `waitForCache`, the
permits of the semaphore. -/
def lockTtlMs : ℕ := 10000
def waitRetries : ℕ := 25
def waitDelayMs : ℕ := 200
def semaphorePermits : ℕ := 3

/-- `baseDelayMs` and `maxRetries` of the embedding call. -/
def embedBaseDelayMs : Binary64 := Binary64.ofInt 3000
def embedRetries : ℕ := 3

/-- The result once `finally` is through: a thrown error becomes `null`. -/
def Completion.result : Completion → Option (List Json)
  | returns vector => vector.map fun v => v.map Json.num
  | throws => none

variable (cfg : Config)

/-- A step that only moves the call on. -/
def State.goto (s : State) (phase : Phase) : Change :=
  { phase := phase, store := s.store, permits := s.permits, events := [] }

/-- The outer `catch`: log and resolve to `null`. -/
def State.giveUp (s : State) : Change := s.goto (Phase.settled none)

/-- `getCache` on the cache key, with what a hit and a miss lead to. -/
def getCached (s : State) (text : String) (fate : Fate) (miss : Phase) : Change :=
  match fate with
  | Fate.ok =>
    match usableVector (RedisService.getCache s.now s.store (cacheKey cfg.embeddingModelName text)) with
    | some vector => s.goto (Phase.settled (some vector))
    | none => s.goto miss
  | _ => s.giveUp

def acquireLock (s : State) (i : ℕ) (text : String) (fate : Fate) : Change :=
  let key := lockKey cfg.embeddingModelName text
  let token := cfg.randomUUID i
  let (lockValue, store) := RedisService.acquireLock s.now s.store key lockTtlMs token
  match fate with
  | Fate.failed => s.giveUp
  -- the lock may be held by nobody now, until it expires
  | Fate.lost => { s.giveUp with store := store }
  | Fate.ok =>
    match lockValue with
    | some token =>
      { phase := Phase.locked ⟨token, s.now⟩ Critical.queued, store := store,
        permits := s.permits, events := [Event.acquired i key token] }
    | none =>
      -- `waitForCache` begins with a pause
      { phase := Phase.sleeping 0 (s.now + waitDelayMs), store := store,
        permits := s.permits, events := [Event.lockWaiting i] }

/-- `setCache` of the new vector. -/
def setCached (s : State) (text : String) (lease : Lease) (vector : List Binary64)
    (fate : Fate) : Change :=
  let key := cacheKey cfg.embeddingModelName text
  let stored := RedisService.setCache s.now s.store key (vectorJson vector) cfg.embeddingTtlSeconds
  let releasing (completion : Completion) (store : Store) : Change :=
    { phase := Phase.locked lease (Critical.releasing completion), store := store,
      permits := s.permits, events := [Event.setCache key (vectorJson vector)] }
  match fate with
  | Fate.ok => releasing (Completion.returns (some vector)) stored
  | Fate.failed => releasing Completion.throws s.store
  | Fate.lost => releasing Completion.throws stored

/-- `releaseLock` in the `finally` block. When it throws, its error replaces the
result of the `try` block. -/
def releaseLock (s : State) (i : ℕ) (text : String) (lease : Lease)
    (completion : Completion) (fate : Fate) : Change :=
  let key := lockKey cfg.embeddingModelName text
  let (_, released) := RedisService.releaseLock s.now s.store key lease.token
  let settled (result : Option (List Json)) (store : Store) : Change :=
    { phase := Phase.settled result, store := store,
      permits := s.permits, events := [Event.releaseLock i key lease.token] }
  match fate with
  | Fate.ok => settled completion.result released
  | Fate.failed => settled none s.store
  | Fate.lost => settled none released

/-- `exists` on the lock key, at the end of a round of `waitForCache`. -/
def checkLock (s : State) (i : ℕ) (text : String) (round : ℕ) (fate : Fate) : Change :=
  match fate with
  | Fate.ok =>
    if RedisService.existsKey s.now s.store (lockKey cfg.embeddingModelName text) then
      -- the lock is still held: the next round, or the end of the loop
      if round + 1 < waitRetries then
        s.goto (Phase.sleeping (round + 1) (s.now + waitDelayMs))
      else { s.giveUp with events := [Event.lockTimeout i] }
    else { s.giveUp with events := [Event.lockReleased i] }
  | _ => s.giveUp

/-- The call to the API, at the first attempt or after a pause. -/
def callApi (s : State) (i : ℕ) (text : String) (lease : Lease) (attempt : ℕ)
    (permits : List ℕ) : Change :=
  { phase := Phase.locked lease (Critical.calling attempt), store := s.store,
    permits := permits, events := [Event.embedContent i text] }

/-- The end of `runExclusive`, which gives the permit back. -/
def leave (s : State) (i : ℕ) (lease : Lease) (critical : Critical) (events : List Event) :
    Change :=
  { phase := Phase.locked lease critical, store := s.store,
    permits := s.permits.erase i, events := events }

/-- A failed attempt. -/
def attemptFailed (s : State) (i : ℕ) (lease : Lease) (attempt : ℕ) (e : ApiError) : Change :=
  match onError embedRetries embedBaseDelayMs attempt e with
  | Verdict.rethrow => leave s i lease (Critical.releasing Completion.throws) []
  | Verdict.retryAfter delay =>
    s.goto (Phase.locked lease (Critical.pausing attempt (s.now + delay.timerMs)))

/-- The answer of the API. No embedding at all is an error of the attempt; a first
embedding without values makes the vector `null`. -/
def answered (s : State) (i : ℕ) (text : String) (lease : Lease) (attempt : ℕ) :
    Reply → Change
  | Reply.error e => attemptFailed s i lease attempt e
  | Reply.embeddings [] => attemptFailed s i lease attempt (plainError "임베딩 결과가 비어 있습니다.")
  | Reply.embeddings (vector :: _) =>
    leave s i lease
      (if vector = [] then Critical.releasing (Completion.returns none) else Critical.storing vector)
      [Event.embedded text vector]

/-- One step of call `i`, when its phase waits for that. -/
def advance (s : State) (i : ℕ) (text : String) : Phase → Op → Option Change
  | Phase.reading, Op.redis fate => some (getCached cfg s text fate Phase.acquiring)
  | Phase.acquiring, Op.redis fate => some (acquireLock cfg s i text fate)
  | Phase.locked lease Critical.queued, Op.permit =>
    if s.permits.length < semaphorePermits then some (callApi s i text lease 1 (i :: s.permits))
    else none
  | Phase.locked lease (Critical.calling attempt), Op.answer reply =>
    some (answered s i text lease attempt reply)
  | Phase.locked lease (Critical.pausing attempt wakeAt), Op.wake =>
    if wakeAt ≤ s.now then some (callApi s i text lease (attempt + 1) s.permits) else none
  | Phase.locked lease (Critical.storing vector), Op.redis fate =>
    some (setCached cfg s text lease vector fate)
  | Phase.locked lease (Critical.releasing completion), Op.redis fate =>
    some (releaseLock cfg s i text lease completion fate)
  | Phase.sleeping round wakeAt, Op.wake =>
    if wakeAt ≤ s.now then some (s.goto (Phase.polling round)) else none
  | Phase.polling round, Op.redis fate => some (getCached cfg s text fate (Phase.checking round))
  | Phase.checking round, Op.redis fate => some (checkLock cfg s i text round fate)
  | _, _ => none

/-! ## The machine -/

/-- Call `i` moves on with a change. -/
def State.apply (s : State) (i : ℕ) (query : String) (change : Change) : State :=
  { now := s.now
    store := change.store
    calls := Function.update s.calls i (some ⟨query, change.phase⟩)
    permits := change.permits
    log := s.log ++ change.events }

/-- The first statement: a blank query is answered with `null` at once. -/
def begins (s : State) (query : String) : Change :=
  if isBlank query then s.giveUp else s.goto Phase.reading

def step (s : State) : Act → Option State
  | Act.start i query =>
    match s.calls i with
    | some _ => none
    | none => some (s.apply i query (begins s query))
  | Act.call i op =>
    match s.calls i with
    | none => none
    | some c => (advance cfg s i c.text c.phase op).map (s.apply i c.query)
  | Act.outside key entry =>
    -- Nobody else writes keys that start with `emb:`; they can only vanish.
    if entry.isSome ∧ "emb:".toList.isPrefixOf key.toList then none
    else some { s with store := Function.update s.store key entry }
  | Act.tick ms => some { s with now := s.now + ms }

def machine : StepMachine State Act := ⟨step cfg⟩

/-- No call has been made, and no text has a cache entry. -/
def initial (now : ℕ) (store : Store) : State :=
  { now := now, store := store, calls := fun _ => none, permits := [], log := [] }

def NoVectors (store : Store) : Prop :=
  ∀ text, store (cacheKey cfg.embeddingModelName text) = none

/-- Settings for runs on concrete inputs. The tokens differ in their length. -/
def testConfig : Config :=
  { embeddingModelName := "gemini-embedding"
    embeddingTtlSeconds := 60
    randomUUID := fun i => String.ofList (List.replicate i 'u')
    randomUUID_injective := by
      intro i j h
      have hl := congrArg String.length h
      simpa using hl }

/-- A Redis that holds nothing. -/
def emptyStore : Store := fun _ => none

/-! ## What a step can do -/

/-- The call waits for a Redis command, and holds no lock. -/
def Phase.unlocked : Phase → Prop
  | Phase.reading | Phase.acquiring | Phase.polling _ | Phase.checking _ => True
  | _ => False

/-- The call waits for `getCache`. -/
def Phase.readsCache : Phase → Prop
  | Phase.reading | Phase.polling _ => True
  | _ => False

/-- The steps of one call, with what each one found. -/
inductive Moves (s : State) (i : ℕ) (text : String) : Phase → Op → Change → Prop
  | giveUp {phase : Phase} {fate : Fate} (unlocked : phase.unlocked) (failed : fate ≠ Fate.ok) :
      Moves s i text phase (Op.redis fate) s.giveUp
  | hit {phase : Phase} {vector : List Json} (reads : phase.readsCache)
      (found : usableVector
        (RedisService.getCache s.now s.store (cacheKey cfg.embeddingModelName text)) = some vector) :
      Moves s i text phase (Op.redis Fate.ok) (s.goto (Phase.settled (some vector)))
  | readMiss (missed : usableVector
        (RedisService.getCache s.now s.store (cacheKey cfg.embeddingModelName text)) = none) :
      Moves s i text Phase.reading (Op.redis Fate.ok) (s.goto Phase.acquiring)
  | pollMiss {round : ℕ} (missed : usableVector
        (RedisService.getCache s.now s.store (cacheKey cfg.embeddingModelName text)) = none) :
      Moves s i text (Phase.polling round) (Op.redis Fate.ok) (s.goto (Phase.checking round))
  | acquireLost :
      Moves s i text Phase.acquiring (Op.redis Fate.lost)
        { s.giveUp with
          store := (RedisService.acquireLock s.now s.store (lockKey cfg.embeddingModelName text)
            lockTtlMs (cfg.randomUUID i)).2 }
  | acquired (free : Redis.keyExists s.now s.store (lockKey cfg.embeddingModelName text) = false) :
      Moves s i text Phase.acquiring (Op.redis Fate.ok)
        { phase := Phase.locked ⟨cfg.randomUUID i, s.now⟩ Critical.queued
          store := Redis.set s.store (lockKey cfg.embeddingModelName text) (cfg.randomUUID i)
            (some (s.now + lockTtlMs))
          permits := s.permits
          events := [Event.acquired i (lockKey cfg.embeddingModelName text) (cfg.randomUUID i)] }
  | busy (taken : Redis.keyExists s.now s.store (lockKey cfg.embeddingModelName text) = true) :
      Moves s i text Phase.acquiring (Op.redis Fate.ok)
        { s.goto (Phase.sleeping 0 (s.now + waitDelayMs)) with events := [Event.lockWaiting i] }
  | permit {lease : Lease} (room : s.permits.length < semaphorePermits) :
      Moves s i text (Phase.locked lease Critical.queued) Op.permit
        (callApi s i text lease 1 (i :: s.permits))
  | retried {lease : Lease} {attempt wakeAt : ℕ} (due : wakeAt ≤ s.now) :
      Moves s i text (Phase.locked lease (Critical.pausing attempt wakeAt)) Op.wake
        (callApi s i text lease (attempt + 1) s.permits)
  | answered {lease : Lease} {attempt : ℕ} {vector : List Binary64} {rest : List (List Binary64)} :
      Moves s i text (Phase.locked lease (Critical.calling attempt))
        (Op.answer (Reply.embeddings (vector :: rest)))
        (answered s i text lease attempt (Reply.embeddings (vector :: rest)))
  | rethrown {lease : Lease} {attempt : ℕ} {reply : Reply}
      (bad : ∀ vector rest, reply ≠ Reply.embeddings (vector :: rest)) :
      Moves s i text (Phase.locked lease (Critical.calling attempt)) (Op.answer reply)
        (leave s i lease (Critical.releasing Completion.throws) [])
  | paused {lease : Lease} {attempt wakeAt : ℕ} {reply : Reply}
      (bad : ∀ vector rest, reply ≠ Reply.embeddings (vector :: rest))
      (more : attempt ≠ embedRetries) :
      Moves s i text (Phase.locked lease (Critical.calling attempt)) (Op.answer reply)
        (s.goto (Phase.locked lease (Critical.pausing attempt wakeAt)))
  | stored {lease : Lease} {vector : List Binary64} {fate : Fate} :
      Moves s i text (Phase.locked lease (Critical.storing vector)) (Op.redis fate)
        (setCached cfg s text lease vector fate)
  | released {lease : Lease} {completion : Completion} {fate : Fate} :
      Moves s i text (Phase.locked lease (Critical.releasing completion)) (Op.redis fate)
        (releaseLock cfg s i text lease completion fate)
  | woke {round wakeAt : ℕ} (due : wakeAt ≤ s.now) :
      Moves s i text (Phase.sleeping round wakeAt) Op.wake (s.goto (Phase.polling round))
  | again {round : ℕ} (more : round + 1 < waitRetries)
      (held : Redis.keyExists s.now s.store (lockKey cfg.embeddingModelName text) = true) :
      Moves s i text (Phase.checking round) (Op.redis Fate.ok)
        (s.goto (Phase.sleeping (round + 1) (s.now + waitDelayMs)))
  | timedOut {round : ℕ} (last : ¬ round + 1 < waitRetries)
      (held : Redis.keyExists s.now s.store (lockKey cfg.embeddingModelName text) = true) :
      Moves s i text (Phase.checking round) (Op.redis Fate.ok)
        { s.giveUp with events := [Event.lockTimeout i] }
  | lockGone {round : ℕ}
      (free : Redis.keyExists s.now s.store (lockKey cfg.embeddingModelName text) = false) :
      Moves s i text (Phase.checking round) (Op.redis Fate.ok)
        { s.giveUp with events := [Event.lockReleased i] }

variable {cfg : Config} {s t : State} {i : ℕ} {text : String}

/-- The cache is read before the lock is taken, and while waiting for another holder.
`embedSearchQuery` does not read it inside the section. -/
theorem Phase.readsCache.unlocked {phase : Phase} (h : phase.readsCache) : phase.unlocked := by
  unfold Phase.readsCache at h
  split at h
  · trivial
  · trivial
  · exact h.elim

/-- A read of the cache: a hit settles the call, a miss goes on to the next phase, and a
failed command ends the call with `null`, because the `try` block is around all of it. -/
theorem moves_getCached {phase miss : Phase} {fate : Fate}
    (hreads : phase.readsCache) (hun : phase.unlocked)
    (hmiss : usableVector
        (RedisService.getCache s.now s.store (cacheKey cfg.embeddingModelName text)) = none →
      Moves cfg s i text phase (Op.redis Fate.ok) (s.goto miss)) :
    Moves cfg s i text phase (Op.redis fate) (getCached cfg s text fate miss) := by
  cases fate with
  | ok =>
    simp only [getCached]
    split
    · next vector hv => exact Moves.hit hreads hv
    · next hv => exact hmiss hv
  | failed => exact Moves.giveUp hun (by simp)
  | lost => exact Moves.giveUp hun (by simp)

/-- `acquireLock`: the lock is free and taken, it is not free and the call waits for the
cache, or the command fails. A command that fails may have taken the lock all the same, and
nobody releases it then. -/
theorem moves_acquireLock (fate : Fate) :
    Moves cfg s i text Phase.acquiring (Op.redis fate) (acquireLock cfg s i text fate) := by
  cases fate with
  | failed => exact Moves.giveUp trivial (by simp)
  | lost => exact Moves.acquireLost
  | ok =>
    simp only [acquireLock, RedisService.acquireLock]
    by_cases h : Redis.keyExists s.now s.store (lockKey cfg.embeddingModelName text) = true
    · simp only [if_pos h]
      exact Moves.busy h
    · simp only [if_neg h]
      exact Moves.acquired (by simpa using h)

/-- An attempt that brought no vector: there is another one after a pause, or the call leaves
the section by way of `releaseLock`. -/
theorem moves_attemptFailed {lease : Lease} {attempt : ℕ} {reply : Reply} (e : ApiError)
    (bad : ∀ vector rest, reply ≠ Reply.embeddings (vector :: rest)) :
    Moves cfg s i text (Phase.locked lease (Critical.calling attempt)) (Op.answer reply)
      (attemptFailed s i lease attempt e) := by
  unfold attemptFailed
  split
  · exact Moves.rethrown bad
  · next delay hv =>
    refine Moves.paused bad ?_
    intro hlast
    rw [hlast, AiService.onError_last] at hv
    cases hv

/-- `exists` in `waitForCache`: the lock is there and the waiter waits, or goes on to its last
return; or it is gone, and the waiter gives up. -/
theorem moves_checkLock {round : ℕ} (fate : Fate) :
    Moves cfg s i text (Phase.checking round) (Op.redis fate)
      (checkLock cfg s i text round fate) := by
  cases fate with
  | failed => exact Moves.giveUp trivial (by simp)
  | lost => exact Moves.giveUp trivial (by simp)
  | ok =>
    simp only [checkLock, RedisService.existsKey]
    by_cases h : Redis.keyExists s.now s.store (lockKey cfg.embeddingModelName text) = true
    · rw [if_pos h]
      by_cases hr : round + 1 < waitRetries
      · rw [if_pos hr]
        exact Moves.again hr h
      · rw [if_neg hr]
        exact Moves.timedOut hr h
    · rw [if_neg h]
      exact Moves.lockGone (by simpa using h)

/-- **What a step of a call can do.** Each phase has the operation that the call is waiting
for, and what it does with each answer. The statements about calls are proved by going through
these cases, and not through the code again. -/
theorem moves_of_advance {phase : Phase} {op : Op} {change : Change}
    (h : advance cfg s i text phase op = some change) :
    Moves cfg s i text phase op change := by
  revert h
  fun_cases advance cfg s i text phase op <;> intro h <;> cases h
  · exact moves_getCached trivial trivial Moves.readMiss
  · exact moves_acquireLock _
  · next room => exact Moves.permit room
  · next lease attempt reply =>
    match reply with
    | Reply.error e => exact moves_attemptFailed e (by simp)
    | Reply.embeddings [] => exact moves_attemptFailed _ (by simp)
    | Reply.embeddings (_ :: _) => exact Moves.answered
  · next due => exact Moves.retried due
  · exact Moves.stored
  · exact Moves.released
  · next due => exact Moves.woke due
  · exact moves_getCached trivial trivial Moves.pollMiss
  · exact moves_checkLock _

/-- **What a step can do**: a call begins, a call moves on, an entry changes from outside, or
time passes. Other parties leave the keys alone that begin with `emb:`, as they are the
service's own, but an entry may go at any time. -/
theorem step_cases {a : Act} (h : step cfg s a = some t) :
    (∃ i query, a = Act.start i query ∧ s.calls i = none ∧
      t = s.apply i query (begins s query)) ∨
    (∃ i op c change, a = Act.call i op ∧ s.calls i = some c ∧
      Moves cfg s i c.text c.phase op change ∧ t = s.apply i c.query change) ∨
    (∃ key entry, a = Act.outside key entry ∧
      (entry.isSome → ¬ "emb:".toList.isPrefixOf key.toList) ∧
      t = { s with store := Function.update s.store key entry }) ∨
    (∃ ms, a = Act.tick ms ∧ t = { s with now := s.now + ms }) := by
  cases a with
  | start i query =>
    simp only [step] at h
    split at h
    · cases h
    · next hc =>
      cases h
      exact Or.inl ⟨i, query, rfl, hc, rfl⟩
  | call i op =>
    simp only [step] at h
    split at h
    · cases h
    · next c hc =>
      obtain ⟨change, hch, rfl⟩ := Option.map_eq_some_iff.1 h
      exact Or.inr (Or.inl ⟨i, op, c, change, rfl, hc, moves_of_advance hch, rfl⟩)
  | outside key entry =>
    simp only [step] at h
    split at h
    · cases h
    · next hk =>
      cases h
      refine Or.inr (Or.inr (Or.inl ⟨key, entry, rfl, ?_, rfl⟩))
      intro he hp
      exact hk ⟨he, hp⟩
  | tick ms =>
    cases h
    exact Or.inr (Or.inr (Or.inr ⟨ms, rfl, rfl⟩))

/-- A step of a known call is one of its moves. -/
theorem step_call {op : Op} {c : Call} (hc : s.calls i = some c)
    (h : step cfg s (Act.call i op) = some t) :
    ∃ change, Moves cfg s i c.text c.phase op change ∧ t = s.apply i c.query change := by
  rcases step_cases h with ⟨_, _, ha, -⟩ | ⟨_, _, d, change, ha, hd, hm, rfl⟩ | ⟨_, _, ha, -⟩ |
    ⟨_, ha, -⟩
  · cases ha
  · cases ha
    rw [hc] at hd
    cases hd
    exact ⟨change, hm, rfl⟩
  · cases ha
  · cases ha

/-- Only the call that takes the step calls the API in it, with its own text. Calls share
vectors through the cache, and in no other way. -/
theorem Moves.embedContent_mem {phase : Phase} {op : Op} {change : Change}
    (h : Moves cfg s i text phase op change) {j : ℕ} {u : String}
    (hu : Event.embedContent j u ∈ change.events) : j = i ∧ u = text := by
  cases h with
  | stored => rename_i fate; cases fate <;> simp [setCached] at hu
  | released => rename_i fate; cases fate <;> simp [releaseLock] at hu
  | answered => simp [EmbedSearchQuery.answered, leave] at hu
  | permit => simpa only [callApi, List.mem_singleton, Event.embedContent.injEq] using hu
  | retried => simpa only [callApi, List.mem_singleton, Event.embedContent.injEq] using hu
  | _ => simp [State.goto, State.giveUp, leave] at hu

/-! ## The calls after a step -/

theorem apply_calls_self (query : String) (change : Change) :
    (s.apply i query change).calls i = some ⟨query, change.phase⟩ := by
  simp [State.apply]

theorem apply_calls_ne {j : ℕ} (query : String) (change : Change) (h : j ≠ i) :
    (s.apply i query change).calls j = s.calls j := by
  simp [State.apply, Function.update_of_ne h]

/-- A call after a step of call `i` is that call or an old one. -/
theorem apply_calls_some {j : ℕ} {query : String} {change : Change} {c : Call}
    (h : (s.apply i query change).calls j = some c) :
    j = i ∧ c = ⟨query, change.phase⟩ ∨ j ≠ i ∧ s.calls j = some c := by
  by_cases hj : j = i
  · rw [hj, apply_calls_self] at h
    exact Or.inl ⟨hj, (Option.some.inj h).symm⟩
  · rw [apply_calls_ne _ _ hj] at h
    exact Or.inr ⟨hj, h⟩

theorem apply_calls_none {j : ℕ} {query : String} {change : Change}
    (h : (s.apply i query change).calls j = none) : j ≠ i ∧ s.calls j = none := by
  by_cases hj : j = i
  · rw [hj, apply_calls_self] at h
    cases h
  · exact ⟨hj, (apply_calls_ne _ _ hj).symm.trans h⟩

/-- A key that starts with `emb:` is written by the service only, so what is found under it
was written by one of these calls. -/
theorem isPrefixOf_cacheKey (m text : String) :
    "emb:".toList.isPrefixOf (cacheKey m text).toList = true := by
  simp [cacheKey]

end EmbedSearchQuery

end TechTrends
