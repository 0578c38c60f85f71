/-
Every call of `embedSearchQuery` comes to an end, and gives back what it took.

Three facts are put together here. The lock events of a call are those of its
phase: nothing, then an acquisition, then the one release. The permits are held
by the calls that are inside `runExclusive`. And each step of a call of its own
brings it nearer to its end, by `Phase.rank`, while a call that has not ended
can always be brought one such step on.
-/
import TechTrends.SearchSoundness

set_option autoImplicit false

namespace TechTrends

namespace EmbedSearchQuery

open AiService (cacheKey lockKey normalizeKeyword isBlank onError httpError)

variable {cfg : Config} {s t : State} {i : ℕ} {text : String}

/-! ## The lock events of a call -/

inductive LockEvent
  | acquired (key token : String)
  | releaseLock (key token : String)
deriving DecidableEq

/-- What an event says about the lock of call `i`. -/
def Event.lockOf (i : ℕ) : Event → Option LockEvent
  | Event.acquired j key token => if j = i then some (LockEvent.acquired key token) else none
  | Event.releaseLock j key token => if j = i then some (LockEvent.releaseLock key token) else none
  | _ => none

/-- The lock events of call `i`, in order. -/
def lockTrace (i : ℕ) (log : List Event) : List LockEvent := log.filterMap (Event.lockOf i)

/-- A call that ended either never had a lock token, or released its lock exactly
once, with the key and the token it had acquired it with. -/
def Balanced (key : String) (trace : List LockEvent) : Prop :=
  trace = [] ∨ ∃ token, trace = [LockEvent.acquired key token, LockEvent.releaseLock key token]

/-- The lock events of a call in a phase. -/
def TraceOf (key : String) : Phase → List LockEvent → Prop
  | Phase.locked lease _, trace => trace = [LockEvent.acquired key lease.token]
  | Phase.settled _, trace => Balanced key trace
  | _, trace => trace = []

/-- Every call's lock events are those of its phase. -/
def Traced (cfg : Config) (s : State) : Prop :=
  (∀ i, s.calls i = none → lockTrace i s.log = []) ∧
  ∀ i c, s.calls i = some c →
    TraceOf (lockKey cfg.embeddingModelName c.text) c.phase (lockTrace i s.log)

/-- The events of a step are about the lock of the call that takes it. -/
theorem Moves.lockTrace_ne {phase : Phase} {op : Op} {change : Change}
    (h : Moves cfg s i text phase op change) {j : ℕ} (hj : j ≠ i) :
    lockTrace j change.events = [] := by
  have hij : i ≠ j := Ne.symm hj
  cases h with
  | stored => rename_i fate; cases fate <;> rfl
  | released =>
    rename_i fate
    cases fate <;> simp [releaseLock, lockTrace, Event.lockOf, hij]
  | acquired => simp [lockTrace, Event.lockOf, hij]
  | answered => rfl
  | _ => rfl

/-- A step takes the lock events of a phase to those of the next one. A failed `releaseLock`
counts as the one release of its call: the `finally` block runs once. -/
theorem Moves.traceOf {phase : Phase} {op : Op} {change : Change}
    (h : Moves cfg s i text phase op change) {trace : List LockEvent}
    (ht : TraceOf (lockKey cfg.embeddingModelName text) phase trace) :
    TraceOf (lockKey cfg.embeddingModelName text) change.phase
      (trace ++ lockTrace i change.events) := by
  cases h with
  -- a command that fails without the lock leaves the trace as it is
  | giveUp unlocked failed =>
    have hev : lockTrace i s.giveUp.events = [] := rfl
    rw [hev, List.append_nil]
    cases phase with
    | locked | settled | sleeping => exact unlocked.elim
    | _ => exact Or.inl ht
  | @hit _ vector reads found =>
    have hev : lockTrace i (s.goto (Phase.settled (some vector))).events = [] := rfl
    rw [hev, List.append_nil]
    cases phase with
    | locked | settled | sleeping | acquiring | checking => exact reads.elim
    | _ => exact Or.inl ht
  | acquireLost =>
    have hnil : trace = [] := ht
    rw [hnil]
    exact Or.inl rfl
  | acquired free =>
    have hnil : trace = [] := ht
    rw [hnil]
    simp [TraceOf, lockTrace, Event.lockOf]
  | timedOut last held =>
    have hnil : trace = [] := ht
    rw [hnil]
    exact Or.inl rfl
  | lockGone free =>
    have hnil : trace = [] := ht
    rw [hnil]
    exact Or.inl rfl
  | @stored lease vector fate =>
    have hone : trace = [LockEvent.acquired (lockKey cfg.embeddingModelName text) lease.token] := ht
    rw [hone]
    cases fate <;> rfl
  -- the one release, whether its command succeeds or not
  | @released lease completion fate =>
    have hone : trace = [LockEvent.acquired (lockKey cfg.embeddingModelName text) lease.token] := ht
    rw [hone]
    cases fate <;>
      exact Or.inr ⟨lease.token, by simp [releaseLock, lockTrace, Event.lockOf]⟩
  | @answered lease attempt vector rest =>
    have hone : trace = [LockEvent.acquired (lockKey cfg.embeddingModelName text) lease.token] := ht
    rw [hone]
    rfl
  | _ =>
    simp only [TraceOf, State.goto, callApi, leave, lockTrace] at ht ⊢
    rw [ht]
    rfl

theorem begins_events (query : String) : (begins s query).events = [] := by
  unfold begins
  split <;> rfl

theorem lockTrace_append (log events : List Event) :
    lockTrace i (log ++ events) = lockTrace i log ++ lockTrace i events :=
  List.filterMap_append

/-- The lock events after a step of call `i` whose own events are right. -/
theorem Traced.apply (hs : Traced cfg s) {query : String} {change : Change}
    (hother : ∀ j, j ≠ i → lockTrace j change.events = [])
    (hself : TraceOf (lockKey cfg.embeddingModelName (normalizeKeyword query)) change.phase
      (lockTrace i s.log ++ lockTrace i change.events)) :
    Traced cfg (s.apply i query change) := by
  constructor
  · intro j hj
    obtain ⟨hji, hj⟩ := apply_calls_none hj
    simp only [State.apply, lockTrace_append, hs.1 j hj, hother j hji, List.append_nil]
  · intro j c hc
    rcases apply_calls_some hc with ⟨rfl, rfl⟩ | ⟨hji, hc⟩
    · simp only [State.apply, lockTrace_append]
      exact hself
    · simp only [State.apply, lockTrace_append, hother j hji, List.append_nil]
      exact hs.2 j c hc

/-- **Step.** The lock events of every call are those of its phase. -/
theorem traced_step : (machine cfg).Keeps (Traced cfg) := by
  intro s a t hs h
  rcases step_cases h with ⟨i, query, rfl, hc, rfl⟩ | ⟨i, op, c, change, rfl, hc, hm, rfl⟩ |
    ⟨key, entry, rfl, hkey, rfl⟩ | ⟨ms, rfl, rfl⟩
  · have hev := begins_events (s := s) query
    refine hs.apply (fun j _ => by rw [hev]; rfl) ?_
    rw [hev, hs.1 i hc]
    unfold begins
    split
    · exact Or.inl rfl
    · rfl
  · exact hs.apply (fun j hj => hm.lockTrace_ne hj) (hm.traceOf (hs.2 i c hc))
  · exact hs
  · exact hs

/-! ## The permits -/

/-- The call is inside `semaphore.runExclusive`. -/
def Phase.inSemaphore : Phase → Prop
  | Phase.locked _ (Critical.calling _) => True
  | Phase.locked _ (Critical.pausing _ _) => True
  | _ => False

/-- The permits are held, once each, by the calls inside `runExclusive`. -/
structure Permitted (s : State) : Prop where
  nodup : s.permits.Nodup
  holder : ∀ i, i ∈ s.permits ↔ ∃ c, s.calls i = some c ∧ c.phase.inSemaphore
  bounded : s.permits.length ≤ semaphorePermits

/-- How a step of call `i` changes the permits: not at all, by taking one where there is room,
or by giving back its own. `runExclusive` gives it back however its function ends. -/
theorem Moves.permits {phase : Phase} {op : Op} {change : Change}
    (h : Moves cfg s i text phase op change) :
    (change.permits = s.permits ∧ (change.phase.inSemaphore ↔ phase.inSemaphore)) ∨
    (change.permits = i :: s.permits ∧ s.permits.length < semaphorePermits ∧
      ¬ phase.inSemaphore ∧ change.phase.inSemaphore) ∨
    (change.permits = s.permits.erase i ∧ ¬ change.phase.inSemaphore) := by
  cases h with
  | giveUp unlocked failed =>
    left
    refine ⟨rfl, ?_⟩
    cases phase with
    | locked => exact unlocked.elim
    | _ => exact Iff.rfl
  | hit reads found =>
    left
    refine ⟨rfl, ?_⟩
    cases phase with
    | locked => exact reads.elim
    | _ => exact Iff.rfl
  | permit room => exact Or.inr (Or.inl ⟨rfl, room, fun hp => hp, trivial⟩)
  | rethrown bad => exact Or.inr (Or.inr ⟨rfl, fun hp => hp⟩)
  | @answered lease attempt vector rest =>
    refine Or.inr (Or.inr ⟨rfl, ?_⟩)
    simp only [EmbedSearchQuery.answered, leave]
    split <;> exact fun hp => hp
  | stored =>
    rename_i fate
    left
    cases fate <;> exact ⟨rfl, Iff.rfl⟩
  | released =>
    rename_i fate
    left
    cases fate <;> exact ⟨rfl, Iff.rfl⟩
  | _ => exact Or.inl ⟨rfl, Iff.rfl⟩

theorem permitted_initial (now : ℕ) (store : Store) : Permitted (initial now store) := by
  refine ⟨List.nodup_nil, ?_, Nat.zero_le _⟩
  intro i
  constructor
  · intro hi
    cases hi
  · rintro ⟨c, hc, -⟩
    cases hc

/-- The permits after a step of call `i`, from who holds one. -/
theorem Permitted.apply {query : String} {change : Change} (hs : Permitted s)
    (hnodup : change.permits.Nodup) (hlen : change.permits.length ≤ semaphorePermits)
    (hself : i ∈ change.permits ↔ change.phase.inSemaphore)
    (hother : ∀ j, j ≠ i → (j ∈ change.permits ↔ j ∈ s.permits)) :
    Permitted (s.apply i query change) := by
  refine ⟨hnodup, ?_, hlen⟩
  intro j
  by_cases hj : j = i
  · subst hj
    simp only [apply_calls_self, Option.some.injEq, exists_eq_left']
    exact hself
  · rw [apply_calls_ne _ _ hj]
    exact (hother j hj).trans (hs.holder j)

/-- **Step.** The permits are held by the calls inside the semaphore, each once, and there are
no more than three. -/
theorem permitted_step : (machine cfg).Keeps Permitted := by
  intro s a t hs h
  rcases step_cases h with ⟨i, query, rfl, hc, rfl⟩ | ⟨i, op, c, change, rfl, hc, hm, rfl⟩ |
    ⟨key, entry, rfl, hkey, rfl⟩ | ⟨ms, rfl, rfl⟩
  · have hi : i ∉ s.permits := by
      intro hmem
      obtain ⟨c, hc', -⟩ := (hs.holder i).1 hmem
      rw [hc] at hc'
      cases hc'
    have hb : (begins s query).permits = s.permits ∧ ¬ (begins s query).phase.inSemaphore := by
      unfold begins
      split <;> exact ⟨rfl, fun hp => hp⟩
    refine hs.apply ?_ ?_ ?_ ?_
    · rw [hb.1]; exact hs.nodup
    · rw [hb.1]; exact hs.bounded
    · rw [hb.1]; exact iff_of_false hi hb.2
    · intro j _
      rw [hb.1]
  · have hi : i ∈ s.permits ↔ c.phase.inSemaphore := by
      rw [hs.holder i, hc]
      simp
    rcases hm.permits with ⟨hp, hphase⟩ | ⟨hp, hroom, hout, hin⟩ | ⟨hp, hout⟩
    · refine hs.apply ?_ ?_ ?_ ?_
      · rw [hp]; exact hs.nodup
      · rw [hp]; exact hs.bounded
      · rw [hp, hi, hphase]
      · intro j _
        rw [hp]
    · refine hs.apply ?_ ?_ ?_ ?_
      · -- a call that was outside the semaphore had no permit
        rw [hp]; exact List.nodup_cons.2 ⟨fun hmem => hout (hi.1 hmem), hs.nodup⟩
      · rw [hp]; exact hroom
      · rw [hp]; exact iff_of_true List.mem_cons_self hin
      · intro j hj
        rw [hp, List.mem_cons]
        exact or_iff_right hj
    · refine hs.apply ?_ ?_ ?_ ?_
      · rw [hp]; exact hs.nodup.erase i
      · rw [hp]; exact (List.length_erase_le).trans hs.bounded
      · rw [hp]; exact iff_of_false (fun hmem => (hs.nodup.mem_erase_iff.1 hmem).1 rfl) hout
      · intro j hj
        rw [hp, hs.nodup.mem_erase_iff]
        exact and_iff_right hj
  · exact ⟨hs.nodup, hs.holder, hs.bounded⟩
  · exact ⟨hs.nodup, hs.holder, hs.bounded⟩

/-! ## Every call ends -/

/-- The counters of a phase stay within their loops. -/
def Phase.inBounds : Phase → Prop
  | Phase.locked _ (Critical.calling attempt) => attempt ≤ embedRetries
  | Phase.locked _ (Critical.pausing attempt _) => attempt < embedRetries
  | Phase.sleeping round _ | Phase.polling round | Phase.checking round => round < waitRetries
  | _ => True

/-- How many steps of its own a call in this phase has left at most. -/
def Phase.rank : Phase → ℕ
  | Phase.settled _ => 0
  | Phase.locked _ (Critical.releasing _) => 1
  | Phase.locked _ (Critical.storing _) => 2
  | Phase.locked _ (Critical.calling attempt) => 3 + 2 * (embedRetries - attempt)
  | Phase.locked _ (Critical.pausing attempt _) => 2 + 2 * (embedRetries - attempt)
  | Phase.locked _ Critical.queued => 4 + 2 * embedRetries
  | Phase.checking round => 1 + 3 * (waitRetries - 1 - round)
  | Phase.polling round => 2 + 3 * (waitRetries - 1 - round)
  | Phase.sleeping round _ => 3 + 3 * (waitRetries - 1 - round)
  | Phase.acquiring => 1 + 3 * waitRetries
  | Phase.reading => 2 + 3 * waitRetries

/-- The steps a call can take in all, its start included. -/
def stepBound : ℕ := 3 + 3 * waitRetries

/-- Each step of a call brings it nearer to its end. The rounds of a waiter and the attempts
at the API are counted down, and every other phase comes once. -/
theorem Moves.rank_lt {phase : Phase} {op : Op} {change : Change}
    (h : Moves cfg s i text phase op change) (hb : phase.inBounds) :
    change.phase.inBounds ∧ change.phase.rank < phase.rank := by
  cases h with
  | giveUp unlocked failed =>
    refine ⟨trivial, ?_⟩
    cases phase with
    | locked | settled | sleeping => exact unlocked.elim
    | _ => simp only [State.giveUp, State.goto, Phase.rank]; omega
  | hit reads found =>
    refine ⟨trivial, ?_⟩
    cases phase with
    | locked | settled | sleeping | acquiring | checking => exact reads.elim
    | _ => simp only [State.goto, Phase.rank]; omega
  | stored =>
    rename_i fate
    cases fate <;> exact ⟨trivial, Nat.lt_succ_self 1⟩
  | released =>
    rename_i fate
    cases fate <;> exact ⟨trivial, Nat.zero_lt_one⟩
  | answered =>
    simp only [EmbedSearchQuery.answered, leave]
    split <;> exact ⟨trivial, by simp only [Phase.rank]; omega⟩
  | _ =>
    simp only [State.goto, State.giveUp, callApi, leave, Phase.inBounds, Phase.rank, embedRetries,
      waitRetries, true_and] at *
    omega

/-- The steps call `i` has left at most. -/
def callRank (s : State) (i : ℕ) : ℕ :=
  match s.calls i with
  | none => stepBound
  | some c => c.phase.rank

def InBounds (s : State) : Prop := ∀ i c, s.calls i = some c → c.phase.inBounds

theorem InBounds.apply {query : String} {change : Change} (hs : InBounds s)
    (h : change.phase.inBounds) : InBounds (s.apply i query change) := by
  intro j c hc
  rcases apply_calls_some hc with ⟨rfl, rfl⟩ | ⟨hj, hc⟩
  · exact h
  · exact hs j c hc

theorem begins_rank (query : String) :
    (begins s query).phase.inBounds ∧ (begins s query).phase.rank < stepBound := by
  unfold begins
  split <;> refine ⟨trivial, ?_⟩ <;>
    simp only [State.giveUp, State.goto, Phase.rank, stepBound] <;> omega

/-- Rounds and attempts stay within their bounds. -/
theorem inBounds_step : (machine cfg).Keeps InBounds := by
  intro s a t hs h
  rcases step_cases h with ⟨i, query, rfl, hc, rfl⟩ | ⟨i, op, c, change, rfl, hc, hm, rfl⟩ |
    ⟨key, entry, rfl, hkey, rfl⟩ | ⟨ms, rfl, rfl⟩
  · exact hs.apply (begins_rank query).1
  · exact hs.apply (hm.rank_lt (hs i c hc)).1
  · exact hs
  · exact hs

/-- The step is one of call `i`. -/
def Act.isOf (i : ℕ) : Act → Bool
  | Act.start j _ | Act.call j _ => j == i
  | _ => false

theorem callRank_apply_self {query : String} {change : Change} :
    callRank (s.apply i query change) i = change.phase.rank := by
  rw [callRank, apply_calls_self]

theorem callRank_apply_ne {j : ℕ} {query : String} {change : Change} (h : j ≠ i) :
    callRank (s.apply i query change) j = callRank s j := by
  rw [callRank, apply_calls_ne _ _ h, callRank]

/-- A step of a call lowers its rank, and leaves those of other calls. -/
theorem callRank_step {a : Act} (hs : InBounds s) (h : step cfg s a = some t) (i : ℕ) :
    callRank t i + (if a.isOf i then 1 else 0) ≤ callRank s i := by
  rcases step_cases h with ⟨j, query, rfl, hc, rfl⟩ | ⟨j, op, c, change, rfl, hc, hm, rfl⟩ |
    ⟨key, entry, rfl, hkey, rfl⟩ | ⟨ms, rfl, rfl⟩
  · -- a new call has all of its steps before it
    by_cases hj : i = j
    · have hrank := (begins_rank (s := s) query).2
      have hbound : callRank s j = stepBound := by rw [callRank, hc]
      rw [hj, callRank_apply_self, hbound]
      simp only [Act.isOf, beq_self_eq_true, if_true]
      omega
    · simp [callRank_apply_ne hj, Act.isOf, Ne.symm hj]
  · by_cases hj : i = j
    · have hrank := (hm.rank_lt (hs j c hc)).2
      have hbound : callRank s j = c.phase.rank := by rw [callRank, hc]
      rw [hj, callRank_apply_self, hbound]
      simp only [Act.isOf, beq_self_eq_true, if_true]
      omega
    · simp [callRank_apply_ne hj, Act.isOf, Ne.symm hj]
  · exact Nat.le_refl _
  · exact Nat.le_refl _

/-- **A call takes boundedly many steps**, in every run. -/
theorem steps_le {as : List Act} : ∀ {s t : State}, InBounds s → (machine cfg).run as s = some t →
    ∀ i, callRank t i + as.countP (Act.isOf i) ≤ callRank s i := by
  induction as with
  | nil =>
    intro s t _ hr i
    cases hr
    exact Nat.le_refl _
  | cons a as ih =>
    intro s t hs hr i
    obtain ⟨m, hm, hr⟩ := ((machine cfg).run_cons_eq_some).1 hr
    have hrest := ih (inBounds_step s a m hs hm) hr i
    have hstep := callRank_step hs hm i
    rw [List.countP_cons]
    omega

/-! ## No call is stuck -/

theorem run_call {op : Op} {c : Call} {change : Change} (hc : s.calls i = some c)
    (h : advance cfg s i c.text c.phase op = some change) :
    (machine cfg).run [Act.call i op] s = some (s.apply i c.query change) := by
  simp only [machine, StepMachine.run, step, hc, h, Option.map_some, Option.bind_some]

/-- A client error of the API ends the retries at once, so a call at its request can always be
brought on by such an answer. -/
theorem attemptFailed_fatal (lease : Lease) (attempt : ℕ) :
    attemptFailed s i lease attempt (httpError 400 "") =
      leave s i lease (Critical.releasing Completion.throws) [] := by
  have hfatal : onError embedRetries embedBaseDelayMs attempt (httpError 400 "") =
      AiService.Verdict.rethrow := by
    have hover : AiService.isStructuralOverflow (httpError 400 "") = false := by decide +kernel
    have hnon : AiService.isNonRetryable (httpError 400 "") = true := by decide +kernel
    unfold onError
    rw [hover, hnon]
    rfl
  rw [attemptFailed, hfatal]

/-- A call inside the semaphore can be brought to leave it, while no other call
moves. -/
theorem leaves_semaphore {c : Call} (hc : s.calls i = some c) (hin : c.phase.inSemaphore) :
    ∃ as u, (machine cfg).run as s = some u ∧ u.permits = s.permits.erase i ∧
      ∀ j, j ≠ i → u.calls j = s.calls j := by
  -- the API answers the attempt of the call with a client error
  have hanswer : ∀ (s : State) (lease : Lease) (attempt : ℕ) (query : String),
      s.calls i = some ⟨query, Phase.locked lease (Critical.calling attempt)⟩ →
      (machine cfg).run [Act.call i (Op.answer (Reply.error (httpError 400 "")))] s =
        some (s.apply i query (leave s i lease (Critical.releasing Completion.throws) [])) := by
    intro s lease attempt query hcall
    refine run_call hcall ?_
    rw [← attemptFailed_fatal lease attempt]
    rfl
  obtain ⟨query, phase⟩ := c
  cases phase with
  | locked lease critical =>
    cases critical with
    | calling attempt =>
      refine ⟨_, _, hanswer s lease attempt query hc, rfl, ?_⟩
      intro j hj
      exact apply_calls_ne _ _ hj
    | pausing attempt wakeAt =>
      -- the pause is over first
      have hwake : (machine cfg).run [Act.tick wakeAt, Act.call i Op.wake] s =
          some (State.apply { s with now := s.now + wakeAt } i query
            (callApi { s with now := s.now + wakeAt } i (normalizeKeyword query) lease
              (attempt + 1) s.permits)) := by
        have hdue : wakeAt ≤ s.now + wakeAt := Nat.le_add_left _ _
        simp only [machine, StepMachine.run, step, hc, advance, Call.text, if_pos hdue,
          Option.map_some, Option.bind_some]
      refine ⟨_, _, (StepMachine.run_append_eq_some _).2 ⟨_, hwake, hanswer _ lease (attempt + 1) query
        (apply_calls_self _ _)⟩, rfl, ?_⟩
      intro j hj
      rw [apply_calls_ne _ _ hj, apply_calls_ne _ _ hj]
    | _ => exact hin.elim
  | _ => exact hin.elim

/-- When the semaphore is full, a call in the queue can be given room: some other call
holds a permit and gives it back. -/
theorem frees_permit (hp : Permitted s) {query : String} {lease : Lease}
    (hc : s.calls i = some ⟨query, Phase.locked lease Critical.queued⟩)
    (hfull : ¬ s.permits.length < semaphorePermits) :
    ∃ pre m, (machine cfg).run pre s = some m ∧
      m.calls i = some ⟨query, Phase.locked lease Critical.queued⟩ ∧
      m.permits.length < semaphorePermits := by
  have hpos : 0 < s.permits.length := by
    simp only [semaphorePermits] at hfull
    omega
  obtain ⟨j, hj⟩ := List.exists_mem_of_length_pos hpos
  obtain ⟨c', hc', hin⟩ := (hp.holder j).1 hj
  have hne : i ≠ j := by
    rintro rfl
    rw [hc] at hc'
    cases hc'
    exact hin.elim
  obtain ⟨pre, m, hpre, hperm, hcalls⟩ := leaves_semaphore hc' hin
  refine ⟨pre, m, hpre, (hcalls i hne).trans hc, ?_⟩
  rw [hperm, List.length_erase_of_mem hj]
  have hbound := hp.bounded
  omega

/-- **A call that has not ended can be brought one step of its own on.** Only a call in the
queue of the semaphore may have to wait for another one, which can be brought to leave first. -/
theorem can_move (hp : Permitted s) {c : Call} (hc : s.calls i = some c)
    (hopen : ∀ r, c.phase ≠ Phase.settled r) :
    ∃ as u, (machine cfg).run as s = some u ∧ 0 < as.countP (Act.isOf i) := by
  have hone : ∀ (pre : List Act) (m : State) (op : Op) (change : Change),
      (machine cfg).run pre s = some m → m.calls i = some c →
      advance cfg m i c.text c.phase op = some change →
      ∃ as u, (machine cfg).run as s = some u ∧ 0 < as.countP (Act.isOf i) := by
    intro pre m op change hpre hcm hadv
    refine ⟨pre ++ [Act.call i op], _,
      (StepMachine.run_append_eq_some _).2 ⟨m, hpre, run_call hcm hadv⟩, ?_⟩
    simp [Act.isOf]
  have hnow : (machine cfg).run [] s = some s := rfl
  have htick : ∀ ms, (machine cfg).run [Act.tick ms] s = some { s with now := s.now + ms } :=
    fun _ => rfl
  obtain ⟨query, phase⟩ := c
  cases phase with
  | settled r => exact absurd rfl (hopen r)
  | reading => exact hone [] s (Op.redis Fate.failed) _ hnow hc rfl
  | acquiring => exact hone [] s (Op.redis Fate.failed) _ hnow hc rfl
  | polling round => exact hone [] s (Op.redis Fate.failed) _ hnow hc rfl
  | checking round => exact hone [] s (Op.redis Fate.failed) _ hnow hc rfl
  | sleeping round wakeAt =>
    exact hone [Act.tick wakeAt] _ Op.wake _ (htick wakeAt) hc (if_pos (Nat.le_add_left _ _))
  | locked lease critical =>
    cases critical with
    | calling attempt => exact hone [] s (Op.answer (Reply.error (httpError 400 ""))) _ hnow hc rfl
    | storing vector => exact hone [] s (Op.redis Fate.failed) _ hnow hc rfl
    | releasing completion => exact hone [] s (Op.redis Fate.failed) _ hnow hc rfl
    | pausing attempt wakeAt =>
      exact hone [Act.tick wakeAt] _ Op.wake _ (htick wakeAt) hc (if_pos (Nat.le_add_left _ _))
    | queued =>
      by_cases hroom : s.permits.length < semaphorePermits
      · exact hone [] s Op.permit _ hnow hc (if_pos hroom)
      · obtain ⟨pre, m, hpre, hcm, hfree⟩ := frees_permit hp hc hroom
        exact hone pre m Op.permit _ hpre hcm (if_pos hfree)

/-- A call that was made stays made. -/
theorem calls_step {a : Act} (h : step cfg s a = some t) {c : Call} (hc : s.calls i = some c) :
    ∃ c', t.calls i = some c' ∧ c'.query = c.query := by
  rcases step_cases h with ⟨j, query, rfl, hj, rfl⟩ | ⟨j, op, d, change, rfl, hj, hm, rfl⟩ |
    ⟨key, entry, rfl, hkey, rfl⟩ | ⟨ms, rfl, rfl⟩
  · have hne : i ≠ j := by
      rintro rfl
      rw [hc] at hj
      cases hj
    exact ⟨c, (apply_calls_ne _ _ hne).trans hc, rfl⟩
  · by_cases hij : i = j
    · subst hij
      rw [hc] at hj
      cases hj
      exact ⟨_, apply_calls_self _ _, rfl⟩
    · exact ⟨c, (apply_calls_ne _ _ hij).trans hc, rfl⟩
  · exact ⟨c, hc, rfl⟩
  · exact ⟨c, hc, rfl⟩

/-- A call that was made stays made, with its query. -/
theorem calls_run {as : List Act} {s t : State} (hr : (machine cfg).run as s = some t) {c : Call}
    (hc : s.calls i = some c) : ∃ c', t.calls i = some c' ∧ c'.query = c.query := by
  have hkept : ∀ c, s.calls i = some c → ∃ c', t.calls i = some c' ∧ c'.query = c.query := by
    refine (machine cfg).run_rel
      (R := fun s t => ∀ c, s.calls i = some c → ∃ c', t.calls i = some c' ∧ c'.query = c.query)
      ?_ ?_ ?_ hr
    · exact fun s c hc => ⟨c, hc, rfl⟩
    · intro s t u hst htu c hc
      obtain ⟨c', hc', hq'⟩ := hst c hc
      obtain ⟨c'', hc'', hq''⟩ := htu c' hc'
      exact ⟨c'', hc'', hq''.trans hq'⟩
    · exact fun s a t h c hc => calls_step h hc
  exact hkept c hc

/-- **A call can always be brought to its end**, by induction on the steps it has left.
Together with the bound on its steps this says that a search does not hang on a lock, on the
cache or on the semaphore. -/
theorem can_settle : ∀ (n : ℕ) {s : State}, Permitted s → InBounds s → callRank s i ≤ n →
    ∀ {c : Call}, s.calls i = some c →
    ∃ as u r, (machine cfg).run as s = some u ∧ u.calls i = some ⟨c.query, Phase.settled r⟩ := by
  intro n
  induction n with
  | zero =>
    intro s _ _ hn c hc
    have hphase : ∃ r, c.phase = Phase.settled r := by
      rw [callRank, hc] at hn
      obtain ⟨query, phase⟩ := c
      cases phase with
      | settled r => exact ⟨r, rfl⟩
      | locked lease critical => cases critical <;> simp [Phase.rank] at hn
      | _ => simp [Phase.rank] at hn
    obtain ⟨r, hr⟩ := hphase
    exact ⟨[], s, r, rfl, by rw [hc, ← hr]⟩
  | succ n ih =>
    intro s hp hb hn c hc
    by_cases hopen : ∀ r, c.phase ≠ Phase.settled r
    · -- after a step of its own it has fewer left
      obtain ⟨as, m, hr, hpos⟩ := can_move hp hc hopen
      -- the induction hypothesis is for the state after that step
      have hsteps := steps_le hb hr i
      have hp' := StepMachine.Keeps.run _ permitted_step hp hr
      have hb' := StepMachine.Keeps.run _ inBounds_step hb hr
      obtain ⟨c', hc', hq⟩ := calls_run hr hc
      obtain ⟨bs, u, r, hr', hu⟩ := ih hp' hb' (by omega) hc'
      exact ⟨as ++ bs, u, r, (StepMachine.run_append_eq_some _).2 ⟨m, hr, hr'⟩, hq ▸ hu⟩
    · push Not at hopen
      obtain ⟨r, hr⟩ := hopen
      exact ⟨[], s, r, rfl, by rw [hc, ← hr]⟩

/-! ## The result -/

/-- **The search embedding never breaks a search and never mixes queries.** In
every run, with any faults of Redis and of the API and any expiries: what a call
resolves to is `null` or a vector that the API returned for its own text; only
such vectors are written, under the key of their text; a call that ended released
the lock it got exactly once, and one that holds it has not yet; and every call
takes boundedly many steps and can always be brought to its end. -/
theorem embedSearchQuery_sound (cfg : Config) (now : ℕ) (store : Store)
    (hstore : NoVectors cfg store) (as : List Act) (t : State)
    (hrun : (machine cfg).run as (initial now store) = some t) :
    (∀ i c r, t.calls i = some c → c.phase = Phase.settled r →
      r = none ∨ ∃ vector : List Binary64, vector ≠ [] ∧
        Event.embedded (normalizeKeyword c.query) vector ∈ t.log ∧
        r = some (vector.map Json.num)) ∧
    (∀ key value, Event.setCache key value ∈ t.log →
      ∃ text vector, vector ≠ [] ∧ Event.embedded text vector ∈ t.log ∧
        key = cacheKey cfg.embeddingModelName text ∧ value = vectorJson vector) ∧
    (∀ i c, t.calls i = some c →
      TraceOf (lockKey cfg.embeddingModelName (normalizeKeyword c.query)) c.phase
        (lockTrace i t.log)) ∧
    (∀ i, as.countP (Act.isOf i) ≤ stepBound) ∧
    (∀ i c, t.calls i = some c →
      ∃ bs u r, (machine cfg).run bs t = some u ∧
        u.calls i = some ⟨c.query, Phase.settled r⟩) := by
  have hsound := StepMachine.Keeps.run _ sound_step (sound_initial now hstore) hrun
  have htraced : Traced cfg t := by
    refine StepMachine.Keeps.run _ traced_step ⟨fun _ _ => rfl, ?_⟩ hrun
    intro i c hc
    cases hc
  have hperm := StepMachine.Keeps.run _ permitted_step (permitted_initial now store) hrun
  have hinit : InBounds (initial now store) := by
    intro i c hc
    cases hc
  have hbounds := StepMachine.Keeps.run _ inBounds_step hinit hrun
  refine ⟨?_, ?_, htraced.2, ?_, ?_⟩
  · intro i c r hc hphase
    have hback := hsound.calls i c hc
    rw [hphase] at hback
    cases r with
    | none => exact Or.inl rfl
    | some result =>
      obtain ⟨vector, ⟨hne, hmem⟩, rfl⟩ := hback
      exact Or.inr ⟨vector, hne, hmem, rfl⟩
  · intro key value hmem
    obtain ⟨text, vector, ⟨hne, hret⟩, hkey, hvalue⟩ := hsound.written key value hmem
    exact ⟨text, vector, hne, hret, hkey, hvalue⟩
  · intro i
    have hsteps := steps_le hinit hrun i
    have hstart : callRank (initial now store) i = stepBound := rfl
    omega
  · intro i c hc
    exact can_settle _ hperm hbounds (le_refl _) hc

/-- A call that gets its vector and then fails to release the lock, and one that
waits for the first. -/
def failedRelease : List Act :=
  [Act.start 0 "Redis란 뭐야", Act.start 1 "redis란", Act.call 0 (Op.redis Fate.ok),
    Act.call 1 (Op.redis Fate.ok), Act.call 0 (Op.redis Fate.ok), Act.call 1 (Op.redis Fate.ok),
    Act.call 0 Op.permit, Act.call 0 (Op.answer (Reply.embeddings [[Binary64.ofInt 7]])),
    Act.call 0 (Op.redis Fate.ok), Act.tick 200, Act.call 1 Op.wake,
    Act.call 0 (Op.redis Fate.failed), Act.call 1 (Op.redis Fate.ok)]

theorem embedSearchQuery_sound_failedRelease :
    ∃ t, (machine testConfig).run failedRelease (initial 0 emptyStore) = some t ∧
      (∀ i c r, t.calls i = some c → c.phase = Phase.settled r →
        r = none ∨ ∃ vector : List Binary64, vector ≠ [] ∧
          Event.embedded (normalizeKeyword c.query) vector ∈ t.log ∧
          r = some (vector.map Json.num)) := by
  have hsome : ((machine testConfig).run failedRelease (initial 0 emptyStore)).isSome = true := by
    decide +kernel
  obtain ⟨t, ht⟩ := Option.isSome_iff_exists.1 hsome
  exact ⟨t, ht, (embedSearchQuery_sound testConfig 0 emptyStore (fun _ => rfl) _ t ht).1⟩

end EmbedSearchQuery

end TechTrends
