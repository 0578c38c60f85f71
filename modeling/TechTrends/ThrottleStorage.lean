/-
`RedisThrottlerStorage.increment`: the limiter behind a connection that can fail.

Any number of processes count on one Redis. A command can be lost, or carried out without a
reply; either way the request is let through, and the process writes a warning unless it
wrote one less than 30 seconds ago. An answer gives its times in whole seconds, rounded up.

The machine is about the requests that are counted under one key. What happens under other
keys, their failures included, is in the labels.
-/
import TechTrends.StepMachine
import TechTrends.ThrottleDeadlines

set_option autoImplicit false

namespace TechTrends

/-- One request a minute, and a block of a minute after it. -/
def ThrottleConfig.onePerMinute : ThrottleConfig where
  ttlMs := 60000
  limit := 1
  blockDurationMs := 60000
  ttl_pos := by decide
  block_pos := by decide
  ttl_lt := by decide
  block_lt := by decide

namespace RedisThrottlerStorage

open FixedWindow (Answer answers after)

/-! ## Definitions -/

/-- What `increment` returns. -/
structure StorageRecord where
  totalHits : ℤ
  timeToExpire : ℤ
  isBlocked : Bool
  timeToBlockExpire : ℤ
deriving DecidableEq

/-- `Math.ceil(ms / 1000)`. -/
def seconds (ms : ℤ) : ℤ := ⌈(ms : ℚ) / 1000⌉

/-- The record for a request that is let through because Redis failed. -/
def failOpen : StorageRecord := ⟨0, 0, false, 0⟩

/-- How a command fares on its way to Redis and back. -/
inductive Delivery
  | answered
  | lost
  | unanswered
deriving DecidableEq

/-- A request: the process that handles it, what `Date.now()` says there, and when Redis
carries the command out, if it does. -/
structure Call where
  process : ℕ
  clock : ℤ
  now : ℕ
  delivery : Delivery
deriving DecidableEq

def Call.executed (call : Call) : Bool := call.delivery ≠ Delivery.lost

def Call.failed (call : Call) : Bool := call.delivery ≠ Delivery.answered

structure World where
  store : Store
  time : ℕ
  lastRedisFailureLogAt : ℕ → ℤ
  history : List (Call × StorageRecord)
  warnings : List (ℕ × ℤ)

def failureLogIntervalMs : ℤ := 30000

def logRedisFailure (w : World) (process : ℕ) (clock : ℤ) : World :=
  if clock - w.lastRedisFailureLogAt process < failureLogIntervalMs then w
  else
    { w with
      lastRedisFailureLogAt := Function.update w.lastRedisFailureLogAt process clock
      warnings := w.warnings ++ [(process, clock)] }

variable (c : ThrottleConfig) (key : String)

/-- The reply to the command, if one comes, and what the command leaves. -/
def reply (s : Store) (call : Call) : Option ThrottleIncrementResult × Store :=
  match call.delivery with
  | Delivery.answered => c.increment key call.now s
  | Delivery.lost => (none, s)
  | Delivery.unanswered => (none, (c.increment key call.now s).2)

def increment (w : World) (call : Call) : StorageRecord × World :=
  match reply c key w.store call with
  | (some result, store) =>
    ({ totalHits := result.totalHits
       timeToExpire := seconds result.ttlRemainingMs
       isBlocked := result.isBlocked
       timeToBlockExpire := seconds result.blockTtlRemainingMs }, { w with store := store })
  | (none, store) => (failOpen, logRedisFailure { w with store := store } call.process call.clock)

inductive Act
  | request (call : Call)
  | elsewhere (key : String) (entry : Option Entry)
  | failsElsewhere (process : ℕ) (clock : ℤ)

/-- A step; the clock of Redis does not go back. -/
def step (w : World) : Act → Option World
  | Act.request call =>
    if w.time ≤ call.now then
      let result := increment c key w call
      some { result.2 with time := call.now, history := w.history ++ [(call, result.1)] }
    else none
  | Act.elsewhere other entry =>
    if other = key ∨ other = throttleBlockKey key then none
    else some { w with store := Function.update w.store other entry }
  | Act.failsElsewhere process clock => some (logRedisFailure w process clock)

def machine : StepMachine World Act := ⟨step c key⟩

/-- A world before the first request of the key. -/
def start (s : Store) : World where
  store := s
  time := 0
  lastRedisFailureLogAt := fun _ => 0
  history := []
  warnings := []

/-! ## Seconds -/

/-- A time is at most its seconds, and more than one second less: `Math.ceil(ms / 1000)`, as
the record tells it to the client in `Retry-After`. -/
theorem seconds_bounds (ms : ℤ) : ms ≤ 1000 * seconds ms ∧ 1000 * (seconds ms - 1) < ms := by
  have hle := Int.le_ceil ((ms : ℚ) / 1000)
  have hlt := Int.ceil_lt_add_one ((ms : ℚ) / 1000)
  rw [seconds]
  constructor
  · have hq : (ms : ℚ) ≤ ((1000 * ⌈(ms : ℚ) / 1000⌉ : ℤ) : ℚ) := by
      push_cast
      linarith
    exact_mod_cast hq
  · have hq : ((1000 * (⌈(ms : ℚ) / 1000⌉ - 1) : ℤ) : ℚ) < ms := by
      push_cast
      linarith
    exact_mod_cast hq

/-! ## What was answered -/

/-- When Redis carried out the commands of a history. -/
def executed (history : List (Call × StorageRecord)) : List ℕ :=
  (history.filter fun x => x.1.executed).map fun x => x.1.now

/-- The record that goes with an answer of the limiter. -/
def recordOf (a : Answer) : StorageRecord := ⟨a.hits, seconds a.remaining, a.blocked, seconds a.blockRemaining⟩

/-- What a call is told after commands at the instants `ts`. -/
def told (ts : List ℕ) (call : Call) : StorageRecord :=
  if call.failed then failOpen
  else recordOf (FixedWindow.step c.params call.now (after c.params ts ⟨none, none⟩)).1

structure Inv (w : World) : Prop where
  holds : Holds key (after c.params (executed w.history) ⟨none, none⟩) w.store
  sorted : (w.history.map fun x => x.1.now).Pairwise (· ≤ ·)
  time : ∀ x ∈ w.history, x.1.now ≤ w.time
  records : ∀ before call record later, w.history = before ++ (call, record) :: later →
    record = told c (executed before) call

variable {c key}

theorem executed_append (history later : List (Call × StorageRecord)) :
    executed (history ++ later) = executed history ++ executed later := by
  rw [executed, List.filter_append, List.map_append]
  rfl

theorem executed_single (call : Call) (record : StorageRecord) :
    executed [(call, record)] = if call.executed then [call.now] else [] := by
  cases h : call.executed <;> simp [executed, h]

theorem executed_cons (x : Call × StorageRecord) (history : List (Call × StorageRecord)) :
    executed (x :: history) = (if x.1.executed then [x.1.now] else []) ++ executed history := by
  rw [← executed_single x.1 x.2, ← executed_append, List.singleton_append]

/-- What a warning changes: the time of the last one and the log, neither of which the store
depends on. -/
theorem logRedisFailure_frame (w : World) (process : ℕ) (clock : ℤ) :
    (logRedisFailure w process clock).store = w.store ∧ (logRedisFailure w process clock).time = w.time ∧
      (logRedisFailure w process clock).history = w.history := by
  rw [logRedisFailure]
  split <;> exact ⟨rfl, rfl, rfl⟩

/-- A command answers as the limiter does, if it answers, and counts if it is carried out. The
two differ when the reply is lost: then the hit is in the counter while the caller is let
through by the `catch` block. -/
theorem reply_refines {w : FixedWindow.State} {s : Store} (h : Holds key w s) (call : Call) :
    (reply c key s call).1 = (if call.failed then none
      else some (resultOf (FixedWindow.step c.params call.now w).1)) ∧
    Holds key (after c.params (if call.executed then [call.now] else []) w) (reply c key s call).2 := by
  obtain ⟨hanswer, hnext⟩ := increment_refines c h call.now
  cases hdelivery : call.delivery with
  | answered =>
    have hfailed : call.failed = false := by simp [Call.failed, hdelivery]
    have hexecuted : call.executed = true := by simp [Call.executed, hdelivery]
    rw [hfailed, hexecuted, reply, hdelivery]
    exact ⟨hanswer, hnext⟩
  | lost =>
    have hfailed : call.failed = true := by simp [Call.failed, hdelivery]
    have hexecuted : call.executed = false := by simp [Call.executed, hdelivery]
    rw [hfailed, hexecuted, reply, hdelivery]
    exact ⟨rfl, h⟩
  | unanswered =>
    have hfailed : call.failed = true := by simp [Call.failed, hdelivery]
    have hexecuted : call.executed = true := by simp [Call.executed, hdelivery]
    rw [hfailed, hexecuted, reply, hdelivery]
    exact ⟨rfl, hnext⟩

/-- One request, with what it is told and what it leaves. The record depends on the commands
that were carried out before it and on nothing else of the history, failures included. -/
theorem increment_told {ts : List ℕ} {w : World} (h : Holds key (after c.params ts ⟨none, none⟩) w.store)
    (call : Call) : (increment c key w call).1 = told c ts call ∧
      Holds key (after c.params (ts ++ if call.executed then [call.now] else []) ⟨none, none⟩)
        (increment c key w call).2.store := by
  obtain ⟨hreply, hholds⟩ := reply_refines (c := c) h call
  rw [← FixedWindow.after_append] at hholds
  rw [increment, told]
  cases hfailed : call.failed with
  | true =>
    rw [hfailed, if_pos rfl] at hreply
    have hstore := (logRedisFailure_frame { w with store := (reply c key w.store call).2 }
      call.process call.clock).1
    split
    · next heq =>
      rw [heq] at hreply
      cases hreply
    · next heq =>
      rw [heq] at hstore hholds
      exact ⟨rfl, by rw [hstore]; exact hholds⟩
  | false =>
    rw [hfailed, if_neg Bool.false_ne_true] at hreply
    split
    · next heq =>
      rw [heq] at hreply hholds
      obtain rfl := Option.some.inj hreply
      exact ⟨rfl, hholds⟩
    · next heq =>
      rw [heq] at hreply
      cases hreply

theorem inv_start {s : Store} (hs : Unused key s) : Inv c key (start s) where
  holds := hs.holds
  sorted := List.Pairwise.nil
  time _ hx := by cases hx
  records before call record later heq := by
    have hlength := congrArg List.length heq
    simp [start] at hlength

/-- A request keeps the invariant: the store is that of the commands carried out so far, and
each request was told what `told` says of those before it. -/
theorem Inv.request {w : World} (h : Inv c key w) {call : Call} (htime : w.time ≤ call.now) :
    Inv c key { (increment c key w call).2 with
      time := call.now, history := w.history ++ [(call, (increment c key w call).1)] } := by
  obtain ⟨hrecord, hholds⟩ := increment_told h.holds call
  rw [hrecord]
  refine ⟨?_, ?_, ?_, ?_⟩
  · rw [executed_append, executed_single]
    exact hholds
  · rw [List.map_append, List.pairwise_append]
    refine ⟨h.sorted, List.pairwise_singleton _ _, fun t ht u hu => ?_⟩
    obtain ⟨x, hx, rfl⟩ := List.mem_map.1 ht
    rw [List.map_singleton, List.mem_singleton] at hu
    rw [hu]
    exact (h.time x hx).trans htime
  · intro x hx
    rcases List.mem_append.1 hx with hx | hx
    · exact (h.time x hx).trans htime
    · rw [List.mem_singleton.1 hx]
  -- the new record is the last one, and the others stand where they stood
  · intro before call' record later heq
    rcases List.eq_nil_or_concat later with rfl | ⟨later', x, rfl⟩
    · obtain ⟨rfl, hlast⟩ := List.append_inj' heq rfl
      obtain ⟨rfl, rfl⟩ := Prod.mk.inj (List.singleton_inj.1 hlast)
      rfl
    · rw [List.concat_eq_append, ← List.cons_append, ← List.append_assoc] at heq
      exact h.records before call' record later' (List.append_inj' heq rfl).1

/-- The only step that changes the history. A request is not earlier than the one before it;
it is Redis's clock that orders them. -/
theorem step_request {w w' : World} {call : Call} (h : step c key w (Act.request call) = some w') :
    w.time ≤ call.now ∧ w' = { (increment c key w call).2 with
      time := call.now, history := w.history ++ [(call, (increment c key w call).1)] } := by
  have hstep : step c key w (Act.request call) = if w.time ≤ call.now then
      some { (increment c key w call).2 with
        time := call.now, history := w.history ++ [(call, (increment c key w call).1)] }
      else none := rfl
  rw [hstep] at h
  split at h
  · next htime => exact ⟨htime, (Option.some.inj h).symm⟩
  · cases h

/-- **Step.** Every step keeps the invariant. Failures of requests for other keys touch only
the warnings. -/
theorem keeps_inv : (machine c key).Keeps (Inv c key) := by
  intro w a w' h hstep
  cases a with
  | request call =>
    obtain ⟨htime, rfl⟩ := step_request hstep
    exact h.request htime
  | elsewhere other entry =>
    replace hstep : step c key w (Act.elsewhere other entry) = some w' := hstep
    rw [step] at hstep
    split at hstep
    · cases hstep
    · next hother =>
      obtain rfl := Option.some.inj hstep
      rw [not_or] at hother
      refine ⟨⟨?_, ?_, h.holds.hits_pos⟩, h.sorted, h.time, h.records⟩
      · show Function.update w.store other entry key = _
        rw [Function.update_of_ne (Ne.symm hother.1), h.holds.counter]
      · show Function.update w.store other entry (throttleBlockKey key) = _
        rw [Function.update_of_ne (Ne.symm hother.2), h.holds.block]
  | failsElsewhere process clock =>
    obtain rfl := Option.some.inj hstep
    obtain ⟨hstore, htime, hhistory⟩ := logRedisFailure_frame w process clock
    exact ⟨by rw [hstore, hhistory]; exact h.holds, by rw [hhistory]; exact h.sorted,
      by rw [hhistory, htime]; exact h.time, by rw [hhistory]; exact h.records⟩

/-! ## During an outage -/

/-- How many requests at an instant in `[a, b)` are let through. -/
def allowedBetween (a b : ℕ) (history : List (Call × StorageRecord)) : ℕ :=
  history.countP fun x => decide (a ≤ x.1.now) && decide (x.1.now < b) && !x.2.isBlocked

/-- How many commands at an instant in `[a, b)` fail. -/
def failedBetween (a b : ℕ) (history : List (Call × StorageRecord)) : ℕ :=
  history.countP fun x => decide (a ≤ x.1.now) && decide (x.1.now < b) && x.1.failed

theorem failed_of_not_executed {call : Call} (h : call.executed = false) : call.failed = true := by
  cases hdelivery : call.delivery with
  | answered => simp [Call.executed, hdelivery] at h
  | lost => simp [Call.failed, hdelivery]
  | unanswered => simp [Call.failed, hdelivery]

theorem executed_of_not_failed {call : Call} (h : call.failed = false) : call.executed = true := by
  cases hexecuted : call.executed with
  | true => rfl
  | false =>
    rw [failed_of_not_executed hexecuted] at h
    cases h

/-- A request that is let through was admitted by the limiter, or its command failed. A
command that was carried out without a reply is in both counts, which only makes the bound
weaker. -/
theorem allowedBetween_le (a b : ℕ) {history : List (Call × StorageRecord)}
    (h : ∀ before call record later, history = before ++ (call, record) :: later →
      record = told c (executed before) call) :
    allowedBetween a b history ≤ FixedWindow.admittedIn a b (executed history)
      (FixedWindow.answers c.params (executed history) ⟨none, none⟩) + failedBetween a b history := by
  induction history using List.reverseRecOn with
  | nil => exact Nat.zero_le _
  | append_singleton history x ih =>
    obtain ⟨call, record⟩ := x
    have hrecord : record = told c (executed history) call := h history call record [] rfl
    have hprefix := ih fun before call' record' later heq =>
      h before call' record' (later ++ [(call, record)]) (by rw [heq, List.append_assoc, List.cons_append])
    rw [executed_append, executed_single, FixedWindow.answers_append,
      FixedWindow.admittedIn_append a b (FixedWindow.answers_length c.params _ _).symm]
    rw [allowedBetween, failedBetween, List.countP_append, List.countP_append, List.countP_singleton,
      List.countP_singleton]
    rw [allowedBetween, failedBetween] at hprefix
    dsimp only
    cases hfailed : call.failed with
    | true =>
      -- the failure itself makes up for the request
      have hone : (if (decide (a ≤ call.now) && decide (call.now < b) && !record.isBlocked) = true then 1 else 0)
          ≤ if (decide (a ≤ call.now) && decide (call.now < b) && true) = true then 1 else 0 := by
        cases decide (a ≤ call.now) <;> cases decide (call.now < b) <;> cases record.isBlocked <;> decide
      omega
    | false =>
      -- the record is the answer of the limiter to this command
      have hblocked : record.isBlocked = (FixedWindow.step c.params call.now
          (after c.params (executed history) ⟨none, none⟩)).1.blocked := by
        rw [hrecord, told, hfailed]
        rfl
      have hcount : FixedWindow.admittedIn a b [call.now] (answers c.params [call.now]
          (after c.params (executed history) ⟨none, none⟩))
          = if (decide (a ≤ call.now) && decide (call.now < b) && !record.isBlocked) = true then 1 else 0 := by
        rw [hblocked]
        exact List.countP_singleton
      rw [executed_of_not_failed hfailed, if_pos rfl, hcount]
      omega

/-- The failure of a step: the process that sees it, and when. -/
def Act.failure : Act → Option (ℕ × ℤ)
  | Act.request call => if call.failed then some (call.process, call.clock) else none
  | Act.elsewhere _ _ => none
  | Act.failsElsewhere process clock => some (process, clock)

/-- What has been written of the failures so far. -/
structure Logged (failures : List (ℕ × ℤ)) (w : World) : Prop where
  paced : w.warnings.Pairwise fun x y => x.1 = y.1 → x.2 + failureLogIntervalMs ≤ y.2
  latest : ∀ x ∈ w.warnings, x.2 ≤ w.lastRedisFailureLogAt x.1
  written : ∀ process, w.lastRedisFailureLogAt process = 0 ∨
    (process, w.lastRedisFailureLogAt process) ∈ w.warnings
  covered : ∀ x ∈ failures, x.2 < failureLogIntervalMs ∨
    ∃ t, (x.1, t) ∈ w.warnings ∧ x.2 < t + failureLogIntervalMs

/-- One failure more. It writes a warning if the last one of its process is 30 seconds old,
and otherwise that last one is the warning that the failure has. -/
theorem Logged.log {failures : List (ℕ × ℤ)} {w : World} (h : Logged failures w) (process : ℕ) (clock : ℤ) :
    Logged (failures ++ [(process, clock)]) (logRedisFailure w process clock) := by
  rw [logRedisFailure]
  split
  · -- `logRedisFailure` keeps silent: the warning that covers this failure was written
    -- before, or the clock stands before the first interval
    next hrecent =>
    refine ⟨h.paced, h.latest, h.written, fun x hx => ?_⟩
    rcases List.mem_append.1 hx with hx | hx
    · exact h.covered x hx
    · obtain rfl := List.mem_singleton.1 hx
      rcases h.written process with hzero | hmem
      · rw [hzero, sub_zero] at hrecent
        exact Or.inl hrecent
      · exact Or.inr ⟨_, hmem, by dsimp only; omega⟩
  · -- the warning is written now, and the older ones of this process lie an interval back
    next hlong =>
    have hlast : ∀ x ∈ w.warnings, x.1 = process → x.2 + failureLogIntervalMs ≤ clock := by
      intro x hx hprocess
      have hle := h.latest x hx
      rw [hprocess] at hle
      omega
    have hpos : (0 : ℤ) ≤ failureLogIntervalMs := by decide
    refine ⟨?_, fun x hx => ?_, fun p => ?_, fun x hx => ?_⟩
    · rw [List.pairwise_append]
      refine ⟨h.paced, List.pairwise_singleton _ _, fun x hx y hy hxy => ?_⟩
      obtain rfl := List.mem_singleton.1 hy
      exact hlast x hx hxy
    · show x.2 ≤ Function.update w.lastRedisFailureLogAt process clock x.1
      rcases List.mem_append.1 hx with hx | hx
      · by_cases hprocess : x.1 = process
        · rw [hprocess, Function.update_self]
          have hle := hlast x hx hprocess
          omega
        · rw [Function.update_of_ne hprocess]
          exact h.latest x hx
      · obtain rfl := List.mem_singleton.1 hx
        rw [Function.update_self]
    · show Function.update w.lastRedisFailureLogAt process clock p = 0 ∨
        (p, Function.update w.lastRedisFailureLogAt process clock p) ∈ w.warnings ++ [(process, clock)]
      by_cases hprocess : p = process
      · rw [hprocess, Function.update_self]
        exact Or.inr (List.mem_append_right _ (List.mem_singleton_self _))
      · rw [Function.update_of_ne hprocess]
        exact (h.written p).imp_right (List.mem_append_left _)
    · rcases List.mem_append.1 hx with hx | hx
      · exact (h.covered x hx).imp_right fun ⟨t, ht, hlt⟩ => ⟨t, List.mem_append_left _ ht, hlt⟩
      · obtain rfl := List.mem_singleton.1 hx
        refine Or.inr ⟨clock, List.mem_append_right _ (List.mem_singleton_self _), ?_⟩
        show clock < clock + 30000
        omega

/-- Where the warnings of two worlds are the same, so is what has been written. -/
theorem Logged.congr {failures : List (ℕ × ℤ)} {w w' : World} (h : Logged failures w)
    (hwarnings : w'.warnings = w.warnings) (hlast : w'.lastRedisFailureLogAt = w.lastRedisFailureLogAt) :
    Logged failures w' where
  paced := by rw [hwarnings]; exact h.paced
  latest := by rw [hwarnings, hlast]; exact h.latest
  written := by rw [hwarnings, hlast]; exact h.written
  covered := by rw [hwarnings]; exact h.covered

/-- What one request leaves of the warnings. -/
theorem increment_logs {ts : List ℕ} {w : World} (h : Holds key (after c.params ts ⟨none, none⟩) w.store)
    (call : Call) : ∃ store, (increment c key w call).2 = if call.failed then
      logRedisFailure { w with store := store } call.process call.clock else { w with store := store } := by
  have hreply := (reply_refines (c := c) h call).1
  rw [increment]
  cases hfailed : call.failed with
  | true =>
    rw [hfailed, if_pos rfl] at hreply
    split
    · next heq =>
      rw [heq] at hreply
      cases hreply
    · next store heq => exact ⟨store, rfl⟩
  | false =>
    rw [hfailed, if_neg Bool.false_ne_true] at hreply
    split
    · next store heq => exact ⟨store, rfl⟩
    · next heq =>
      rw [heq] at hreply
      cases hreply

/-- Every step keeps what is said of the warnings, with the failures so far as part of the
history. -/
theorem Logged.step {failures : List (ℕ × ℤ)} {w w' : World} {a : Act} (hinv : Inv c key w)
    (h : Logged failures w) (hstep : (machine c key).step w a = some w') :
    Logged (failures ++ a.failure.toList) w' := by
  cases a with
  | request call =>
    obtain ⟨-, rfl⟩ := step_request hstep
    obtain ⟨store, hworld⟩ := increment_logs hinv.holds call
    rw [hworld, Act.failure]
    cases call.failed with
    | true =>
      have hlogged := Logged.log (w := { w with store := store }) (h.congr rfl rfl) call.process call.clock
      exact hlogged.congr rfl rfl
    | false =>
      rw [if_neg Bool.false_ne_true, if_neg Bool.false_ne_true, Option.toList_none, List.append_nil]
      exact h.congr rfl rfl
  | elsewhere other entry =>
    replace hstep : RedisThrottlerStorage.step c key w (Act.elsewhere other entry) = some w' := hstep
    rw [RedisThrottlerStorage.step] at hstep
    split at hstep
    · cases hstep
    · obtain rfl := Option.some.inj hstep
      rw [Act.failure, Option.toList_none, List.append_nil]
      exact h.congr rfl rfl
  | failsElsewhere process clock =>
    obtain rfl := Option.some.inj hstep
    exact h.log process clock

theorem reached {s : Store} (hs : Unused key s) {as : List Act} {w : World}
    (hrun : (machine c key).run as (start s) = some w) : Inv c key w :=
  StepMachine.Keeps.run _ keeps_inv (inv_start hs) hrun

/-- A request whose command failed is let through. -/
theorem Inv.let_through {w : World} (h : Inv c key w) {x : Call × StorageRecord} (hx : x ∈ w.history)
    (hfailed : x.1.failed = true) : x.2 = failOpen := by
  obtain ⟨before, later, heq⟩ := List.append_of_mem hx
  rw [h.records before x.1 x.2 later heq, told, if_pos hfailed]

/-- The commands that were carried out are in the order of their instants, as the limiter's
theorems ask for. -/
theorem Inv.executed_sorted {w : World} (h : Inv c key w) : (executed w.history).Pairwise (· ≤ ·) := by
  rw [executed]
  exact h.sorted.sublist (List.filter_sublist.map _)

theorem executed_of_answered {call : Call} (h : call.delivery = Delivery.answered) : call.executed = true := by
  rw [Call.executed, h]
  rfl

/-- A command that is carried out for an answer, in its place among the others, answers as the
limiter does there. -/
theorem told_answered {ts : List ℕ} {call : Call} (h : call.delivery = Delivery.answered) :
    told c ts call = recordOf (FixedWindow.step c.params call.now (after c.params ts ⟨none, none⟩)).1 := by
  have hfailed : call.failed = false := by simp [Call.failed, h]
  rw [told, hfailed]
  rfl

/-- Only an answer refuses. A failure is let through with the record of zeros, whose
`isBlocked` is false. -/
theorem answered_of_blocked {ts : List ℕ} {call : Call} (h : (told c ts call).isBlocked = true) :
    call.delivery = Delivery.answered := by
  cases hdelivery : call.delivery with
  | answered => rfl
  | lost => simp [told, Call.failed, hdelivery, failOpen] at h
  | unanswered => simp [told, Call.failed, hdelivery, failOpen] at h

end RedisThrottlerStorage

end TechTrends
