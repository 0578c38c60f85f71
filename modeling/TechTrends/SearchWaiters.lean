/-
What a waiter of `waitForCache` finds.

The holder writes the cache and then deletes the lock; a waiter reads the cache
and then the lock. When both writes fall between the two reads of one round, the
waiter sees neither the vector nor the lock, and takes the holder to have failed.
In runs without faults this is the only way to a false exit, and a waiter that
never checks the lock after the holder left gets the cached vector, or uses up
its rounds before there is one.
-/
import TechTrends.SearchStampede

set_option autoImplicit false

namespace TechTrends

namespace EmbedSearchQuery

open AiService (cacheKey lockKey normalizeKeyword cacheKey_ne_lockKey)

variable {cfg : Config} {s t : State} {i : ℕ} {text : String}

/-! ## The warnings of a waiter -/

inductive WaitEvent
  | waiting
  | released
  | timeout
deriving DecidableEq

/-- What an event says about call `i` as a waiter. -/
def Event.waitOf (i : ℕ) : Event → Option WaitEvent
  | Event.lockWaiting j => if j = i then some WaitEvent.waiting else none
  | Event.lockReleased j => if j = i then some WaitEvent.released else none
  | Event.lockTimeout j => if j = i then some WaitEvent.timeout else none
  | _ => none

def waitTrace (i : ℕ) (log : List Event) : List WaitEvent := log.filterMap (Event.waitOf i)

theorem waitTrace_append (log events : List Event) :
    waitTrace i (log ++ events) = waitTrace i log ++ waitTrace i events :=
  List.filterMap_append

/-- The vector that a read of the cache finds. -/
def cachedVector (cfg : Config) (text : String) (s : State) : Option (List Json) :=
  usableVector (RedisService.getCache s.now s.store (cacheKey cfg.embeddingModelName text))

/-- The events of a waiter in a phase, where no command fails. -/
def WaitOf (cached : Option (List Json)) : Phase → List WaitEvent → Prop
  | Phase.sleeping _ _, trace | Phase.polling _, trace | Phase.checking _, trace =>
    trace = [WaitEvent.waiting]
  | Phase.settled none, trace =>
    trace = [] ∨ trace = [WaitEvent.waiting, WaitEvent.released] ∨
      trace = [WaitEvent.waiting, WaitEvent.timeout]
  | Phase.settled (some vector), trace =>
    trace = [] ∨ trace = [WaitEvent.waiting] ∧ cached = some vector
  | _, trace => trace = []

/-- Only the call that takes the step warns in it. -/
theorem Moves.waitTrace_ne {phase : Phase} {op : Op} {change : Change}
    (h : Moves cfg s i text phase op change) {j : ℕ} (hj : j ≠ i) :
    waitTrace j change.events = [] := by
  have hij : i ≠ j := Ne.symm hj
  cases h with
  | stored => rename_i fate; cases fate <;> rfl
  | released => rename_i fate; cases fate <;> rfl
  | busy => simp [waitTrace, Event.waitOf, hij]
  | timedOut => simp [waitTrace, Event.waitOf, hij]
  | lockGone => simp [waitTrace, Event.waitOf, hij]
  | answered => rfl
  | _ => rfl

/-- A step takes the events of a waiter to those of its next phase. What a waiter returns is
what it read, and this stays in the cache. -/
theorem Moves.waitOf {phase : Phase} {op : Op} {change : Change} {trace : List WaitEvent}
    {cached : Option (List Json)} (h : Moves cfg s i text phase op change)
    (hok : ∀ fate, op = Op.redis fate → fate = Fate.ok)
    (hcached : ∀ vector, cachedVector cfg text s = some vector → cached = some vector)
    (ht : WaitOf (cachedVector cfg text s) phase trace) :
    WaitOf cached change.phase (trace ++ waitTrace i change.events) := by
  have hself : ∀ e w, Event.waitOf i e = some w → waitTrace i [e] = [w] := by
    intro e w he
    rw [waitTrace, List.filterMap_cons_some he, List.filterMap_nil]
  cases h with
  | giveUp unlocked failed => exact absurd (hok _ rfl) failed
  | acquireLost => cases hok _ rfl
  | @hit _ vector reads found =>
    have hnil : waitTrace i (s.goto (Phase.settled (some vector))).events = [] := rfl
    rw [hnil, List.append_nil]
    cases phase with
    | reading => exact Or.inl ht
    -- Only the second read is one of a waiter.
    | polling round => exact Or.inr ⟨ht, hcached vector found⟩
    | _ => exact reads.elim
  | busy taken =>
    have hnil : trace = [] := ht
    rw [hnil]
    exact hself _ _ (if_pos rfl)
  | timedOut last held =>
    have hone : trace = [WaitEvent.waiting] := ht
    rw [hone, hself (Event.lockTimeout i) WaitEvent.timeout (if_pos rfl)]
    exact Or.inr (Or.inr rfl)
  | lockGone free =>
    have hone : trace = [WaitEvent.waiting] := ht
    rw [hone, hself (Event.lockReleased i) WaitEvent.released (if_pos rfl)]
    exact Or.inr (Or.inl rfl)
  | readMiss | pollMiss | woke | again | acquired | permit | retried | rethrown | paused =>
    rw [show trace = _ from ht]
    rfl
  | answered =>
    rw [show trace = _ from ht]
    rfl
  | stored =>
    rename_i fate
    rw [show trace = _ from ht]
    cases fate <;> rfl
  | @released lease completion fate =>
    have hnil : trace = [] := ht
    cases hok _ rfl
    rw [hnil]
    cases completion with
    | throws => exact Or.inl rfl
    | returns vector => cases vector <;> exact Or.inl rfl

/-! ## Runs with one holder -/

/-- How often the lock was taken. -/
def acquisitions (log : List Event) : ℕ :=
  log.countP fun e => match e with | Event.acquired _ _ _ => true | _ => false

/-- A call takes the lock only when none has taken it before. -/
def OneHolder (cfg : Config) (s : State) : Act → Prop
  | Act.call i (Op.redis _) => ∀ c, s.calls i = some c → c.phase = Phase.acquiring →
      Redis.keyExists s.now s.store (lockKey cfg.embeddingModelName c.text) = false →
      acquisitions s.log = 0
  | _ => True

/-- The steps of a holder and its waiters, for one text, without faults and without
expiry of the cache entry. -/
def Attended (cfg : Config) (text : String) (s : State) (a : Act) : Prop :=
  FaultFree cfg text s a ∧ Unexpired (cacheKey cfg.embeddingModelName text) s a

/-- Where the lock was never taken, no call has lock events. The lock events of a call begin
with its acquisition. -/
theorem Traced.nil_of_acquisitions (h : Traced cfg s) (hzero : acquisitions s.log = 0) (j : ℕ) :
    lockTrace j s.log = [] := by
  have hnone : ∀ key token, LockEvent.acquired key token ∉ lockTrace j s.log := by
    intro key token hmem
    obtain ⟨e, he, hlock⟩ := List.mem_filterMap.1 hmem
    -- A lock event of call `j` stems from an acquisition in the log.
    have hpos : 0 < acquisitions s.log := by
      refine List.countP_pos_iff.2 ⟨e, he, ?_⟩
      cases e with
      | acquired => rfl
      | releaseLock k key' token' =>
        simp only [Event.lockOf] at hlock
        split_ifs at hlock
        cases hlock
      | _ => cases hlock
    omega
  cases hc : s.calls j with
  | none => exact h.1 j hc
  | some c =>
    have htrace := h.2 j c hc
    obtain ⟨query, phase⟩ := c
    cases phase with
    | locked lease critical =>
      refine absurd ?_ (hnone (lockKey cfg.embeddingModelName (normalizeKeyword query)) lease.token)
      rw [show lockTrace j s.log = _ from htrace]
      exact List.mem_cons_self
    | settled result =>
      rcases htrace with hnil | ⟨token, hboth⟩
      · exact hnil
      · refine absurd ?_ (hnone (lockKey cfg.embeddingModelName (normalizeKeyword query)) token)
        rw [hboth]
        exact List.mem_cons_self
    | _ => exact htrace

theorem acquisitions_append (log events : List Event) :
    acquisitions (log ++ events) = acquisitions log + acquisitions events := List.countP_append

/-- A run in which the lock is taken at most once takes it only when none has taken it before.
It turns a count over the whole run into a condition on each step. -/
theorem oneHolder_of_acquisitions {as : List Act} (hrun : (machine cfg).run as s = some t)
    (hfault : (machine cfg).Meets (FaultFree cfg text) as s) (hone : acquisitions t.log ≤ 1) :
    (machine cfg).Meets (OneHolder cfg) as s := by
  rw [StepMachine.meets_iff]
  rintro pre (_ | ⟨i, fate | _ | _ | _⟩ | _ | _) post m has hpre
  case call.redis =>
    intro c hc hphase hfree
    obtain rfl : fate = Fate.ok := (StepMachine.meets_iff _).1 hfault pre _ post m has hpre
    rw [has] at hrun
    obtain ⟨m', hpre', hrun⟩ := (StepMachine.run_append_eq_some _).1 hrun
    obtain rfl : m = m' := Option.some.inj (hpre.symm.trans hpre')
    obtain ⟨n, hstep, hpost⟩ := ((machine cfg).run_cons_eq_some).1 hrun
    have hgrows : acquisitions n.log = acquisitions m.log + 1 := by
      obtain ⟨key, token, hlog⟩ := log_of_acquire hc hphase hfree hstep
      rw [hlog, acquisitions_append]
      rfl
    obtain ⟨rest, hrest⟩ := log_grows hpost
    rw [← hrest, acquisitions_append] at hone
    omega
  all_goals trivial

/-- The holder is inside the section, and its lease has not run out. -/
def HolderAtWork (s : State) : Prop :=
  ∃ j d lease, s.calls j = some d ∧ d.holds lease ∧ lease.valid s.now

/-- Every call's events as a waiter are those of its phase. -/
def Waits (cfg : Config) (text : String) (s : State) : Prop :=
  (∀ j, s.calls j = none → waitTrace j s.log = []) ∧
  ∀ j c, s.calls j = some c → WaitOf (cachedVector cfg text s) c.phase (waitTrace j s.log)

/-- The lock entry and the cache entry of the text tell what the holder did. -/
structure Faithful (cfg : Config) (text : String) (s : State) : Prop where
  texts : SameText text s
  traced : Traced cfg s
  /-- A live lock entry is that of a call inside the section. -/
  held : ∀ e, Redis.lookup s.now s.store (lockKey cfg.embeddingModelName text) = some e →
    ∃ j d lease, s.calls j = some d ∧ d.holds lease ∧ e = lease.entry
  /-- A call inside the section made the lock entry. -/
  kept : ∀ j d lease, s.calls j = some d → d.holds lease →
    lease.token = cfg.randomUUID j ∧
      s.store (lockKey cfg.embeddingModelName text) = some lease.entry
  /-- Once the cache is filled, whoever is inside the section is about to leave. -/
  filled : s.store (cacheKey cfg.embeddingModelName text) ≠ none →
    (∃ j, lockTrace j s.log ≠ []) ∧
      ∀ j d lease critical, s.calls j = some d → d.phase = Phase.locked lease critical →
        ∃ completion, critical = Critical.releasing completion
  waits : Waits cfg text s

/-- The lock entry is live exactly when the holder is at work: it is inside the section, and
its lease has not run out. -/
theorem Faithful.keyExists_iff (h : Faithful cfg text s) :
    Redis.keyExists s.now s.store (lockKey cfg.embeddingModelName text) = true ↔
      HolderAtWork s := by
  constructor
  · intro hex
    obtain ⟨e, he⟩ := Option.isSome_iff_exists.1 hex
    obtain ⟨j, d, lease, hd, hl, rfl⟩ := h.held e he
    exact ⟨j, d, lease, hd, hl, Lease.live_entry.1 (Option.filter_eq_some_iff.1 he).2⟩
  · rintro ⟨j, d, lease, hd, hl, hvalid⟩
    rw [Redis.keyExists, Redis.lookup, (h.kept j d lease hd hl).2, Option.filter_some,
      if_pos (Lease.live_entry.2 hvalid)]
    rfl

/-- Only one call is inside the section. -/
theorem Faithful.unique (h : Faithful cfg text s) {j k : ℕ} {d e : Call} {lease lease' : Lease}
    (hd : s.calls j = some d) (hl : d.holds lease) (he : s.calls k = some e)
    (hl' : e.holds lease') : j = k := by
  have hj := h.kept j d lease hd hl
  have hk := h.kept k e lease' he hl'
  have hentry : some lease.entry = some lease'.entry := by rw [← hj.2, hk.2]
  -- Both wrote the one entry, and no two calls draw the same token.
  have htoken : lease.token = lease'.token := congrArg Entry.value (Option.some.inj hentry)
  rw [hj.1, hk.1] at htoken
  exact cfg.randomUUID_injective htoken

theorem cachedVector_ne_none {vector : List Json} (h : cachedVector cfg text s = some vector) :
    s.store (cacheKey cfg.embeddingModelName text) ≠ none := by
  intro hnone
  have hget : Redis.get s.now s.store (cacheKey cfg.embeddingModelName text) = none := by
    rw [Redis.get, Redis.lookup, hnone]
    rfl
  rw [cachedVector, RedisService.getCache_of_none hget] at h
  cases h

/-- What is read depends on the entry that has not expired, and on nothing else of the store. -/
theorem cachedVector_congr {u : State}
    (h : Redis.lookup u.now u.store (cacheKey cfg.embeddingModelName text) =
      Redis.lookup s.now s.store (cacheKey cfg.embeddingModelName text)) :
    cachedVector cfg text u = cachedVector cfg text s := by
  unfold cachedVector RedisService.getCache Redis.get
  rw [h]

/-! ## The step -/

/-- A waiter that has returned a vector has returned it still when there is one more in the
cache. -/
theorem WaitOf.mono {cached cached' : Option (List Json)} {phase : Phase}
    {trace : List WaitEvent} (h : WaitOf cached phase trace)
    (hc : ∀ vector, cached = some vector → cached' = some vector) :
    WaitOf cached' phase trace := by
  cases phase with
  | settled result =>
    cases result with
    | none => exact h
    | some vector =>
      rcases h with hnil | ⟨hone, hv⟩
      · exact Or.inl hnil
      · exact Or.inr ⟨hone, hc vector hv⟩
  | _ => exact h

/-- A vector that the cache holds stays there: only a call that is not yet about to leave
would replace it, and there is no second holder that could. -/
theorem Faithful.cachedVector_apply (h : Faithful cfg text s) {query : String} {phase : Phase}
    {op : Op} {change : Change} (hi : s.calls i = some ⟨query, phase⟩)
    (hm : Moves cfg s i text phase op change) {vector : List Json}
    (hv : cachedVector cfg text s = some vector) :
    cachedVector cfg text (s.apply i query change) = some vector := by
  rcases hm.store_cacheKey text with hsame | ⟨-, lease, v, d, hphase, -⟩
  · rw [← hv]
    apply cachedVector_congr
    have hkey : (s.apply i query change).store (cacheKey cfg.embeddingModelName text) =
        s.store (cacheKey cfg.embeddingModelName text) := hsame
    rw [Redis.lookup, hkey]
    rfl
  · -- The call would store a second vector over the first.
    obtain ⟨completion, hcrit⟩ := (h.filled (cachedVector_ne_none hv)).2 i _ lease _ hi hphase
    cases hcrit

/-- The waiters after a step of call `i`, when the cached vector stays. -/
theorem Waits.apply (h : Waits cfg text s) {query : String} {change : Change}
    (hc : ∀ vector, cachedVector cfg text s = some vector →
      cachedVector cfg text (s.apply i query change) = some vector)
    (hother : ∀ j, j ≠ i → waitTrace j change.events = [])
    (hself : WaitOf (cachedVector cfg text (s.apply i query change)) change.phase
      (waitTrace i s.log ++ waitTrace i change.events)) :
    Waits cfg text (s.apply i query change) := by
  constructor
  · intro j hj
    obtain ⟨hji, hj⟩ := apply_calls_none hj
    simp only [State.apply, waitTrace_append, h.1 j hj, hother j hji, List.append_nil]
  · intro j d hd
    rcases apply_calls_some hd with ⟨rfl, rfl⟩ | ⟨hji, hd⟩
    · simp only [State.apply, waitTrace_append]
      exact hself
    · simp only [State.apply, waitTrace_append, hother j hji, List.append_nil]
      exact (h.2 j d hd).mono hc

/-- A call that stays outside the section and changes nothing shared. -/
theorem Faithful.apply_outside (h : Faithful cfg text s) {query : String} {change : Change}
    (htexts : SameText text (s.apply i query change)) (htraced : Traced cfg (s.apply i query change))
    (hbefore : ∀ c, s.calls i = some c → c.phase.outside) (hafter : change.phase.outside)
    (hstore : change.store = s.store)
    (hwaits : Waits cfg text (s.apply i query change)) :
    Faithful cfg text (s.apply i query change) := by
  have hsame : (s.apply i query change).store = s.store := hstore
  have hinside : ∀ {j d lease critical}, (s.apply i query change).calls j = some d →
      d.phase = Phase.locked lease critical → j ≠ i ∧ s.calls j = some d := by
    intro j d lease critical hd hp
    rcases apply_calls_some hd with ⟨rfl, rfl⟩ | ⟨hj, hd⟩
    · exact absurd hp (hafter _ _)
    · exact ⟨hj, hd⟩
  refine ⟨htexts, htraced, ?_, ?_, ?_, hwaits⟩
  · intro e he
    rw [hsame] at he
    obtain ⟨j, d, lease, hd, ⟨critical, hl⟩, rfl⟩ := h.held e he
    -- The holder is not the call that moves.
    have hj : j ≠ i := by
      rintro rfl
      exact hbefore d hd _ _ hl
    exact ⟨j, d, lease, (apply_calls_ne _ _ hj).trans hd, ⟨critical, hl⟩, rfl⟩
  · rintro j d lease hd ⟨critical, hl⟩
    rw [hsame]
    exact h.kept j d lease (hinside hd hl).2 ⟨critical, hl⟩
  · intro hne
    rw [hsame] at hne
    obtain ⟨⟨j, hj⟩, hleaving⟩ := h.filled hne
    refine ⟨⟨j, ?_⟩, ?_⟩
    · exact lockTrace_append_ne.2 (Or.inl hj)
    · intro k d lease critical hd hp
      exact hleaving k d lease critical (hinside hd hp).2 hp

/-- The first call takes the lock. Before it nobody was inside the section, and the cache had
nothing. -/
theorem Faithful.apply_acquired (h : Faithful cfg text s) {query : String} {change : Change}
    (htexts : SameText text (s.apply i query change)) (htraced : Traced cfg (s.apply i query change))
    (hfirst : ∀ j, lockTrace j s.log = [])
    (hphase : change.phase = Phase.locked ⟨cfg.randomUUID i, s.now⟩ Critical.queued)
    (hstore : change.store = Redis.set s.store (lockKey cfg.embeddingModelName text)
      (cfg.randomUUID i) (some (s.now + lockTtlMs)))
    (hwaits : Waits cfg text (s.apply i query change)) :
    Faithful cfg text (s.apply i query change) := by
  have hlock : (s.apply i query change).store (lockKey cfg.embeddingModelName text) =
      some (Lease.entry ⟨cfg.randomUUID i, s.now⟩) := by
    simp only [State.apply, hstore, Redis.set, Function.update_self]
    rfl
  have hcache : (s.apply i query change).store (cacheKey cfg.embeddingModelName text) =
      s.store (cacheKey cfg.embeddingModelName text) := by
    simp only [State.apply, hstore, Redis.set,
      Function.update_of_ne (cacheKey_ne_lockKey cfg.embeddingModelName text text)]
  -- nobody else is inside the section
  have honly : ∀ {j d lease}, (s.apply i query change).calls j = some d → d.holds lease → j = i := by
    rintro j d lease hd ⟨critical, hl⟩
    by_contra hj
    rw [apply_calls_ne _ _ hj] at hd
    have htrace := h.traced.2 j d hd
    rw [hl, hfirst j] at htrace
    cases htrace
  have hself := apply_calls_self (s := s) (i := i) query change
  refine ⟨htexts, htraced, ?_, ?_, ?_, hwaits⟩
  · intro e he
    refine ⟨i, _, ⟨cfg.randomUUID i, s.now⟩, hself, ⟨_, hphase⟩, ?_⟩
    have hentry := (Option.filter_eq_some_iff.1 he).1
    rw [hlock] at hentry
    exact (Option.some.inj hentry).symm
  · intro j d lease hd hl
    obtain rfl := honly hd hl
    rw [hself] at hd
    cases hd
    obtain ⟨critical, hl⟩ := hl
    obtain ⟨rfl, -⟩ : (⟨cfg.randomUUID j, s.now⟩ : Lease) = lease ∧ Critical.queued = critical := by
      simpa [hphase] using hl
    exact ⟨rfl, hlock⟩
  · intro hne
    rw [hcache] at hne
    obtain ⟨⟨j, hj⟩, -⟩ := h.filled hne
    exact absurd (hfirst j) hj

/-- Only the call that was inside the section can be inside after its step. -/
theorem Faithful.only_inside (h : Faithful cfg text s) {query : String} {change : Change}
    {lease : Lease} {critical : Critical}
    (hi : s.calls i = some ⟨query, Phase.locked lease critical⟩) {j : ℕ} {d : Call} {lease' : Lease}
    {critical' : Critical} (hd : (s.apply i query change).calls j = some d)
    (hl : d.phase = Phase.locked lease' critical') :
    j = i ∧ change.phase = Phase.locked lease' critical' := by
  by_cases hj : j = i
  · rw [hj, apply_calls_self] at hd
    cases hd
    exact ⟨hj, hl⟩
  · rw [apply_calls_ne _ _ hj] at hd
    exact absurd (h.unique hd ⟨_, hl⟩ hi ⟨_, rfl⟩) hj

/-- A call inside the section has taken the lock. -/
theorem Faithful.held_inside (h : Faithful cfg text s) {query : String} {change : Change}
    {lease : Lease} {critical : Critical}
    (hi : s.calls i = some ⟨query, Phase.locked lease critical⟩) :
    ∃ j, lockTrace j (s.apply i query change).log ≠ [] := by
  have htrace := h.traced.2 i _ hi
  refine ⟨i, lockTrace_append_ne.2 (Or.inl ?_)⟩
  intro hnil
  rw [hnil] at htrace
  cases htrace

/-- The call inside the section stays there with the lock entry in place, and fills the cache
at most once, which is on its way from storing to releasing. -/
theorem Faithful.apply_stays (h : Faithful cfg text s) {query : String} {change : Change}
    {lease : Lease} {critical critical' : Critical}
    (hi : s.calls i = some ⟨query, Phase.locked lease critical⟩)
    (htexts : SameText text (s.apply i query change)) (htraced : Traced cfg (s.apply i query change))
    (hphase : change.phase = Phase.locked lease critical')
    (hlock : change.store (lockKey cfg.embeddingModelName text) =
      s.store (lockKey cfg.embeddingModelName text))
    (hcache : change.store (cacheKey cfg.embeddingModelName text) =
        s.store (cacheKey cfg.embeddingModelName text) ∧
        (∀ completion, critical ≠ Critical.releasing completion) ∨
      ∃ completion, critical' = Critical.releasing completion)
    (hwaits : Waits cfg text (s.apply i query change)) :
    Faithful cfg text (s.apply i query change) := by
  have hself := apply_calls_self (s := s) (i := i) query change
  have hlock' : (s.apply i query change).store (lockKey cfg.embeddingModelName text) =
      some lease.entry := hlock.trans (h.kept i _ lease hi ⟨_, rfl⟩).2
  have hstays : ∀ {lease' critical''}, change.phase = Phase.locked lease' critical'' →
      lease = lease' ∧ critical' = critical'' := by
    intro lease' critical'' hl
    rw [hphase] at hl
    cases hl
    exact ⟨rfl, rfl⟩
  refine ⟨htexts, htraced, ?_, ?_, ?_, hwaits⟩
  · intro e he
    refine ⟨i, _, lease, hself, ⟨_, hphase⟩, ?_⟩
    have hentry := (Option.filter_eq_some_iff.1 he).1
    rw [hlock'] at hentry
    exact (Option.some.inj hentry).symm
  · rintro j d lease' hd ⟨critical'', hl⟩
    obtain ⟨rfl, hl⟩ := h.only_inside hi hd hl
    obtain ⟨rfl, -⟩ := hstays hl
    exact ⟨(h.kept j _ lease hi ⟨_, rfl⟩).1, hlock'⟩
  · intro hne
    refine ⟨h.held_inside hi, ?_⟩
    intro j d lease' critical'' hd hl
    obtain ⟨-, rfl⟩ := hstays (h.only_inside hi hd hl).2
    rcases hcache with ⟨hsame, hnot⟩ | hrel
    · -- the cache was filled already, so the call was about to leave
      have hne' : s.store (cacheKey cfg.embeddingModelName text) ≠ none := by
        rw [← hsame]
        exact hne
      obtain ⟨completion, hcrit⟩ := (h.filled hne').2 i _ lease critical hi rfl
      exact absurd hcrit (hnot completion)
    · exact hrel

/-- The call inside the section leaves, and its lock entry is gone or has expired. -/
theorem Faithful.apply_leaves (h : Faithful cfg text s) {query : String} {change : Change}
    {lease : Lease} {critical : Critical}
    (hi : s.calls i = some ⟨query, Phase.locked lease critical⟩)
    (htexts : SameText text (s.apply i query change)) (htraced : Traced cfg (s.apply i query change))
    (hout : change.phase.outside)
    (hgone : Redis.lookup s.now change.store (lockKey cfg.embeddingModelName text) = none)
    (hwaits : Waits cfg text (s.apply i query change)) :
    Faithful cfg text (s.apply i query change) := by
  refine ⟨htexts, htraced, ?_, ?_, ?_, hwaits⟩
  · intro e he
    have hnone : Redis.lookup (s.apply i query change).now (s.apply i query change).store
        (lockKey cfg.embeddingModelName text) = none := hgone
    rw [hnone] at he
    cases he
  · rintro j d lease' hd ⟨critical'', hl⟩
    exact absurd (h.only_inside hi hd hl).2 (hout _ _)
  · intro _
    exact ⟨h.held_inside hi, fun j d lease' critical'' hd hl =>
      absurd (h.only_inside hi hd hl).2 (hout _ _)⟩

/-- A step of the call inside the section, from what it does to the two entries: the call
stays inside with the lock entry in place, and fills the cache at most once, or it leaves and
no live lock entry is left. The write of the vector comes before the release of the lock, and
these are two steps: a waiter can look in between. -/
theorem Faithful.apply_inside (h : Faithful cfg text s) {query : String} {change : Change}
    {lease : Lease} {critical : Critical}
    (hi : s.calls i = some ⟨query, Phase.locked lease critical⟩)
    (htexts : SameText text (s.apply i query change)) (htraced : Traced cfg (s.apply i query change))
    (hstep : (∃ critical', change.phase = Phase.locked lease critical' ∧
        change.store (lockKey cfg.embeddingModelName text) =
          s.store (lockKey cfg.embeddingModelName text) ∧
        (change.store (cacheKey cfg.embeddingModelName text) =
            s.store (cacheKey cfg.embeddingModelName text) ∧
            (∀ completion, critical ≠ Critical.releasing completion) ∨
          ∃ completion, critical' = Critical.releasing completion)) ∨
      change.phase.outside ∧
        Redis.lookup s.now change.store (lockKey cfg.embeddingModelName text) = none)
    (hwaits : Waits cfg text (s.apply i query change)) :
    Faithful cfg text (s.apply i query change) := by
  rcases hstep with ⟨critical', hphase, hlock, hcache⟩ | ⟨hout, hgone⟩
  · exact h.apply_stays hi htexts htraced hphase hlock hcache hwaits
  · exact h.apply_leaves hi htexts htraced hout hgone hwaits

/-- What a fault-free step from inside the section does to the two entries. The five phases
inside are queueing, calling, pausing, storing and releasing. -/
theorem Moves.from_inside {lease : Lease} {critical : Critical} {op : Op} {change : Change}
    (h : Moves cfg s i text (Phase.locked lease critical) op change)
    (hok : ∀ fate, op = Op.redis fate → fate = Fate.ok)
    (hheld : ∀ e, Redis.lookup s.now s.store (lockKey cfg.embeddingModelName text) = some e →
      e = lease.entry) :
    (∃ critical', change.phase = Phase.locked lease critical' ∧
        change.store (lockKey cfg.embeddingModelName text) =
          s.store (lockKey cfg.embeddingModelName text) ∧
        (change.store (cacheKey cfg.embeddingModelName text) =
            s.store (cacheKey cfg.embeddingModelName text) ∧
            (∀ completion, critical ≠ Critical.releasing completion) ∨
          ∃ completion, critical' = Critical.releasing completion)) ∨
      change.phase.outside ∧
        Redis.lookup s.now change.store (lockKey cfg.embeddingModelName text) = none := by
  have hne := (cacheKey_ne_lockKey cfg.embeddingModelName text text).symm
  cases h with
  | giveUp unlocked failed => exact unlocked.elim
  | hit reads => exact reads.elim
  | permit room => exact Or.inl ⟨_, rfl, rfl, Or.inl ⟨rfl, by simp⟩⟩
  | retried due => exact Or.inl ⟨_, rfl, rfl, Or.inl ⟨rfl, by simp⟩⟩
  | answered => exact Or.inl ⟨_, rfl, rfl, Or.inl ⟨rfl, by simp⟩⟩
  | rethrown bad => exact Or.inl ⟨_, rfl, rfl, Or.inl ⟨rfl, by simp⟩⟩
  | paused bad more => exact Or.inl ⟨_, rfl, rfl, Or.inl ⟨rfl, by simp⟩⟩
  -- The one write to the cache is followed by the release.
  | @stored _ vector fate =>
    cases hok _ rfl
    have hset := RedisService.setCache_ne s.now s.store (vectorJson vector)
      cfg.embeddingTtlSeconds hne
    exact Or.inl ⟨_, rfl, hset, Or.inr ⟨_, rfl⟩⟩
  | @released _ completion fate =>
    cases hok _ rfl
    refine Or.inr ⟨by simp [Phase.outside, releaseLock], ?_⟩
    simp only [releaseLock, RedisService.releaseLock]
    by_cases hown : Redis.get s.now s.store (lockKey cfg.embeddingModelName text) = some lease.token
    · rw [if_pos hown]
      exact Redis.lookup_del_self _ _ _
    · -- The lease ran out, so there was nothing of the call to delete.
      rw [if_neg hown]
      cases hl : Redis.lookup s.now s.store (lockKey cfg.embeddingModelName text) with
      | none => rfl
      | some e =>
        obtain rfl := hheld e hl
        exact absurd (by rw [Redis.get, hl]; rfl) hown

/-- A new call. -/
theorem Faithful.begins (h : Faithful cfg text s) {query : String} (hc : s.calls i = none)
    (htexts : SameText text (s.apply i query (begins s query)))
    (htraced : Traced cfg (s.apply i query (begins s query))) :
    Faithful cfg text (s.apply i query (EmbedSearchQuery.begins s query)) := by
  have hb := begins_outside (s := s) query
  have hev := begins_events (s := s) query
  refine h.apply_outside htexts htraced ?_ hb.1 hb.2 ?_
  · intro c hc'
    rw [hc] at hc'
    cases hc'
  · have hsame : cachedVector cfg text (s.apply i query (EmbedSearchQuery.begins s query)) =
        cachedVector cfg text s := by
      apply cachedVector_congr
      rw [State.apply, hb.2]
    refine h.waits.apply (fun v hv => hsame.trans hv) (fun j _ => by rw [hev]; rfl) ?_
    rw [hev, h.waits.1 i hc]
    unfold EmbedSearchQuery.begins
    split
    · exact Or.inl rfl
    · rfl

/-- A step of a call: outside the section, into it, or inside. The middle one is possible once
in the run. -/
theorem Faithful.call (h : Faithful cfg text s) {query : String} {phase : Phase} {op : Op}
    {change : Change} (hc : s.calls i = some ⟨query, phase⟩)
    (hm : Moves cfg s i text phase op change) (hfate : ∀ fate, op = Op.redis fate → fate = Fate.ok)
    (hholder : OneHolder cfg s (Act.call i op)) (htexts : SameText text (s.apply i query change))
    (htraced : Traced cfg (s.apply i query change)) : Faithful cfg text (s.apply i query change) := by
  have htext : (Call.mk query phase).text = text := h.texts i _ hc
  have hkeeps : ∀ vector, cachedVector cfg text s = some vector →
      cachedVector cfg text (s.apply i query change) = some vector :=
    fun _ hv => h.cachedVector_apply hc hm hv
  have hwaits : Waits cfg text (s.apply i query change) :=
    h.waits.apply hkeeps (fun j hj => hm.waitTrace_ne hj)
      (hm.waitOf hfate hkeeps (h.waits.2 i _ hc))
  by_cases hout : phase.outside
  · obtain ⟨-, ⟨hstore, hafter⟩ | ⟨rfl, hfree, hnew, hstore⟩⟩ := hm.from_outside hout hfate
    · refine h.apply_outside htexts htraced ?_ hafter hstore hwaits
      intro c' hc'
      rw [hc] at hc'
      cases hc'
      exact hout
    · have hop : ∃ fate, op = Op.redis fate := by
        cases hm <;> exact ⟨_, rfl⟩
      obtain ⟨fate, rfl⟩ := hop
      -- It is the first to take the lock.
      have hfirst := h.traced.nil_of_acquisitions (hholder _ hc rfl (by rw [htext]; exact hfree))
      exact h.apply_acquired htexts htraced hfirst hnew hstore hwaits
  · unfold Phase.outside at hout
    push Not at hout
    obtain ⟨lease, critical, rfl⟩ := hout
    -- A live lock entry is that of the call itself, the only one inside.
    refine h.apply_inside hc htexts htraced (hm.from_inside hfate ?_) hwaits
    intro e he
    obtain ⟨j, d, lease', hd, ⟨critical', hl⟩, rfl⟩ := h.held e he
    obtain rfl := h.unique hd ⟨_, hl⟩ hc ⟨_, rfl⟩
    rw [hc] at hd
    cases hd
    cases hl
    rfl

/-- Other parties do not touch the two keys. -/
theorem Faithful.outside (h : Faithful cfg text s) {key : String} {entry : Option Entry}
    (hcache : key ≠ cacheKey cfg.embeddingModelName text)
    (hlock : key ≠ lockKey cfg.embeddingModelName text) :
    Faithful cfg text { s with store := Function.update s.store key entry } := by
  have hvector : cachedVector cfg text { s with store := Function.update s.store key entry } =
      cachedVector cfg text s := by
    apply cachedVector_congr
    simp only [Redis.lookup, Function.update_of_ne hcache.symm]
  refine ⟨h.texts, h.traced, ?_, ?_, ?_, h.waits.1, ?_⟩
  · intro e he
    simp only [Redis.lookup, Function.update_of_ne hlock.symm] at he
    exact h.held e he
  · intro j d lease hd hl
    simp only [Function.update_of_ne hlock.symm]
    exact h.kept j d lease hd hl
  · intro hne
    simp only [Function.update_of_ne hcache.symm] at hne
    exact h.filled hne
  · intro j c hc
    rw [hvector]
    exact h.waits.2 j c hc

/-- Time passes: the lock entry may expire, and the cache entry does not. When it does the
holder is no longer at work, although it goes on. -/
theorem Faithful.tick (h : Faithful cfg text s) {ms : ℕ}
    (hvector : cachedVector cfg text { s with now := s.now + ms } = cachedVector cfg text s) :
    Faithful cfg text { s with now := s.now + ms } := by
  refine ⟨h.texts, h.traced, ?_, h.kept, h.filled, h.waits.1, ?_⟩
  · intro e he
    -- an entry that is live later is live now
    have hmem := Option.filter_eq_some_iff.1 he
    refine h.held e (Option.filter_eq_some_iff.2 ⟨hmem.1, ?_⟩)
    have hlive := hmem.2
    unfold Entry.live at hlive ⊢
    split
    · rfl
    · next d hd =>
      rw [hd] at hlive
      simp only [decide_eq_true_eq] at hlive ⊢
      omega
  · intro j c hc
    rw [hvector]
    exact h.waits.2 j c hc

/-- **Step.** Every attended step that does not take the lock a second time keeps what is said
of holder, cache and waiters. -/
theorem faithful_step :
    (machine cfg).KeepsIf (fun s a => Attended cfg text s a ∧ OneHolder cfg s a)
      (Faithful cfg text) := by
  rintro s a t h ⟨⟨hok, hlive⟩, hholder⟩ hstep
  have htexts := sameText_step s a t h.texts hok hstep
  have htraced := traced_step s a t h.traced hstep
  rcases step_cases hstep with ⟨i, query, rfl, hc, rfl⟩ | ⟨i, op, c, change, rfl, hc, hm, rfl⟩ |
    ⟨key, entry, rfl, hkey, rfl⟩ | ⟨ms, rfl, rfl⟩
  · exact h.begins hc htexts htraced
  · obtain ⟨query, phase⟩ := c
    have htext : (Call.mk query phase).text = text := h.texts i _ hc
    have hm' : Moves cfg s i text phase op change := htext ▸ hm
    refine h.call hc hm' ?_ hholder htexts htraced
    rintro fate rfl
    exact hok
  · exact h.outside hok.1 hok.2
  · exact h.tick (cachedVector_congr (lookup_tick hlive))

/-! ## How a waiter leaves without the vector -/

/-- A warning of a waiter says how its last check went: `released` when the lock was gone,
`timeout` when it was there and the rounds are used up. -/
theorem Moves.exit_mem {phase : Phase} {op : Op} {change : Change}
    (h : Moves cfg s i text phase op change) {j : ℕ} {w : WaitEvent}
    (hmem : w ∈ waitTrace j change.events) (hw : w ≠ WaitEvent.waiting) :
    j = i ∧ ∃ fate round, op = Op.redis fate ∧ phase = Phase.checking round ∧
      ((w = WaitEvent.released ∧
          Redis.keyExists s.now s.store (lockKey cfg.embeddingModelName text) = false) ∨
        (w = WaitEvent.timeout ∧ ¬ round + 1 < waitRetries)) := by
  have hj : j = i := by
    by_contra hj
    rw [h.waitTrace_ne hj] at hmem
    cases hmem
  -- The warnings are given where a check finds no lock or runs out of rounds.
  subst hj
  refine ⟨rfl, ?_⟩
  cases h with
  | @lockGone round free =>
    refine ⟨_, round, rfl, rfl, Or.inl ⟨?_, free⟩⟩
    simpa [waitTrace, Event.waitOf] using hmem
  | @timedOut round last held =>
    refine ⟨_, round, rfl, rfl, Or.inr ⟨?_, last⟩⟩
    simpa [waitTrace, Event.waitOf] using hmem
  | busy taken =>
    have hwait : w = WaitEvent.waiting := by simpa [waitTrace, Event.waitOf] using hmem
    exact absurd hwait hw
  | stored => rename_i fate; cases fate <;> cases hmem
  | released => rename_i fate; cases fate <;> cases hmem
  | answered => cases hmem
  | _ => cases hmem

/-- A check without the lock, or in the last round, ends the waiting. The cache is not read
again after the check, although the vector may have come in the meantime. -/
theorem exits_of_check {c : Call} {round : ℕ} (hc : s.calls i = some c)
    (hphase : c.phase = Phase.checking round)
    (h : step cfg s (Act.call i (Op.redis Fate.ok)) = some t)
    (hexit : Redis.keyExists s.now s.store (lockKey cfg.embeddingModelName c.text) = false ∨
      ¬ round + 1 < waitRetries) :
    ∃ w, w ≠ WaitEvent.waiting ∧ w ∈ waitTrace i t.log ∧
      (Redis.keyExists s.now s.store (lockKey cfg.embeddingModelName c.text) = false →
        w = WaitEvent.released) := by
  obtain ⟨change, hm, rfl⟩ := step_call hc h
  rw [hphase] at hm
  simp only [State.apply, waitTrace_append, List.mem_append]
  cases hm with
  | giveUp unlocked failed => exact absurd rfl failed
  | hit reads => exact reads.elim
  | again more held =>
    -- The lock is held and there are rounds left, against `hexit`.
    rcases hexit with hfree | hlast
    · rw [held] at hfree
      cases hfree
    · exact absurd more hlast
  | timedOut last held =>
    refine ⟨WaitEvent.timeout, by simp, Or.inr (by simp [waitTrace, Event.waitOf]), ?_⟩
    intro hfree
    rw [held] at hfree
    cases hfree
  | lockGone free =>
    exact ⟨WaitEvent.released, by simp, Or.inr (by simp [waitTrace, Event.waitOf]), fun _ => rfl⟩

/-- A call that warned ended with `null`. It returns at once after the warning. -/
theorem Waits.of_exit (h : Waits cfg text s) {j : ℕ} {w : WaitEvent}
    (hmem : w ∈ waitTrace j s.log) (hw : w ≠ WaitEvent.waiting) :
    ∃ c, s.calls j = some c ∧ c.phase = Phase.settled none ∧
      WaitEvent.waiting ∈ waitTrace j s.log := by
  have hone : ∀ {trace : List WaitEvent}, trace = [] ∨ trace = [WaitEvent.waiting] →
      w ∉ trace := by
    rintro trace (rfl | rfl) hin
    · cases hin
    · exact hw (List.mem_singleton.1 hin)
  cases hc : s.calls j with
  | none => exact absurd hmem (hone (Or.inl (h.1 j hc)))
  | some c =>
    have hwait := h.2 j c hc
    obtain ⟨query, phase⟩ := c
    cases phase with
    | settled result =>
      cases result with
      | none =>
        refine ⟨_, rfl, rfl, ?_⟩
        rcases hwait with hnil | hrel | htime
        · exact absurd hmem (hone (Or.inl hnil))
        · rw [hrel]
          exact List.mem_cons_self
        · rw [htime]
          exact List.mem_cons_self
      | some vector =>
        rcases hwait with hnil | ⟨hwaiting, -⟩
        · exact absurd hmem (hone (Or.inl hnil))
        · exact absurd hmem (hone (Or.inr hwaiting))
    | sleeping | polling | checking => exact absurd hmem (hone (Or.inr hwait))
    | _ => exact absurd hmem (hone (Or.inl hwait))

/-! ## When no waiter leaves too early -/

/-- Every check of the lock is made while the holder is at work: it has not
released the lock, and its lease has not run out. -/
def ChecksInTime (s : State) : Act → Prop
  | Act.call i (Op.redis _) => ∀ c round, s.calls i = some c → c.phase = Phase.checking round →
      HolderAtWork s
  | _ => True

/-- Every check of the lock is made while the holder is at work, and is not that
of the last round. -/
def ChecksWithRoundsLeft (s : State) : Act → Prop
  | Act.call i (Op.redis _) => ∀ c round, s.calls i = some c → c.phase = Phase.checking round →
      HolderAtWork s ∧ round + 1 < waitRetries
  | _ => True

/-- No waiter leaves because it takes the holder to have failed: one that ended
returned the cached vector, or used up its rounds. -/
def NoFalseExit (cfg : Config) (text : String) (t : State) : Prop :=
  ∀ j c r, t.calls j = some c → c.phase = Phase.settled r →
    WaitEvent.waiting ∈ waitTrace j t.log →
      WaitEvent.released ∉ waitTrace j t.log ∧
        (WaitEvent.timeout ∈ waitTrace j t.log ∨
          ∃ vector, r = some vector ∧ cachedVector cfg text t = some vector)

/-- Every waiter that ended returned the cached vector. -/
def ReturnsCached (cfg : Config) (text : String) (t : State) : Prop :=
  ∀ j c r, t.calls j = some c → c.phase = Phase.settled r →
    WaitEvent.waiting ∈ waitTrace j t.log →
      ∃ vector, r = some vector ∧ cachedVector cfg text t = some vector

/-- What the events of an ended waiter say about its result: a warning, or the vector that the
cache holds. -/
theorem Waits.result (h : Waits cfg text s) {j : ℕ} {c : Call} {r : Option (List Json)}
    (hc : s.calls j = some c) (hphase : c.phase = Phase.settled r)
    (hmem : WaitEvent.waiting ∈ waitTrace j s.log) :
    WaitEvent.released ∈ waitTrace j s.log ∨ WaitEvent.timeout ∈ waitTrace j s.log ∨
      ∃ vector, r = some vector ∧ cachedVector cfg text s = some vector := by
  have hwait := h.2 j c hc
  rw [hphase] at hwait
  cases r with
  | none =>
    rcases hwait with hnil | hrel | htime
    · rw [hnil] at hmem
      cases hmem
    · left
      rw [hrel]
      simp
    · right
      left
      rw [htime]
      simp
  | some vector =>
    rcases hwait with hnil | ⟨-, hcached⟩
    · rw [hnil] at hmem
      cases hmem
    · exact Or.inr (Or.inr ⟨vector, rfl, hcached⟩)

/-- A run keeps an event of a waiter out when each of its steps does. `ok` is the condition on
the checks, for either of the two warnings. -/
theorem exit_absent {ok : State → Act → Prop} {w : WaitEvent} (hw : w ≠ WaitEvent.waiting)
    (hexit : ∀ s i fate c round, Faithful cfg text s → ok s (Act.call i (Op.redis fate)) →
      s.calls i = some c → c.phase = Phase.checking round →
      ¬ ((w = WaitEvent.released ∧
          Redis.keyExists s.now s.store (lockKey cfg.embeddingModelName text) = false) ∨
        (w = WaitEvent.timeout ∧ ¬ round + 1 < waitRetries))) :
    (machine cfg).KeepsIf (fun s a => (Attended cfg text s a ∧ OneHolder cfg s a) ∧ ok s a)
      (fun s => Faithful cfg text s ∧ ∀ j, w ∉ waitTrace j s.log) := by
  rintro s a t ⟨h, habsent⟩ ⟨hatt, hok⟩ hstep
  refine ⟨faithful_step s a t h hatt hstep, ?_⟩
  rcases step_cases hstep with ⟨i, query, rfl, hc, rfl⟩ | ⟨i, op, c, change, rfl, hc, hm, rfl⟩ |
    ⟨key, entry, rfl, hkey, rfl⟩ | ⟨ms, rfl, rfl⟩
  · intro j
    rw [State.apply, begins_events, List.append_nil]
    exact habsent j
  · intro j hmem
    simp only [State.apply, waitTrace_append, List.mem_append] at hmem
    rcases hmem with hold | hnew
    · exact habsent j hold
    · -- A new warning is that of a check, which `ok` allows only without one.
      have htext := h.texts i c hc
      rw [htext] at hm
      obtain ⟨rfl, fate, round, rfl, hphase, hcase⟩ := hm.exit_mem hnew hw
      exact hexit s j fate c round h hok hc hphase hcase
  · exact habsent
  · exact habsent

theorem waitTrace_subset {as : List Act} (h : (machine cfg).run as s = some t) {w : WaitEvent}
    (hmem : w ∈ waitTrace i s.log) : w ∈ waitTrace i t.log := by
  obtain ⟨rest, hrest⟩ := log_grows h
  rw [← hrest, waitTrace_append]
  exact List.mem_append_left _ hmem

/-- A check that ends a waiting shows in the final state. This is the other direction: one bad
step in the middle of a run is enough. -/
theorem exit_of_check {as pre post : List Act} {now : ℕ} {store : Store} {m : State} {fate : Fate}
    {c : Call} {round : ℕ} (hrun : (machine cfg).run as (initial now store) = some t)
    (hatt : (machine cfg).Meets (fun s a => Attended cfg text s a ∧ OneHolder cfg s a) as
      (initial now store))
    (hinit : Faithful cfg text (initial now store))
    (has : as = pre ++ Act.call i (Op.redis fate) :: post)
    (hpre : (machine cfg).run pre (initial now store) = some m) (hc : m.calls i = some c)
    (hphase : c.phase = Phase.checking round)
    (hexit : ¬ HolderAtWork m ∨ ¬ round + 1 < waitRetries) :
    ∃ w d, w ≠ WaitEvent.waiting ∧ w ∈ waitTrace i t.log ∧
      (¬ HolderAtWork m → w = WaitEvent.released) ∧ t.calls i = some d ∧
      d.phase = Phase.settled none ∧ WaitEvent.waiting ∈ waitTrace i t.log := by
  have hfate : fate = Fate.ok :=
    ((StepMachine.meets_iff _).1 hatt pre _ post m has hpre).1.1
  have ht := StepMachine.KeepsIf.run _ faithful_step hinit hatt hrun
  rw [has] at hrun hatt
  have hm := StepMachine.KeepsIf.run _ faithful_step hinit (hatt.left _) hpre
  obtain ⟨m', hpre', hrun⟩ := (StepMachine.run_append_eq_some _).1 hrun
  obtain rfl : m = m' := Option.some.inj (hpre.symm.trans hpre')
  obtain ⟨n, hstep, hpost⟩ := ((machine cfg).run_cons_eq_some).1 hrun
  -- With no holder at work there is no live lock entry.
  have hfree : ¬ HolderAtWork m →
      Redis.keyExists m.now m.store (lockKey cfg.embeddingModelName c.text) = false := by
    intro hidle
    rw [hm.texts i c hc]
    by_contra hheld
    exact hidle (hm.keyExists_iff.1 (by simpa using hheld))
  subst hfate
  obtain ⟨w, hw, hmem, hrel⟩ := exits_of_check hc hphase hstep (hexit.imp hfree id)
  have hmem' := waitTrace_subset hpost hmem
  obtain ⟨d, hd, hdone, hwaiting⟩ := ht.waits.of_exit hmem' hw
  exact ⟨w, d, hw, hmem', fun hidle => hrel (hfree hidle), hd, hdone, hwaiting⟩

/-- At the start nobody has called, and neither key is there. -/
theorem faithful_initial (now : ℕ) {store : Store}
    (hcache : store (cacheKey cfg.embeddingModelName text) = none)
    (hlock : store (lockKey cfg.embeddingModelName text) = none) :
    Faithful cfg text (initial now store) := by
  have hnone : ∀ {i : ℕ} {c : Call}, (initial now store).calls i = some c → False := by
    intro i c hc
    cases hc
  refine ⟨fun _ _ hc => (hnone hc).elim, ⟨fun _ _ => rfl, fun _ _ hc => (hnone hc).elim⟩, ?_,
    fun _ _ _ hc => (hnone hc).elim, fun hne => absurd hcache hne, fun _ _ => rfl,
    fun _ _ hc => (hnone hc).elim⟩
  intro e he
  have hentry : store (lockKey cfg.embeddingModelName text) = some e :=
    (Option.filter_eq_some_iff.1 he).1
  rw [hlock] at hentry
  cases hentry

theorem ChecksWithRoundsLeft.inTime {a : Act} (h : ChecksWithRoundsLeft s a) : ChecksInTime s a := by
  rcases a with _ | ⟨i, fate | _ | _ | _⟩ | _ | _
  case call.redis => exact fun c round hc hphase => (h c round hc hphase).1
  all_goals trivial

/-- While the holder is at work a check finds the lock. -/
theorem Faithful.keyExists_of_atWork (h : Faithful cfg text s) (hwork : HolderAtWork s) :
    Redis.keyExists s.now s.store (lockKey cfg.embeddingModelName text) ≠ false := by
  rw [h.keyExists_iff.2 hwork]
  simp

section Exits

variable {now : ℕ} {store : Store} {as : List Act}
  (hinit : Faithful cfg text (initial now store))
  (hrun : (machine cfg).run as (initial now store) = some t)
  (hatt : (machine cfg).Meets (fun s a => Attended cfg text s a ∧ OneHolder cfg s a) as
    (initial now store))

include hinit hrun hatt

/-- An event that `ok` keeps out of each step is no event of the run. -/
theorem waitTrace_absent {ok : State → Act → Prop} {w : WaitEvent}
    (hkeeps : (machine cfg).KeepsIf (fun s a => (Attended cfg text s a ∧ OneHolder cfg s a) ∧ ok s a)
      (fun s => Faithful cfg text s ∧ ∀ j, w ∉ waitTrace j s.log))
    (hok : (machine cfg).Meets ok as (initial now store)) (j : ℕ) : w ∉ waitTrace j t.log := by
  have hnone : ∀ j, w ∉ waitTrace j (initial now store).log := by
    intro j hmem
    cases hmem
  exact (StepMachine.KeepsIf.run _ hkeeps ⟨hinit, hnone⟩ (hatt.and _ hok) hrun).2 j

/-- No waiter leaves through the released lock exactly when each check is made while the
holder is at work. -/
theorem noFalseExit_iff :
    NoFalseExit cfg text t ↔ (machine cfg).Meets ChecksInTime as (initial now store) := by
  constructor
  · -- A check without the holder would show as a false exit.
    intro hexit
    rw [StepMachine.meets_iff]
    rintro pre (_ | ⟨i, fate | _ | _ | _⟩ | _ | _) post m has hpre
    case call.redis =>
      intro c round hc hphase
      by_contra hidle
      obtain ⟨w, d, hw, hmem, hrel, hd, hdone, hwaiting⟩ :=
        exit_of_check hrun hatt hinit has hpre hc hphase (Or.inl hidle)
      rw [hrel hidle] at hmem
      exact (hexit i d none hd hdone hwaiting).1 hmem
    all_goals trivial
  · intro hchecks
    have habsent : ∀ j, WaitEvent.released ∉ waitTrace j t.log := by
      refine waitTrace_absent hinit hrun hatt (exit_absent (by simp) ?_) hchecks
      rintro s i fate c round h hok hc hphase (⟨-, hfree⟩ | ⟨hw, -⟩)
      · exact h.keyExists_of_atWork (hok c round hc hphase) hfree
      · cases hw
    have ht := StepMachine.KeepsIf.run _ faithful_step hinit hatt hrun
    intro j c r hc hphase hwaiting
    refine ⟨habsent j, ?_⟩
    rcases ht.waits.result hc hphase hwaiting with hrel | htime | hvector
    · exact absurd hrel (habsent j)
    · exact Or.inl htime
    · exact Or.inr hvector

/-- Every waiter that ended returned the cached vector exactly when, besides, none of these
checks was the last one of its waiter. -/
theorem returnsCached_iff :
    ReturnsCached cfg text t ↔ (machine cfg).Meets ChecksWithRoundsLeft as (initial now store) := by
  constructor
  · -- A bad check ends its call with `null`, which is not the cached vector.
    intro hcached
    rw [StepMachine.meets_iff]
    rintro pre (_ | ⟨i, fate | _ | _ | _⟩ | _ | _) post m has hpre
    case call.redis =>
      intro c round hc hphase
      by_contra hbad
      obtain ⟨w, d, hw, hmem, hrel, hd, hdone, hwaiting⟩ :=
        exit_of_check hrun hatt hinit has hpre hc hphase (not_and_or.1 hbad)
      obtain ⟨vector, hvector, -⟩ := hcached i d none hd hdone hwaiting
      cases hvector
    all_goals trivial
  · intro hchecks
    -- Neither warning is ever given.
    have habsent : ∀ w, w ≠ WaitEvent.waiting → ∀ j, w ∉ waitTrace j t.log := by
      intro w hw
      refine waitTrace_absent hinit hrun hatt (exit_absent hw ?_) hchecks
      rintro s i fate c round h hok hc hphase (⟨-, hfree⟩ | ⟨-, hlast⟩)
      · exact h.keyExists_of_atWork (hok.inTime c round hc hphase) hfree
      · exact hlast (hok c round hc hphase).2
    have ht := StepMachine.KeepsIf.run _ faithful_step hinit hatt hrun
    intro j c r hc hphase hwaiting
    rcases ht.waits.result hc hphase hwaiting with hrel | htime | hvector
    · exact absurd hrel (habsent WaitEvent.released (by simp) j)
    · exact absurd htime (habsent WaitEvent.timeout (by simp) j)
    · exact hvector

end Exits

/-- **When the waiters of one holder leave too early.** Without faults and without expiry of
the cache entry, no waiter leaves through the released lock exactly in the runs in which every
check of the lock is made while the holder is at work; and every waiter that ended returned
the cached vector exactly when, besides, no check is that of the last round. The comment over
the check takes a missing lock for a failed holder; it can also be one that was faster than
the waiter's two reads. -/
theorem waitForCache_exits (cfg : Config) (now : ℕ) (store : Store) (text : String)
    (hcache : store (cacheKey cfg.embeddingModelName text) = none)
    (hlock : store (lockKey cfg.embeddingModelName text) = none) (as : List Act) (t : State)
    (hrun : (machine cfg).run as (initial now store) = some t)
    (hatt : (machine cfg).Meets (Attended cfg text) as (initial now store))
    (hone : acquisitions t.log ≤ 1) :
    (NoFalseExit cfg text t ↔ (machine cfg).Meets ChecksInTime as (initial now store)) ∧
    (ReturnsCached cfg text t ↔
      (machine cfg).Meets ChecksWithRoundsLeft as (initial now store)) := by
  have hinit : Faithful cfg text (initial now store) := faithful_initial now hcache hlock
  have hholder := oneHolder_of_acquisitions hrun
    (StepMachine.Meets.mono _ (fun _ _ h => h.1) hatt) hone
  have hboth := hatt.and _ hholder
  exact ⟨noFalseExit_iff hinit hrun hboth, returnsCached_iff hinit hrun hboth⟩

/-! ## The false exit -/

/-- A call that is about to release the lock has filled the cache. -/
def Call.storedFirst (c : Call) : Bool :=
  match c.phase with
  | Phase.locked _ (Critical.releasing (Completion.returns (some _))) => true
  | Phase.locked _ (Critical.releasing _) => false
  | _ => true

/-- A holder that releases the lock has filled the cache before. -/
def StoresFirst (s : State) : Act → Prop
  | Act.call i (Op.redis _) => ∀ c ∈ s.calls i, c.storedFirst = true
  | _ => True

instance (s : State) : ∀ a, Decidable (StoresFirst s a)
  | Act.call _ (Op.redis _) => decidable_of_iff _ (Option.all_eq_true Call.storedFirst _)
  | Act.call _ Op.permit => isTrue trivial
  | Act.call _ (Op.answer _) => isTrue trivial
  | Act.call _ Op.wake => isTrue trivial
  | Act.start _ _ => isTrue trivial
  | Act.outside _ _ => isTrue trivial
  | Act.tick _ => isTrue trivial

instance (s : State) (a : Act) : Decidable (Attended cfg text s a) := by
  unfold Attended
  infer_instance

/-- The holder fills the cache and releases the lock between the two reads of the
waiter's first round. -/
def betweenReads : List Act :=
  [Act.start 0 "redis", Act.start 1 "redis", Act.call 0 (Op.redis Fate.ok),
    Act.call 1 (Op.redis Fate.ok), Act.call 0 (Op.redis Fate.ok), Act.call 1 (Op.redis Fate.ok),
    Act.call 0 Op.permit, Act.tick 200, Act.call 1 Op.wake,
    Act.call 0 (Op.answer (Reply.embeddings [[Binary64.ofInt 7]])), Act.call 1 (Op.redis Fate.ok),
    Act.call 0 (Op.redis Fate.ok), Act.call 0 (Op.redis Fate.ok), Act.call 1 (Op.redis Fate.ok)]

/-- The run is one of a holder that fills the cache before it releases the lock,
and of one waiter. -/
theorem betweenReads_attended :
    (machine testConfig).Meets (Attended testConfig "redis") betweenReads (initial 0 emptyStore) ∧
      (machine testConfig).Meets StoresFirst betweenReads (initial 0 emptyStore) := by
  constructor <;> decide +kernel

theorem betweenReads_run :
    ∃ t c, (machine testConfig).run betweenReads (initial 0 emptyStore) = some t ∧
      acquisitions t.log = 1 ∧ t.calls 1 = some c ∧ c.phase = Phase.settled none ∧
      waitTrace 1 t.log = [WaitEvent.waiting, WaitEvent.released] := by
  have hproj : ((machine testConfig).run betweenReads (initial 0 emptyStore)).map
      (fun t => (acquisitions t.log, (t.calls 1).map fun c =>
        (match c.phase with | Phase.settled none => true | _ => false), waitTrace 1 t.log)) =
      some (1, some true, [WaitEvent.waiting, WaitEvent.released]) := by
    decide +kernel
  obtain ⟨t, ht, heq⟩ := Option.map_eq_some_iff.1 hproj
  simp only [Prod.mk.injEq] at heq
  obtain ⟨c, hc, hphase⟩ := Option.map_eq_some_iff.1 heq.2.1
  refine ⟨t, c, ht, heq.1, hc, ?_, heq.2.2⟩
  split at hphase
  · assumption
  · cases hphase

/-- The waiter returns `null` although the vector is in the cache. -/
theorem betweenReads_exits_early :
    ∃ t, (machine testConfig).run betweenReads (initial 0 emptyStore) = some t ∧
      (machine testConfig).Meets (Attended testConfig "redis") betweenReads
        (initial 0 emptyStore) ∧
      (machine testConfig).Meets StoresFirst betweenReads (initial 0 emptyStore) ∧
      acquisitions t.log = 1 ∧ ¬ NoFalseExit testConfig "redis" t := by
  obtain ⟨t, c, ht, hone, hc, hphase, htrace⟩ := betweenReads_run
  obtain ⟨hatt, hstores⟩ := betweenReads_attended
  refine ⟨t, ht, hatt, hstores, hone, ?_⟩
  intro hexit
  have hnot := (hexit 1 c none hc hphase (by rw [htrace]; simp)).1
  rw [htrace] at hnot
  simp at hnot

/-- Not every check of the run is in time. -/
theorem waitForCache_exits_betweenReads :
    ¬ (machine testConfig).Meets ChecksInTime betweenReads (initial 0 emptyStore) := by
  obtain ⟨t, c, ht, hone, hc, hphase, htrace⟩ := betweenReads_run
  intro hchecks
  have hexit := (waitForCache_exits testConfig 0 emptyStore "redis" rfl rfl betweenReads t ht
    (betweenReads_attended).1 (le_of_eq hone)).1.2 hchecks
  have hnot := (hexit 1 c none hc hphase (by rw [htrace]; simp)).1
  rw [htrace] at hnot
  simp at hnot

end EmbedSearchQuery

end TechTrends
