/-
The deadlines of a throttle counter and of its block.

Two questions about sequences of `incrementThrottle` calls on one key. When is a
block over: with integer settings and a block no shorter than the window, calls
change nothing while a block is in force, and the first call after it starts a
new window (`incrementThrottle_block_ends`). And does every counter have a
deadline: `INCR` makes the counter and `PEXPIRE` gives it its deadline, so a call
whose ttl Redis does not read leaves a counter that never ends
(`counter_expires_iff`).
-/
import TechTrends.StepMachine
import TechTrends.Throttle

set_option autoImplicit false

namespace TechTrends

open Redis (lookup pttl incr pexpire setPx)

/-! ## The end of a block -/

theorem ThrottleConfig.calls_cons (c : ThrottleConfig) (key : String) (t : ℕ) (ts : List ℕ)
    (s : Store) : c.calls key (t :: ts) s =
      ((c.increment key t s).1 :: (c.calls key ts (c.increment key t s).2).1,
        (c.calls key ts (c.increment key t s).2).2) := rfl

theorem ThrottleConfig.calls_append (c : ThrottleConfig) (key : String) (ts us : List ℕ) (s : Store) :
    (c.calls key (ts ++ us) s).2 = (c.calls key us (c.calls key ts s).2).2 := by
  induction ts generalizing s with
  | nil => rfl
  | cons t ts ih => exact ih (c.increment key t s).2

/-- A call that meets a block writes nothing. -/
theorem increment_blocked (c : ThrottleConfig) {key : String} {s : Store} {now : ℕ}
    (h : 0 < pttl now s (throttleBlockKey key)) :
    (c.increment key now s).2 = s ∧ ∃ res, (c.increment key now s).1 = some res ∧ res.isBlocked = true := by
  rw [ThrottleConfig.increment, incrementThrottle, throttleIncrementLua, if_pos h]
  exact ⟨rfl, _, rfl, rfl⟩

/-- Any number of calls that meet a block leave the store as it was. -/
theorem calls_blocked (c : ThrottleConfig) {key : String} {s : Store} (ts : List ℕ)
    (h : ∀ t ∈ ts, 0 < pttl t s (throttleBlockKey key)) :
    (c.calls key ts s).2 = s ∧
      ∀ r ∈ (c.calls key ts s).1, ∃ res, r = some res ∧ res.isBlocked = true := by
  induction ts with
  | nil => exact ⟨rfl, nofun⟩
  | cons t ts ih =>
    obtain ⟨hsame, hres⟩ := increment_blocked c (h t List.mem_cons_self)
    obtain ⟨hrest, hall⟩ := ih fun u hu => h u (List.mem_cons_of_mem t hu)
    rw [c.calls_cons, hsame]
    refine ⟨hrest, fun r hr => ?_⟩
    rcases List.mem_cons.1 hr with rfl | hr
    · exact hres
    · exact hall r hr

/-- The key of the block that is in force, as a state of the limiter. The deadline that Redis
has for the key is the one that the limiter knows. -/
theorem Holds.blockedUntil_eq {key : String} {w : FixedWindow.State} {s : Store} (h : Holds key w s)
    {e : Entry} {b : ℕ} (he : s (throttleBlockKey key) = some e) (hd : e.deadline = some b) :
    w.blockedUntil = some b := by
  rw [h.block] at he
  obtain ⟨b', hb', rfl⟩ := Option.map_eq_some_iff.1 he
  rw [hb']
  exact hd

/-- The counter in the store and the one of the limiter have their deadline in common, also
when it has passed and the entry is only still there in the model. -/
theorem Holds.counter_deadline {key : String} {w : FixedWindow.State} {s : Store}
    (h : Holds key w s) (b : ℕ) :
    (∃ e, s key = some e ∧ e.deadline = some b) ↔ ∃ c, w.counter = some c ∧ c.2 = b := by
  rw [h.counter]
  constructor
  · rintro ⟨e, he, hd⟩
    obtain ⟨c, hc, rfl⟩ := Option.map_eq_some_iff.1 he
    exact ⟨c, hc, Option.some.inj hd⟩
  · rintro ⟨c, hc, rfl⟩
    rw [hc]
    exact ⟨_, rfl, rfl⟩

theorem toString_one : toString (1 : ℤ) = "1" := by decide

/-- **A block ends on time.** Calls on one key at non-decreasing instants, from a
store without its two keys. Calls that meet a block change nothing. Let `b` be
the deadline of the block key, and `t` the first call that is not made before it.
Later than `b`, the call is allowed, counts as the first hit and gives the
counter a whole window. At `b` itself it does so too, unless the counter has the
same deadline: then the call is blocked and starts the next block. -/
theorem incrementThrottle_block_ends (c : ThrottleConfig) (hlimit : 1 ≤ c.limit)
    (hspan : c.ttlMs ≤ c.blockDurationMs) (key : String) (s : Store) (hs : Unused key s)
    (ts : List ℕ) (hsorted : ts.Pairwise (· ≤ ·)) :
    (∀ pre during post, ts = pre ++ during ++ post →
      (∀ t ∈ during, 0 < pttl t (c.calls key pre s).2 (throttleBlockKey key)) →
      (c.calls key (pre ++ during) s).2 = (c.calls key pre s).2) ∧
    ∀ pre t post b e, ts = pre ++ t :: post →
      (c.calls key pre s).2 (throttleBlockKey key) = some e → e.deadline = some b →
      (∀ u ∈ pre, u < b) → b ≤ t →
      let shared := t = b ∧ ∃ e, (c.calls key pre s).2 key = some e ∧ e.deadline = some b
      (¬ shared → ∃ res, (c.increment key t (c.calls key pre s).2).1 = some res ∧
        res.isBlocked = false ∧ res.totalHits = 1 ∧
        (c.calls key (pre ++ [t]) s).2 key = some ⟨"1", some (t + c.ttlMs)⟩) ∧
      (shared → ∃ res, (c.increment key t (c.calls key pre s).2).1 = some res ∧
        res.isBlocked = true ∧
        (c.calls key (pre ++ [t]) s).2 (throttleBlockKey key)
          = some ⟨"1", some (t + c.blockDurationMs)⟩) := by
  -- while the block stands a call leaves the store as it is
  refine ⟨fun pre during post _ hduring => ?_, ?_⟩
  · rw [c.calls_append, (calls_blocked c during hduring).1]
  intro pre t post b e hts he hd hpre hbt shared
  have hholds := (calls_refines c pre hs.holds).2
  have hbefore : FixedWindow.Before c.params b (FixedWindow.after c.params pre ⟨none, none⟩) := by
    refine FixedWindow.Before.after hspan pre (m := 0) ⟨nofun, nofun⟩ ?_ (by simp) hpre (by simp)
    rw [hts] at hsorted
    exact (List.pairwise_append.1 hsorted).1
  -- the limiter's state before the call, and what the call makes of it
  generalize FixedWindow.after c.params pre ⟨none, none⟩ = w at hholds hbefore
  obtain ⟨hres, hnext⟩ := increment_refines c hholds t
  have hstore : (c.calls key (pre ++ [t]) s).2 = (c.increment key t (c.calls key pre s).2).2 := by
    rw [c.calls_append]
    rfl
  have hb : w.blockedUntil = some b := hholds.blockedUntil_eq he hd
  have hshared : shared ↔ t = b ∧ ∃ x, w.counter = some x ∧ x.2 = b :=
    and_congr_right fun _ => hholds.counter_deadline b
  rw [hstore]
  constructor
  · -- the counter has run out with the block, so this call is the first of a window
    intro hnot
    rw [hshared] at hnot
    have hfree : b < t ∨ ∀ x, w.counter = some x → x.2 ≠ b := by
      rcases Nat.lt_or_eq_of_le hbt with hlt | heq
      · exact Or.inl hlt
      · exact Or.inr fun x hx hxb => hnot ⟨heq.symm, x, hx, hxb⟩
    obtain ⟨hblocked, hhits, hcounter⟩ := hbefore.first_call hlimit hb hbt hfree
    refine ⟨_, hres, hblocked, ?_, ?_⟩
    · show ((FixedWindow.step c.params t w).1.hits : ℤ) = 1
      rw [hhits]
      rfl
    · rw [hnext.counter, hcounter, Option.map_some]
      show some (⟨toString (1 : ℤ), _⟩ : Entry) = _
      rw [toString_one]
      rfl
  · -- one deadline for both keys: the counter is still counted on, and blocks again
    intro hyes
    obtain ⟨rfl, hx⟩ := hshared.1 hyes
    obtain ⟨hblocked, hblock⟩ := hbefore.shared_deadline hb hx
    refine ⟨_, hres, hblocked, ?_⟩
    rw [hnext.block, hblock]
    rfl

/-- One call in five milliseconds, and a block of ten. -/
def ThrottleConfig.blockOfTen : ThrottleConfig where
  ttlMs := 5
  limit := 1
  blockDurationMs := 10
  -- The two durations of `onePerTen`, the other way round.
  ttl_pos := ThrottleConfig.onePerTen.block_pos
  block_pos := ThrottleConfig.onePerTen.ttl_pos
  ttl_lt := ThrottleConfig.onePerTen.block_lt
  block_lt := ThrottleConfig.onePerTen.ttl_lt

/-- The block key after the calls at 0 and at 1, and the answer to a next call. The second of
the two passes the limit and starts the block. -/
theorem blockOfTen_calls (ts : List ℕ) (t : ℕ) :
    let w := FixedWindow.after ThrottleConfig.blockOfTen.params ts ⟨none, none⟩
    let s := (ThrottleConfig.blockOfTen.calls "k" ts (fun _ => none)).2
    s (throttleBlockKey "k") = w.blockedUntil.map (fun b => ⟨"1", some b⟩) ∧
      (ThrottleConfig.blockOfTen.increment "k" t s).1
        = some (resultOf (FixedWindow.step ThrottleConfig.blockOfTen.params t w).1) := by
  have hempty : Holds "k" ⟨none, none⟩ fun _ => none := Unused.holds ⟨rfl, rfl⟩
  have hholds := (calls_refines ThrottleConfig.blockOfTen ts hempty).2
  exact ⟨hholds.block, (increment_refines ThrottleConfig.blockOfTen hholds t).1⟩

/-- The call at 1 starts a block until 11, and the call at 7 meets it; the call at
12 starts a window. -/
theorem incrementThrottle_block_ends_twelve :
    (ThrottleConfig.blockOfTen.calls "k" ([0, 1] ++ [7]) (fun _ => none)).2
        = (ThrottleConfig.blockOfTen.calls "k" [0, 1] (fun _ => none)).2 ∧
      ∃ res, (ThrottleConfig.blockOfTen.increment "k" 12
          (ThrottleConfig.blockOfTen.calls "k" [0, 1, 7] (fun _ => none)).2).1 = some res ∧
        res.isBlocked = false ∧ res.totalHits = 1 := by
  have hends := incrementThrottle_block_ends ThrottleConfig.blockOfTen (by decide) (by decide) "k"
    (fun _ => none) ⟨rfl, rfl⟩ [0, 1, 7, 12] (by decide)
  have hseven : ∀ t ∈ [7], 0 < pttl t
      (ThrottleConfig.blockOfTen.calls "k" [0, 1] (fun _ => none)).2 (throttleBlockKey "k") := by
    intro t ht
    rw [List.mem_singleton.1 ht, pttl, lookup, (blockOfTen_calls [0, 1] 7).1]
    decide
  obtain ⟨res, hres, hblocked, hhits, -⟩ := (hends.2 [0, 1, 7] 12 [] 11 ⟨"1", some 11⟩ rfl
    (blockOfTen_calls [0, 1, 7] 12).1 rfl (by decide) (by decide)).1 (by decide)
  exact ⟨hends.1 [0, 1] [7] [12] rfl hseven, res, hres, hblocked, hhits⟩

/-- A call at the very deadline of the block can start the window, and then the
first call that is strictly later meets the new counter: here the calls at 11 and
at 12. -/
theorem first_call_after_block_can_be_blocked :
    ¬ ∀ (c : ThrottleConfig) (key : String) (s : Store), 1 ≤ c.limit → c.ttlMs ≤ c.blockDurationMs →
      Unused key s → ∀ pre during t b e, (pre ++ during ++ [t]).Pairwise (· ≤ ·) →
        (c.calls key pre s).2 (throttleBlockKey key) = some e → e.deadline = some b →
        (∀ u ∈ pre, u < b) → (∀ u ∈ during, u ≤ b) → b < t →
        ∃ res, (c.increment key t (c.calls key (pre ++ during) s).2).1 = some res ∧
          res.isBlocked = false ∧ res.totalHits = 1 := by
  intro h
  obtain ⟨res, hres, hblocked, -⟩ := h ThrottleConfig.blockOfTen "k" (fun _ => none) (by decide)
    (by decide) ⟨rfl, rfl⟩ [0, 1] [11] 12 11 ⟨"1", some 11⟩ (by decide) (blockOfTen_calls [0, 1] 12).1
    rfl (by decide) (by decide) (by decide)
  rw [(blockOfTen_calls ([0, 1] ++ [11]) 12).2, Option.some.injEq] at hres
  rw [← hres] at hblocked
  exact absurd hblocked (by decide)

/-! ## A counter without a deadline

Calls with any numbers for their settings, at any instants. -/

/-- One call on a key, with the instant of its script. -/
structure ThrottleCall where
  now : ℕ
  ttlMs : JsNumber
  limit : JsNumber
  blockDurationMs : JsNumber

def ThrottleCall.increment (c : ThrottleCall) (key : String) (s : Store) :
    Option ThrottleIncrementResult × Store :=
  incrementThrottle c.now s key c.ttlMs c.limit c.blockDurationMs

/-- Calls on one key, whether they return or throw. -/
def throttleMachine (key : String) : StepMachine Store ThrottleCall where
  step s c := some (c.increment key s).2

/-- The counter of a key, if it exists, has a deadline. -/
def CounterExpires (key : String) (s : Store) : Prop :=
  ∀ e, s key = some e → e.deadline ≠ none

/-- The call counts and finds no counter, so that `INCR` makes it. -/
def ThrottleCall.Creates (c : ThrottleCall) (key : String) (s : Store) : Prop :=
  ¬ pttl c.now s (throttleBlockKey key) > 0 ∧ lookup c.now s key = none

/-- `PEXPIRE` takes the text of `Math.max(1, ttlMs)`. -/
def ThrottleCall.TtlRead (c : ThrottleCall) : Prop := c.ttlMs.maxOne.toInteger ≠ none

/-- The settings `PEXPIRE` takes: whatever is at most 1, and integers of 64 bits.
`String(Math.max(1, ttlMs))` is the argument, so that 0.5 arrives as `1` and is read, while
1.5 arrives as `1.5`, which is no integer for Redis. -/
theorem ttlRead_iff (c : ThrottleCall) :
    c.TtlRead ↔ c.ttlMs = JsNumber.infinity true ∨
      ∃ q, c.ttlMs = JsNumber.finite q ∧ (q ≤ 1 ∨ q.den = 1 ∧ q.num < 2 ^ 63) := by
  rw [ThrottleCall.TtlRead]
  cases c.ttlMs with
  | nan => simp [JsNumber.maxOne, JsNumber.toInteger]
  | infinity neg => cases neg <;> simp [JsNumber.maxOne, JsNumber.toInteger]
  | finite q =>
    rcases le_or_gt q 1 with hq | hq
    · simp [JsNumber.maxOne, JsNumber.toInteger, hq]
    · have hmax : max 1 q = q := max_eq_right hq.le
      have hnum : 0 < q.num := Rat.num_pos.2 (lt_trans one_pos hq)
      have hlow : (-9223372036854775808 : ℤ) ≤ q.num := by omega
      simp [JsNumber.maxOne, JsNumber.toInteger, hmax, not_le.2 hq, hlow]

theorem setPx_ne {now : ℕ} {s s' : Store} {key key' value : String} {ttl : JsNumber}
    (h : setPx now s key value ttl = some s') (hne : key' ≠ key) : s' key' = s key' := by
  rw [setPx, Option.bind_eq_some_iff] at h
  obtain ⟨n, -, h⟩ := h
  split at h
  · rw [← Option.some.inj h, Redis.set, Function.update_of_ne hne]
  · cases h

/-- The end of the script leaves the counter alone: it asks for the counter's `PTTL` and
writes the block key. -/
theorem throttleVerdict_counter (now : ℕ) (s : Store) (key : String) (hits : ℤ)
    (limit block : JsNumber) :
    (throttleVerdict now s key (throttleBlockKey key) hits limit block).2 key = s key := by
  rw [throttleVerdict]
  split
  · split
    · rfl
    · exact setPx_ne ‹_› (throttleBlockKey_ne key).symm
  · rfl

/-- `Math.max(1, x)`, when it is an integer, is positive. -/
theorem maxOne_toInteger_pos {x : JsNumber} {n : ℤ} (h : x.maxOne.toInteger = some n) : 0 < n := by
  cases x with
  | nan => cases h
  | infinity neg =>
    cases neg
    · cases h
    · have hone : (JsNumber.infinity true).maxOne.toInteger = some 1 := rfl
      rw [hone, Option.some.injEq] at h
      omega
  | finite q =>
    rw [JsNumber.maxOne, JsNumber.toInteger] at h
    split at h
    · rw [← Option.some.inj h, Rat.num_pos]
      exact lt_of_lt_of_le one_pos (le_max_left 1 q)
    · cases h

/-- The deadline that `PEXPIRE` sets, when it takes its argument. -/
def ThrottleCall.newDeadline (c : ThrottleCall) : Option ℕ :=
  c.ttlMs.maxOne.toInteger.map fun n => c.now + n.toNat

theorem newDeadline_ne_none (c : ThrottleCall) : c.newDeadline ≠ none ↔ c.TtlRead := by
  rw [ThrottleCall.newDeadline, ThrottleCall.TtlRead, ne_eq, Option.map_eq_none_iff]

/-- The script once `INCR` has answered, with the arguments of the call. -/
def ThrottleCall.afterIncr (c : ThrottleCall) (key : String) (hits : ℤ) (s : Store) :
    Option (List ℤ) × Store :=
  throttleCounted c.now s key (throttleBlockKey key) hits c.ttlMs.maxOne c.limit c.blockDurationMs.maxOne

/-- The whole script. -/
def ThrottleCall.script (c : ThrottleCall) (key : String) (s : Store) : Option (List ℤ) × Store :=
  throttleIncrementLua c.now s key (throttleBlockKey key) c.ttlMs.maxOne c.limit c.blockDurationMs.maxOne

/-- The script up to `INCR`, and what is left of it. A call that meets a block ends there;
where `INCR` fails, because the text under the key is no integer, nothing has been written. -/
theorem ThrottleCall.script_eq (c : ThrottleCall) (key : String) (s : Store) :
    c.script key s =
      if pttl c.now s (throttleBlockKey key) > 0 then
        (some [luaToNumber ((Redis.get c.now s key).getD "0"), pttl c.now s key, 1,
          pttl c.now s (throttleBlockKey key)], s)
      else
        match incr c.now s key with
        | none => (none, s)
        | some (hits, s) => c.afterIncr key hits s := rfl

/-- A first hit is given a new deadline, or keeps the old one when `PEXPIRE` fails. The failed
command ends the script with an error, and what `INCR` has written stays. -/
theorem afterIncr_counter (c : ThrottleCall) {key text : String} {s : Store} {d : Option ℕ}
    (hits : ℤ) (hkey : s key = some ⟨text, d⟩) (hlive : Entry.live c.now ⟨text, d⟩ = true) :
    (c.afterIncr key hits s).2 key = some ⟨text, if hits = 1 then c.newDeadline.or d else d⟩ := by
  have hlook : lookup c.now s key = some ⟨text, d⟩ := by
    rw [lookup, hkey, Option.filter_some_pos hlive]
  rw [ThrottleCall.afterIncr, throttleCounted]
  by_cases hone : hits = 1
  · rw [if_pos hone, if_pos hone, pexpire, ThrottleCall.newDeadline]
    cases hread : c.ttlMs.maxOne.toInteger with
    | none => exact hkey
    | some n =>
      have hn : ¬ n ≤ 0 := not_le.2 (maxOne_toInteger_pos hread)
      simp only [Option.map_some, hlook, if_neg hn, throttleVerdict_counter, Option.some_or]
      rw [Redis.set, Function.update_self]
  · rw [if_neg hone, if_neg hone, throttleVerdict_counter, hkey]

/-- The store a call leaves is the script's. `incrementThrottle` itself writes nothing, and an
error of the script, which rejects its promise, undoes nothing. -/
theorem increment_store (c : ThrottleCall) (key : String) (s : Store) :
    (c.increment key s).2 = (c.script key s).2 := by
  rw [ThrottleCall.increment, incrementThrottle, ThrottleCall.script]
  split
  · next h => rw [h]
  · next h => rw [h]

/-- What a call does to the counter. It creates one, with a deadline if `PEXPIRE` takes the
ttl; or it leaves it alone, because of a block or of a text that is no integer; or it raises
it, and a first hit of an old counter is possible where another party has left 0 under the
key. -/
theorem increment_counter (c : ThrottleCall) (key : String) (s : Store) :
    (c.Creates key s ∧ (c.increment key s).2 key = some ⟨toString (1 : ℤ), c.newDeadline⟩) ∨
    ¬ c.Creates key s ∧ ((c.increment key s).2 key = s key ∨
      ∃ old n, s key = some old ∧ old.value.toInt? = some n ∧ (c.increment key s).2 key
        = some ⟨toString (n + 1), if n + 1 = 1 then c.newDeadline.or old.deadline
            else old.deadline⟩) := by
  rw [increment_store, c.script_eq]
  by_cases hblock : pttl c.now s (throttleBlockKey key) > 0
  · rw [if_pos hblock]
    exact Or.inr ⟨fun h => h.1 hblock, Or.inl rfl⟩
  rw [if_neg hblock, incr]
  cases hlook : lookup c.now s key with
  | none =>
    have hset : Redis.set s key (toString (1 : ℤ)) none key = some ⟨toString (1 : ℤ), none⟩ :=
      Function.update_self _ _ _
    have h := afterIncr_counter c 1 hset rfl
    rw [if_pos rfl, Option.or_none] at h
    exact Or.inl ⟨⟨hblock, hlook⟩, h⟩
  | some e =>
    obtain ⟨he, hlive⟩ := Option.filter_eq_some_iff.1 hlook
    have hnot : ¬ c.Creates key s := fun h => Option.some_ne_none e (hlook.symm.trans h.2)
    refine Or.inr ⟨hnot, ?_⟩
    simp only
    cases hint : e.value.toInt? with
    | none => exact Or.inl rfl
    | some n =>
      exact Or.inr ⟨e, n, he, hint, afterIncr_counter c (n + 1) (Function.update_self _ _ _) hlive⟩

/-- **One call.** It leaves every counter with a deadline exactly when it does not make a
counter under a ttl that Redis does not read. Nothing else that the script does takes a
deadline away. -/
theorem increment_expires_iff (c : ThrottleCall) {key : String} {s : Store}
    (h : CounterExpires key s) :
    CounterExpires key (c.increment key s).2 ↔ (c.Creates key s → c.TtlRead) := by
  rcases increment_counter c key s with ⟨hcreates, hnew⟩ | ⟨hcreates, hsame | ⟨old, n, hold, -, hnew⟩⟩
  · rw [CounterExpires, hnew, ← newDeadline_ne_none]
    exact ⟨fun hall _ => hall _ rfl, fun hread e he => by
      rw [← Option.some.inj he]
      exact hread hcreates⟩
  · rw [CounterExpires, hsame]
    exact ⟨fun _ hc => absurd hc hcreates, fun _ => h⟩
  · refine ⟨fun _ hc => absurd hc hcreates, fun _ e he => ?_⟩
    have hdeadline := h old hold
    rw [hnew] at he
    rw [← Option.some.inj he]
    dsimp only
    split
    · cases c.newDeadline with
      | none => exact hdeadline
      | some d => exact Option.some_ne_none d
    · exact hdeadline

/-- **Deadlines.** Calls on one key with any settings, at any instants, from a
store in which the key's counter, if there is one, has a deadline. After each
call, whether it returned or threw, that is so again, exactly when each call that
makes a counter has a ttl that `PEXPIRE` takes. -/
theorem counter_expires_iff (key : String) (s : Store) (hs : CounterExpires key s)
    (cs : List ThrottleCall) :
    (∀ pre post t, cs = pre ++ post → (throttleMachine key).run pre s = some t →
      CounterExpires key t) ↔
    ∀ pre c post t, cs = pre ++ c :: post → (throttleMachine key).run pre s = some t →
      c.Creates key t → c.TtlRead := by
  have hexact : ∀ s c t, CounterExpires key s → (throttleMachine key).step s c = some t →
      (CounterExpires key t ↔ (c.Creates key s → c.TtlRead)) := by
    intro s c t hs hstep
    rw [← Option.some.inj hstep]
    exact increment_expires_iff c hs
  rw [(throttleMachine key).throughout_iff (fun s c => ⟨_, rfl⟩) hexact hs, StepMachine.meets_iff]

/-- A counter without a deadline goes on counting without one, whatever the later settings
are: `PEXPIRE` is called for the first hit only. Past the limit the caller is then blocked
again at the end of each block. -/
theorem counter_permanent (key : String) (cs : List ThrottleCall) : ∀ {s t : Store} {n : ℤ}, 1 ≤ n →
    s key = some ⟨toString n, none⟩ → (throttleMachine key).run cs s = some t →
    ∃ m, n ≤ m ∧ t key = some ⟨toString m, none⟩ := by
  induction cs with
  | nil =>
    intro s t n _ hs hrun
    rw [StepMachine.run_nil, Option.some.injEq] at hrun
    exact ⟨n, le_refl n, hrun ▸ hs⟩
  | cons c cs ih =>
    intro s t n hn hs hrun
    obtain ⟨s', hstep, hrest⟩ := (throttleMachine key).run_cons_eq_some.1 hrun
    have hs' : ∃ m, n ≤ m ∧ s' key = some ⟨toString m, none⟩ := by
      rw [← Option.some.inj hstep]
      rcases increment_counter c key s with ⟨hcreates, -⟩ | ⟨-, hsame | ⟨old, k, hold, hk, hnew⟩⟩
      · have hgone := hcreates.2
        rw [lookup, hs] at hgone
        cases hgone
      · exact ⟨n, le_refl n, hsame.trans hs⟩
      · rw [hs, Option.some.injEq] at hold
        subst hold
        have hkn : k = n := Option.some.inj (hk.symm.trans (Int.toInt?_repr n))
        rw [if_neg (by omega)] at hnew
        exact ⟨k + 1, by omega, hnew⟩
    obtain ⟨m, hm, hs'⟩ := hs'
    obtain ⟨m', hm', ht⟩ := ih (by omega) hs' hrest
    exact ⟨m', le_trans hm hm', ht⟩

/-- A first call under a ttl of one and a half milliseconds. -/
def unreadCall : ThrottleCall := ⟨0, JsNumber.finite (3 / 2), (5 : ℤ), (60000 : ℤ)⟩

/-- It throws and leaves a counter for ever. -/
theorem counter_without_deadline :
    ¬ ∀ (key : String) (s : Store) (cs : List ThrottleCall), CounterExpires key s →
      ∀ pre post t, cs = pre ++ post → (throttleMachine key).run pre s = some t →
        CounterExpires key t := by
  intro h
  have hexpires := h "k" (fun _ => none) [unreadCall] nofun [unreadCall] [] _ rfl rfl
  exact hexpires ⟨"1", none⟩ (by decide +kernel) rfl

def readCall : ThrottleCall := ⟨0, (10 : ℤ), (5 : ℤ), (60000 : ℤ)⟩

/-- A call under a ttl of ten milliseconds, and one under a ttl that is not read
while the counter lives. -/
theorem counter_expires_iff_two :
    ∃ t, (throttleMachine "k").run [readCall, { unreadCall with now := 3 }] (fun _ => none) = some t ∧
      CounterExpires "k" t := by
  refine ⟨_, rfl, (counter_expires_iff "k" (fun _ => none) nofun
    [readCall, { unreadCall with now := 3 }]).2 ?_ _ [] _ (List.append_nil _).symm rfl⟩
  intro pre c post t hsplit hrun hcreates
  match pre with
  | [] =>
    obtain ⟨rfl, -⟩ := List.cons.inj hsplit
    exact (ttlRead_iff readCall).2 (Or.inr ⟨10, rfl, Or.inr ⟨rfl, by decide⟩⟩)
  | [a] =>
    obtain ⟨rfl, hrest⟩ := List.cons.inj hsplit
    obtain ⟨rfl, -⟩ := List.cons.inj hrest
    -- the second call finds the counter
    rw [← Option.some.inj hrun] at hcreates
    exact absurd hcreates.2 (by decide +kernel)
  | a :: b :: pre => simp at hsplit

end TechTrends
