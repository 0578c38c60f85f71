/-
`RedisService.incrementThrottle`: the throttle script, and its refinement of the
fixed-window limiter.

The script is translated command by command over the two keys, with arguments
that are any JavaScript numbers; a failing command ends it and leaves the writes
before it. For positive integer times the store holds, at each instant between
two calls, a state of `FixedWindow`, and the script's answer is that machine's
answer (`incrementThrottle_refines`). What holds of every run of the limiter
then holds of every sequence of calls.
-/
import TechTrends.FixedWindow
import TechTrends.Redis
import Mathlib

set_option autoImplicit false

namespace TechTrends

open Redis (lookup pttl incr pexpire setPx)

/-- `ThrottleIncrementResult`. -/
structure ThrottleIncrementResult where
  totalHits : ℤ
  ttlRemainingMs : ℤ
  isBlocked : Bool
  blockTtlRemainingMs : ℤ
deriving DecidableEq

/-- `tonumber` of a text that holds a decimal integer. -/
def luaToNumber (text : String) : ℤ := text.toInt?.getD 0

/-- The end of `THROTTLE_INCREMENT_LUA`, after the counter has its deadline. -/
def throttleVerdict (now : ℕ) (s : Store) (counterKey blockKey : String) (totalHits : ℤ)
    (limit block : JsNumber) : Option (List ℤ) × Store :=
  let ttlRemaining := pttl now s counterKey
  if limit.ltInt totalHits then
    match setPx now s blockKey "1" block with
    | none => (none, s)
    | some s' => (some [totalHits, ttlRemaining, 1, block.toInteger.getD 0], s')
  else (some [totalHits, ttlRemaining, 0, 0], s)

/-- The same from `if totalHits == 1` on. `INCR` leaves a key that it makes without a
deadline, and gives 1 for it. -/
def throttleCounted (now : ℕ) (s : Store) (counterKey blockKey : String) (totalHits : ℤ)
    (ttl limit block : JsNumber) : Option (List ℤ) × Store :=
  if totalHits = 1 then
    match pexpire now s counterKey ttl with
    | none => (none, s)
    | some s => throttleVerdict now s counterKey blockKey totalHits limit block
  else throttleVerdict now s counterKey blockKey totalHits limit block

/-- `THROTTLE_INCREMENT_LUA`. The reply is `none` when a command failed, which
ends the script and undoes nothing. -/
def throttleIncrementLua (now : ℕ) (s : Store) (counterKey blockKey : String)
    (ttl limit block : JsNumber) : Option (List ℤ) × Store :=
  let blockTtl := pttl now s blockKey
  if blockTtl > 0 then
    -- a block is reported and not counted
    let currentHits := luaToNumber ((Redis.get now s counterKey).getD "0")
    (some [currentHits, pttl now s counterKey, 1, blockTtl], s)
  else
    match incr now s counterKey with
    | none => (none, s)
    | some (totalHits, s) => throttleCounted now s counterKey blockKey totalHits ttl limit block

/-- The key of the block that goes with a counter. -/
def throttleBlockKey (key : String) : String := key ++ ":block"

/-- `incrementThrottle`: `none` is a rejected promise. -/
def incrementThrottle (now : ℕ) (s : Store) (key : String) (ttlMs limit blockDurationMs : JsNumber) :
    Option ThrottleIncrementResult × Store :=
  match throttleIncrementLua now s key (throttleBlockKey key) ttlMs.maxOne limit
      blockDurationMs.maxOne with
  | (some [hits, ttl, blocked, blockTtl], s) =>
    (some ⟨hits, max 0 ttl, blocked == 1, max 0 blockTtl⟩, s)
  | (_, s) => (none, s)

/-! ## The two keys as a limiter state -/

open FixedWindow (Params State Answer)

/-- The keys of a counter and of its block differ: the second is the first with `:block`
behind it, and so longer. That a counter of one caller can be the block of another is another
matter (`ThrottleIsolation`). -/
theorem throttleBlockKey_ne (key : String) : throttleBlockKey key ≠ key := by
  intro h
  have hlen := congrArg (fun s => s.toList.length) h
  simp [throttleBlockKey] at hlen

/-- The store holds the limiter state `w` under the two keys of `key`. -/
structure Holds (key : String) (w : State) (s : Store) : Prop where
  counter : s key = w.counter.map fun c => ⟨toString (c.1 : ℤ), some c.2⟩
  block : s (throttleBlockKey key) = w.blockedUntil.map fun b => ⟨"1", some b⟩
  hits_pos : ∀ c, w.counter = some c → 1 ≤ c.1

/-- What a command finds under the key of the counter is the counter of the limiter, if it is
alive. Both sides drop it once the clock has passed the deadline. -/
theorem Holds.lookup_counter {key : String} {w : State} {s : Store} (h : Holds key w s)
    (now : ℕ) : lookup now s key
      = (w.alive now).map fun c => (⟨toString (c.1 : ℤ), some c.2⟩ : Entry) := by
  rw [lookup, h.counter, State.alive]
  cases w.counter with
  | none => rfl
  | some c =>
    by_cases hc : now ≤ c.2 <;>
      simp [Option.filter, Entry.live, hc]

/-- `PTTL` of the block is positive exactly while the block is in force. At the deadline the
key is there with 0 left, and after it `PTTL` is -2, so the script's test `blockTtl > 0` fails
from the deadline on. -/
theorem Holds.pttl_block {key : String} {w : State} {s : Store} (h : Holds key w s) (now : ℕ) :
    match w.inForce now with
    | some b => now < b ∧ pttl now s (throttleBlockKey key) = (b : ℤ) - now
    | none => ¬ pttl now s (throttleBlockKey key) > 0 := by
  rw [pttl, lookup, h.block, State.inForce]
  cases w.blockedUntil with
  | none => simp
  | some b =>
    rcases Nat.lt_trichotomy now b with hb | rfl | hb
    · simp [Option.filter, Entry.live, hb, Nat.le_of_lt hb]
    · simp [Option.filter, Entry.live]
    · simp [Option.filter, Entry.live, Nat.not_lt.2 (Nat.le_of_lt hb), Nat.not_le.2 hb]

/-- The answer of the limiter, as the method returns it. -/
def resultOf (a : Answer) : ThrottleIncrementResult :=
  ⟨a.hits, a.remaining, a.blocked, a.blockRemaining⟩

/-- The integer arguments of one throttle key: the times are positive, and such
as Redis reads. -/
structure ThrottleConfig where
  ttlMs : ℕ
  limit : ℕ
  blockDurationMs : ℕ
  ttl_pos : 1 ≤ ttlMs
  block_pos : 1 ≤ blockDurationMs
  ttl_lt : ttlMs < 2 ^ 63
  block_lt : blockDurationMs < 2 ^ 63

/-- The limiter a configuration describes. -/
def ThrottleConfig.params (c : ThrottleConfig) : Params := ⟨c.limit, c.ttlMs, c.blockDurationMs⟩

/-- One call with integer arguments. -/
def ThrottleConfig.increment (c : ThrottleConfig) (key : String) (now : ℕ) (s : Store) :
    Option ThrottleIncrementResult × Store :=
  incrementThrottle now s key (c.ttlMs : ℤ) (c.limit : ℤ) (c.blockDurationMs : ℤ)

/-! ## Refinement -/

/-- `PTTL` of the counter that is alive. -/
theorem Holds.pttl_counter {key : String} {w : State} {s : Store} (h : Holds key w s)
    {now hits d : ℕ} (ha : w.alive now = some (hits, d)) :
    pttl now s key = (d : ℤ) - now := by
  rw [pttl, h.lookup_counter now, ha]
  rfl

/-- `GET` of the counter, or nothing when it has run out while the block goes on. The script
then reports `'0'` hits. -/
theorem get_counter {key : String} {w : State} {s : Store} (h : Holds key w s) (now : ℕ) :
    Redis.get now s key = (w.alive now).map fun c => toString (c.1 : ℤ) := by
  rw [Redis.get, h.lookup_counter now, Option.map_map]
  rfl

theorem luaToNumber_toString (n : ℤ) : luaToNumber (toString n) = n := by
  rw [luaToNumber]
  show (n.repr.toInt?).getD 0 = n
  rw [Int.toInt?_repr, Option.getD_some]

/-- The number that stands in for an absent counter. -/
theorem luaToNumber_zero : luaToNumber "0" = 0 := luaToNumber_toString 0

/-- A store update of the counter key leaves the block key alone. -/
theorem Holds.set_counter {key : String} {w : State} {s : Store} (h : Holds key w s)
    (hits d : ℕ) (hpos : 1 ≤ hits) : Holds key ⟨some (hits, d), w.blockedUntil⟩
      (Redis.set s key (toString (hits : ℤ)) (some d)) where
  counter := by rw [Redis.set, Function.update_self]; rfl
  block := by
    rw [Redis.set, Function.update_of_ne (throttleBlockKey_ne key)]
    exact h.block
  hits_pos := by rintro c ⟨⟩; exact hpos

theorem Holds.set_block {key : String} {w : State} {s : Store} (h : Holds key w s) (b : ℕ) :
    Holds key ⟨w.counter, some b⟩ (Redis.set s (throttleBlockKey key) "1" (some b)) where
  counter := by
    rw [Redis.set, Function.update_of_ne (throttleBlockKey_ne key).symm]
    exact h.counter
  block := by rw [Redis.set, Function.update_self]; rfl
  hits_pos := h.hits_pos

/-- The end of the script, with the counter of the state already written. It asks `PTTL` for
the counter before it writes the block, and answers the length of the block that it starts
rather than asking for it. -/
theorem throttleVerdict_refines (c : ThrottleConfig) {key : String} {w : State} {s : Store}
    {now hits d : ℕ} (h : Holds key ⟨some (hits, d), w.blockedUntil⟩ s) (hd : now ≤ d) :
    let verdict := throttleVerdict now s key (throttleBlockKey key) hits (c.limit : ℤ)
      (c.blockDurationMs : ℤ)
    let blocked := decide (c.limit < hits)
    verdict.1 = some [(hits : ℤ), (d : ℤ) - now, if blocked then 1 else 0,
        if blocked then c.blockDurationMs else 0] ∧
      Holds key ⟨some (hits, d), if c.limit < hits then some (now + c.blockDurationMs)
        else w.blockedUntil⟩ verdict.2 := by
  have hpttl : pttl now s key = (d : ℤ) - now :=
    h.pttl_counter (FixedWindow.alive_eq_some.2 ⟨rfl, hd⟩)
  have hpos : (0 : ℤ) < c.blockDurationMs := by have := c.block_pos; omega
  have hread := JsNumber.toInteger_ofNat c.block_lt
  have hlt : JsNumber.ltInt ((c.limit : ℤ) : JsNumber) hits = decide (c.limit < hits) := by
    rw [JsNumber.ltInt_ofInt]
    exact decide_eq_decide.2 Int.ofNat_lt
  rw [throttleVerdict, hlt, hpttl]
  by_cases hl : c.limit < hits
  · have hset : setPx now s (throttleBlockKey key) "1" ((c.blockDurationMs : ℤ) : JsNumber)
        = some (Redis.set s (throttleBlockKey key) "1" (some (now + c.blockDurationMs))) := by
      rw [setPx, hread, Option.bind_some, if_pos hpos, Int.toNat_natCast]
    simp only [hl, decide_true, if_true, hset, hread, Option.getD_some]
    exact ⟨trivial, h.set_block _⟩
  · simp only [hl, decide_false, if_false, Bool.false_eq_true]
    exact ⟨trivial, h⟩

/-- With no block in force the script counts: it reaches its end with the hits and the
deadline of the limiter's counter written. A new counter has its deadline from `PEXPIRE`, in
the same script run, so no other command sees it without one. -/
theorem throttleIncrementLua_counted (c : ThrottleConfig) {key : String} {w : State} {s : Store}
    (h : Holds key w s) {now : ℕ} (hb : w.inForce now = none) (limit block : JsNumber) :
    ∃ s', throttleIncrementLua now s key (throttleBlockKey key) (c.ttlMs : ℤ) limit block
        = throttleVerdict now s' key (throttleBlockKey key) ((w.hit c.params now).1 : ℤ) limit block
      ∧ now ≤ (w.hit c.params now).2
      ∧ Holds key ⟨some ((w.hit c.params now).1, (w.hit c.params now).2), w.blockedUntil⟩ s' := by
  have hblock := h.pttl_block now
  rw [hb] at hblock
  rw [throttleIncrementLua, if_neg hblock, incr, h.lookup_counter now, State.hit]
  cases ha : w.alive now with
  | none =>
    -- the counter is created by INCR and given its deadline by PEXPIRE
    have hexp : pexpire now (Redis.set s key (toString (1 : ℤ)) none) key ((c.ttlMs : ℤ) : JsNumber)
        = some (Redis.set s key (toString (1 : ℤ)) (some (now + c.ttlMs))) := by
      have hpos : ¬ (c.ttlMs : ℤ) ≤ 0 := by have := c.ttl_pos; omega
      rw [pexpire, JsNumber.toInteger_ofNat c.ttl_lt, Option.map_some, Redis.lookup_set_self]
      simp only [Option.filter, Entry.live, if_true, if_neg hpos, Int.toNat_natCast]
      rw [Redis.set, Redis.set, Redis.set, Function.update_idem]
    refine ⟨Redis.set s key (toString (1 : ℤ)) (some (now + c.ttlMs)), ?_, Nat.le_add_right _ _,
      h.set_counter 1 (now + c.ttlMs) (Nat.le_refl 1)⟩
    simp only [Option.map_none, throttleCounted, if_true, hexp]
    rfl
  | some x =>
    obtain ⟨hits, d⟩ := x
    obtain ⟨hcounter, hd⟩ := FixedWindow.alive_eq_some.1 ha
    have hpos : 1 ≤ hits := h.hits_pos _ hcounter
    have hread : (toString (hits : ℤ)).toInt? = some (hits : ℤ) := Int.toInt?_repr _
    have hone : ¬ ((hits : ℤ) + 1 = 1) := by omega
    -- `INCR` keeps the deadline of the counter
    refine ⟨Redis.set s key (toString ((hits : ℤ) + 1)) (some d), ?_, hd, ?_⟩
    · simp only [Option.map_some, hread, throttleCounted, if_neg hone]
      push_cast
      rfl
    · exact_mod_cast h.set_counter (hits + 1) d (by omega)

/-- The script is given the times as they are. -/
theorem ThrottleConfig.increment_eq (c : ThrottleConfig) (key : String) (now : ℕ) (s : Store) :
    c.increment key now s =
      match throttleIncrementLua now s key (throttleBlockKey key) ((c.ttlMs : ℤ) : JsNumber)
          (c.limit : ℤ) ((c.blockDurationMs : ℤ) : JsNumber) with
      | (some [hits, ttl, blocked, blockTtl], s) =>
        (some ⟨hits, max 0 ttl, blocked == 1, max 0 blockTtl⟩, s)
      | (_, s) => (none, s) := by
  have httl : JsNumber.maxOne ((c.ttlMs : ℤ) : JsNumber) = ((c.ttlMs : ℤ) : JsNumber) :=
    JsNumber.maxOne_ofInt (by exact_mod_cast c.ttl_pos)
  have hblk : JsNumber.maxOne ((c.blockDurationMs : ℤ) : JsNumber)
      = ((c.blockDurationMs : ℤ) : JsNumber) :=
    JsNumber.maxOne_ofInt (by exact_mod_cast c.block_pos)
  rw [ThrottleConfig.increment, incrementThrottle, httl, hblk]

/-- While a block is in force nothing is counted and nothing is written. The answer tells the
hits of the counter, if it is still there, next to the time that the block has left. -/
theorem increment_refines_inForce (c : ThrottleConfig) {key : String} {w : State} {s : Store}
    (h : Holds key w s) {now b : ℕ} (hb : w.inForce now = some b) :
    (c.increment key now s).1 = some (resultOf (FixedWindow.step c.params now w).1) ∧
      Holds key (FixedWindow.step c.params now w).2 (c.increment key now s).2 := by
  have hblock := h.pttl_block now
  rw [hb] at hblock
  obtain ⟨hlt, hpttl⟩ := hblock
  have hpos : (0 : ℤ) < (b : ℤ) - now := by omega
  have hpos' : max 0 ((b : ℤ) - now) = ((b - now : ℕ) : ℤ) := by omega
  rw [c.increment_eq, throttleIncrementLua, FixedWindow.step, hb, hpttl]
  simp only [gt_iff_lt, hpos, if_true]
  rw [get_counter h, pttl, h.lookup_counter now]
  cases ha : w.alive now with
  | none =>
    refine ⟨?_, h⟩
    simp only [Option.map_none, Option.getD_none, luaToNumber_zero, resultOf, hpos']
    rfl
  | some x =>
    obtain ⟨hits, d⟩ := x
    have hd : now ≤ d := (FixedWindow.alive_eq_some.1 ha).2
    have hmax : max 0 ((d : ℤ) - now) = ((d - now : ℕ) : ℤ) := by omega
    refine ⟨?_, h⟩
    simp only [Option.map_some, Option.getD_some, luaToNumber_toString, resultOf, hpos', hmax]
    rfl

/-- With no block in force the hit is counted, and then compared with the limit. This is both
cases of the limiter at once, since the script's end decides between them on the number of
hits. -/
theorem increment_refines_counted (c : ThrottleConfig) {key : String} {w : State} {s : Store}
    (h : Holds key w s) {now : ℕ} (hb : w.inForce now = none) :
    (c.increment key now s).1 = some (resultOf (FixedWindow.step c.params now w).1) ∧
      Holds key (FixedWindow.step c.params now w).2 (c.increment key now s).2 := by
  obtain ⟨s', hscript, hd, hs'⟩ :=
    throttleIncrementLua_counted c h hb (c.limit : ℤ) (c.blockDurationMs : ℤ)
  rw [c.increment_eq, hscript, FixedWindow.step, hb]
  generalize w.hit c.params now = x at hd hs'
  obtain ⟨hits, d⟩ := x
  obtain ⟨hverdict, hholds⟩ := throttleVerdict_refines c hs' hd
  dsimp only at hd hs' hverdict hholds ⊢
  generalize throttleVerdict now s' key (throttleBlockKey key) (hits : ℤ)
    (c.limit : ℤ) (c.blockDurationMs : ℤ) = verdict at hverdict hholds ⊢
  obtain ⟨reply, s''⟩ := verdict
  dsimp only at hverdict hholds
  subst hverdict
  have hmax : max 0 ((d : ℤ) - now) = ((d - now : ℕ) : ℤ) := by omega
  have hparams : c.params.limit = c.limit := rfl
  by_cases hl : c.limit < hits
  · rw [if_pos hl] at hholds
    rw [hparams, if_pos hl]
    refine ⟨?_, hholds⟩
    have hblockmax : max 0 (c.blockDurationMs : ℤ) = c.blockDurationMs := max_eq_right (by omega)
    simp only [resultOf, hmax, hl, decide_true, if_true, hblockmax]
    rfl
  · rw [if_neg hl] at hholds
    rw [hparams, if_neg hl]
    refine ⟨?_, hholds⟩
    simp only [resultOf, hmax, hl, decide_false, Bool.false_eq_true, if_false]
    rfl

/-- **Refinement.** With positive integer times, one call answers as the limiter does and
leaves a store that holds the limiter's next state. `Math.max` with 0 and 1 around the times
and the answers changes nothing here. -/
theorem increment_refines (c : ThrottleConfig) {key : String} {w : State} {s : Store}
    (h : Holds key w s) (now : ℕ) :
    (c.increment key now s).1 = some (resultOf (FixedWindow.step c.params now w).1) ∧
      Holds key (FixedWindow.step c.params now w).2 (c.increment key now s).2 := by
  cases hb : w.inForce now with
  | some b => exact increment_refines_inForce c h hb
  | none => exact increment_refines_counted c h hb

/-! ## Sequences of calls -/

/-- The results of calls at the instants `ts`, and the store after them. -/
def ThrottleConfig.calls (c : ThrottleConfig) (key : String) :
    List ℕ → Store → List (Option ThrottleIncrementResult) × Store
  | [], s => ([], s)
  | t :: ts, s =>
    let (r, s) := c.increment key t s
    let (rs, s) := c.calls key ts s
    (r :: rs, s)

/-- A sequence of calls answers as the limiter's run does. From here on statements about runs
of the throttle are statements about `FixedWindow`, and are proved there. -/
theorem calls_refines (c : ThrottleConfig) {key : String} (ts : List ℕ) :
    ∀ {w : State} {s : Store}, Holds key w s →
      (c.calls key ts s).1 = (FixedWindow.answers c.params ts w).map (fun a => some (resultOf a)) ∧
        Holds key (FixedWindow.after c.params ts w) (c.calls key ts s).2 := by
  induction ts with
  | nil => exact fun h => ⟨rfl, h⟩
  | cons t ts ih =>
    intro w s h
    obtain ⟨hanswer, hnext⟩ := increment_refines c h t
    obtain ⟨hrest, hlast⟩ := ih hnext
    refine ⟨?_, hlast⟩
    rw [ThrottleConfig.calls, FixedWindow.answers, List.map_cons, ← hanswer, ← hrest]

/-- Neither key of `key` exists. -/
structure Unused (key : String) (s : Store) : Prop where
  counter : s key = none
  block : s (throttleBlockKey key) = none

theorem Unused.holds {key : String} {s : Store} (h : Unused key s) : Holds key ⟨none, none⟩ s where
  counter := h.counter
  block := h.block
  hits_pos := nofun

/-- How many calls are allowed at an instant in `[a, b)`. -/
def allowedIn (a b : ℕ) (ts : List ℕ) (rs : List (Option ThrottleIncrementResult)) : ℕ :=
  (ts.zip rs).countP fun x =>
    decide (a ≤ x.1) && decide (x.1 < b) && x.2.any fun r => !r.isBlocked

theorem Holds.lookup_isSome {key : String} {w : State} {s : Store} (h : Holds key w s) (t : ℕ) :
    (lookup t s key).isSome = (w.alive t).isSome := by
  rw [h.lookup_counter t, Option.isSome_map]

/-- A call that creates the counter meets no block, and gives the counter one span to live. A
call that meets a block writes nothing, so a counter that is new after a call was made by it. -/
theorem created (p : Params) {w : State} {t₀ : ℕ} (hnew : w.alive t₀ = none)
    (hmade : ((FixedWindow.step p t₀ w).2.alive t₀).isSome) :
    w.inForce t₀ = none ∧ (FixedWindow.step p t₀ w).2.counter = some (1, t₀ + p.span) := by
  cases hb : w.inForce t₀ with
  | some b =>
    rw [(FixedWindow.step_inForce p hb).2, hnew] at hmade
    exact absurd hmade (by decide)
  | none =>
    have hhit : w.hit p t₀ = (1, t₀ + p.span) := by rw [State.hit, hnew]
    exact ⟨rfl, by rw [(FixedWindow.step_counted p hb hhit).2.2]⟩

/-- Allowed calls are counted over answers of the method; the limiter counts its own. -/
theorem allowedIn_eq (a b : ℕ) (ts : List ℕ) (as : List Answer) :
    allowedIn a b ts (as.map fun x => some (resultOf x)) = FixedWindow.admittedIn a b ts as := by
  rw [allowedIn, FixedWindow.admittedIn, List.zip_map_right, List.countP_map]
  rfl

/-- **Rate limiting.** Calls on one key at non-decreasing instants, from a store
without its two keys. The call at `t₀` creates the counter and the calls `life`
are made while that counter exists: the first `limit` of them are allowed and
numbered from 1, the later ones are blocked. And in a half-open window as long
as the ttl at most `2 * limit` calls are allowed. -/
theorem incrementThrottle_limits (c : ThrottleConfig) (key : String) (s : Store)
    (hs : Unused key s) (ts : List ℕ) (hsorted : ts.Pairwise (· ≤ ·)) :
    (∀ pre t₀ life post, ts = pre ++ (t₀ :: life ++ post) →
      lookup t₀ (c.calls key pre s).2 key = none →
      (∀ t ∈ t₀ :: life, (lookup t (c.calls key (pre ++ [t₀]) s).2 key).isSome) →
      ∀ i r, (c.calls key ts s).1[pre.length + i]? = some r → i < life.length + 1 →
        ∃ res, r = some res ∧
          (i < c.limit → res.isBlocked = false ∧ res.totalHits = i + 1) ∧
          (c.limit ≤ i → res.isBlocked = true)) ∧
    ∀ a, allowedIn a (a + c.ttlMs) ts (c.calls key ts s).1 ≤ 2 * c.limit := by
  have hrun := calls_refines c ts hs.holds
  refine ⟨?_, ?_⟩
  · intro pre t₀ life post hts hgone hlife i r hr hi
    have hpre := (calls_refines c pre hs.holds).2
    have hmade := (calls_refines c (pre ++ [t₀]) hs.holds).2
    -- `w` is the limiter after the calls before `t₀`
    generalize hw : FixedWindow.after c.params pre ⟨none, none⟩ = w at hpre
    rw [FixedWindow.after_append, hw] at hmade
    have hnew : w.alive t₀ = none := by
      have h := hpre.lookup_isSome t₀
      rw [hgone] at h
      exact Option.isSome_eq_false_iff.1 h.symm |> Option.isNone_iff_eq_none.1
    have halive : ∀ t ∈ t₀ :: life, ((FixedWindow.step c.params t₀ w).2.alive t).isSome :=
      fun t ht => by rw [← hlife t ht]; exact (hmade.lookup_isSome t).symm
    obtain ⟨hblock, hcounter⟩ := created c.params hnew (halive t₀ List.mem_cons_self)
    have hspan : ∀ t ∈ life, t ≤ t₀ + c.params.span := by
      intro t ht
      have h := halive t (List.mem_cons_of_mem t₀ ht)
      rw [State.alive, hcounter, Option.isSome_filter] at h
      simpa using h
    have hlater : ∀ t ∈ life, t₀ ≤ t := by
      rw [hts, List.pairwise_append] at hsorted
      have := (List.pairwise_append.1 hsorted.2.1).1
      exact fun t ht => List.rel_of_pairwise_cons this ht
    -- position `i` of the lifetime is position `pre.length + i` of the run
    rw [hrun.1, hts, FixedWindow.answers_append, FixedWindow.answers_append, hw,
      List.getElem?_map, List.getElem?_append_right (by simp), FixedWindow.answers_length,
      Nat.add_sub_cancel_left, List.getElem?_append_left (by simpa using hi)] at hr
    obtain ⟨a, ha, rfl⟩ := Option.map_eq_some_iff.1 hr
    obtain ⟨hbelow, habove⟩ :=
      FixedWindow.answers_lifetime c.params w t₀ life hblock hnew hlater hspan i a ha
    refine ⟨resultOf a, rfl, fun h => ⟨(hbelow h).1, ?_⟩, habove⟩
    show (a.hits : ℤ) = i + 1
    rw [(hbelow h).2]
    push_cast
    rfl
  · intro a
    rw [hrun.1, allowedIn_eq]
    exact FixedWindow.admitted_window c.params _ ts hsorted a

/-- One call per ten milliseconds, and a block of five after it. -/
def ThrottleConfig.onePerTen : ThrottleConfig where
  ttlMs := 10
  limit := 1
  blockDurationMs := 5
  ttl_pos := by decide
  block_pos := by decide
  ttl_lt := by decide
  block_lt := by decide

/-- The second call of the lifetime is blocked, and the call after the lifetime
starts the next one. -/
theorem incrementThrottle_limits_one :
    (∃ res, (ThrottleConfig.onePerTen.calls "k" [0, 3, 12] (fun _ => none)).1[1]? = some (some res)
        ∧ res.isBlocked = true) ∧
      allowedIn 3 13 [0, 3, 12]
        (ThrottleConfig.onePerTen.calls "k" [0, 3, 12] (fun _ => none)).1 ≤ 2 := by
  have hlimits := incrementThrottle_limits ThrottleConfig.onePerTen "k" (fun _ => none)
    ⟨rfl, rfl⟩ [0, 3, 12] (by decide)
  obtain ⟨res, hres, -, hblocked⟩ := hlimits.1 [] 0 [3] [12] rfl (by decide) (by decide) 1 _ rfl
    (by decide)
  exact ⟨⟨res, by rw [← hres]; rfl, hblocked (by decide)⟩, hlimits.2 3⟩

end TechTrends
