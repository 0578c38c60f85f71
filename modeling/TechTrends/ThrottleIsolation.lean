/-
Throttle keys, and the isolation of one client's limit from another's.

A limit belongs to a controller, a handler and a tracker, the client's address.
`createRedisThrottleKey` joins them with colons, and the key of the block is the
counter's key with `:block` behind it. A call depends on these two keys and
writes no other, so clients whose keys all differ do not see each other. Keys
meet when one tracker is the other with `:block` behind it (`isolated_iff`).
-/
import TechTrends.Footprint
import TechTrends.ThrottleDeadlines

set_option autoImplicit false

namespace TechTrends

open Redis (lookup pttl incr pexpire setPx)
open Footprint (Agree Within Leaves)
open JsString (Units utf16 toWellFormed)

/-! ## The keys of a call -/

/-- The keys of a counter and of its block. -/
def throttleKeys (key : String) : Set String := {key, throttleBlockKey key}

theorem lookup_congr {s t : Store} {key : String} (now : ℕ) (h : s key = t key) :
    lookup now s key = lookup now t key := by
  rw [lookup, lookup, h]

theorem pttl_congr {s t : Store} {key : String} (now : ℕ) (h : s key = t key) :
    pttl now s key = pttl now t key := by
  rw [pttl, pttl, lookup_congr now h]

/-- The same write on stores that agree on some keys leaves them in agreement there, whether
or not the key is one of these. -/
theorem agree_set {K : Set String} {s t : Store} (h : Agree K s t) (key value : String)
    (deadline : Option ℕ) : Agree K (Redis.set s key value deadline) (Redis.set t key value deadline) := by
  intro k hk
  rw [Redis.set, Redis.set, Function.update_apply, Function.update_apply, h k hk]

theorem set_leaves {K : Set String} {key : String} (s : Store) (value : String) (deadline : Option ℕ)
    (hkey : key ∉ K) : Agree K (Redis.set s key value deadline) s := by
  intro k hk
  have hne : k ≠ key := fun h => hkey (h ▸ hk)
  rw [Redis.set, Function.update_of_ne hne]

/-- `SET … PX` is a `SET` or fails, by its argument alone. So two runs of the script on
different stores fail together, or write the same entry. -/
theorem setPx_eq (now : ℕ) (key value : String) (ttl : JsNumber) :
    (∀ s, setPx now s key value ttl = none) ∨
      ∃ d, ∀ s, setPx now s key value ttl = some (Redis.set s key value d) := by
  cases h : ttl.toInteger with
  | none => exact Or.inl fun s => by rw [setPx, h]; rfl
  | some n =>
    by_cases hn : 0 < n
    · exact Or.inr ⟨_, fun s => by rw [setPx, h, Option.bind_some, if_pos hn]⟩
    · exact Or.inl fun s => by rw [setPx, h, Option.bind_some, if_neg hn]

/-- The end of the script, on stores that agree on the two keys. It reads the remaining time
of the counter and may write the block, and its reply is made of these. -/
theorem throttleVerdict_within (now : ℕ) (key : String) (hits : ℤ) (limit block : JsNumber) :
    Within (throttleKeys key) fun s =>
      throttleVerdict now s key (throttleBlockKey key) hits limit block := by
  intro s t h
  have hkey : s key = t key := h key (Or.inl rfl)
  simp only [throttleVerdict, pttl_congr now hkey]
  split
  · rcases setPx_eq now (throttleBlockKey key) "1" block with hset | ⟨d, hset⟩
    · rw [hset, hset]
      exact ⟨rfl, h⟩
    · rw [hset, hset]
      exact ⟨rfl, agree_set h _ _ _⟩
  · exact ⟨rfl, h⟩

theorem throttleVerdict_leaves (now : ℕ) {key : String} {K : Set String}
    (hblock : throttleBlockKey key ∉ K) (hits : ℤ) (limit block : JsNumber) :
    Leaves K fun s => throttleVerdict now s key (throttleBlockKey key) hits limit block := by
  intro s
  simp only [throttleVerdict]
  split
  · rcases setPx_eq now (throttleBlockKey key) "1" block with hset | ⟨d, hset⟩
    · rw [hset]
      exact Agree.refl K s
    · rw [hset]
      exact set_leaves s _ _ hblock
  · exact Agree.refl K s

/-- From the first hit on, where `PEXPIRE` may write the counter, the script keeps to its two
keys. -/
theorem afterIncr_within (c : ThrottleCall) (key : String) (hits : ℤ) :
    Within (throttleKeys key) (c.afterIncr key hits) := by
  intro s t h
  have hlook : lookup c.now s key = lookup c.now t key := lookup_congr c.now (h key (Or.inl rfl))
  rw [ThrottleCall.afterIncr, ThrottleCall.afterIncr, throttleCounted, throttleCounted, pexpire,
    pexpire, hlook]
  split
  · cases hread : c.ttlMs.maxOne.toInteger with
    | none => exact ⟨rfl, h⟩
    | some n =>
      have hn : ¬ n ≤ 0 := not_le.2 (maxOne_toInteger_pos hread)
      simp only [Option.map_some, if_neg hn]
      apply throttleVerdict_within
      cases lookup c.now t key with
      | none => exact h
      | some e => exact agree_set h _ _ _
  · exact throttleVerdict_within c.now key hits c.limit c.blockDurationMs.maxOne s t h

/-- The two keys of the client are all that the script writes from the first hit on. -/
theorem afterIncr_leaves (c : ThrottleCall) {key : String} {K : Set String} (hkey : key ∉ K)
    (hblock : throttleBlockKey key ∉ K) (hits : ℤ) : Leaves K (c.afterIncr key hits) := by
  intro s
  rw [ThrottleCall.afterIncr, throttleCounted, pexpire]
  split
  · cases hread : c.ttlMs.maxOne.toInteger with
    | none => exact Agree.refl K s
    | some n =>
      have hn : ¬ n ≤ 0 := not_le.2 (maxOne_toInteger_pos hread)
      simp only [Option.map_some, if_neg hn]
      refine (throttleVerdict_leaves c.now hblock hits c.limit c.blockDurationMs.maxOne _).trans ?_
      cases lookup c.now s key with
      | none => exact Agree.refl K s
      | some e => exact set_leaves s _ _ hkey
  · exact throttleVerdict_leaves c.now hblock hits c.limit c.blockDurationMs.maxOne s

/-- The whole script looks at its two keys only: `KEYS[1]` is the counter and `KEYS[2]` its
block, and every `redis.call` in it names one of them. -/
theorem script_within (c : ThrottleCall) (key : String) :
    Within (throttleKeys key) (c.script key) := by
  intro s t h
  have hkey : s key = t key := h key (Or.inl rfl)
  have hblock : s (throttleBlockKey key) = t (throttleBlockKey key) := h _ (Or.inr rfl)
  have hget : Redis.get c.now s key = Redis.get c.now t key := by
    rw [Redis.get, Redis.get, lookup_congr c.now hkey]
  rw [c.script_eq, c.script_eq, pttl_congr c.now hblock, pttl_congr c.now hkey, hget]
  split
  · exact ⟨rfl, h⟩
  · rw [incr, incr, lookup_congr c.now hkey]
    cases lookup c.now t key with
    | none => exact afterIncr_within c key 1 _ _ (agree_set h _ _ _)
    | some e =>
      simp only
      cases e.value.toInt? with
      | none => exact ⟨rfl, h⟩
      | some n => exact afterIncr_within c key (n + 1) _ _ (agree_set h _ _ _)

/-- It writes no other key. A block writes nothing at all. -/
theorem script_leaves (c : ThrottleCall) {key : String} {K : Set String} (hkey : key ∉ K)
    (hblock : throttleBlockKey key ∉ K) : Leaves K (c.script key) := by
  intro s
  rw [c.script_eq]
  split
  · exact Agree.refl K s
  · rw [incr]
    cases lookup c.now s key with
    | none => exact (afterIncr_leaves c hkey hblock 1 _).trans (set_leaves s _ _ hkey)
    | some e =>
      simp only
      cases e.value.toInt? with
      | none => exact Agree.refl K s
      | some n => exact (afterIncr_leaves c hkey hblock (n + 1) _).trans (set_leaves s _ _ hkey)

/-- What the method returns is read off the script's reply. -/
theorem increment_answer (c : ThrottleCall) {key : String} {s t : Store}
    (h : (c.script key s).1 = (c.script key t).1) :
    (c.increment key s).1 = (c.increment key t).1 := by
  rw [ThrottleCall.script, ThrottleCall.script] at h
  rw [ThrottleCall.increment, ThrottleCall.increment, incrementThrottle, incrementThrottle]
  generalize throttleIncrementLua c.now s key (throttleBlockKey key) c.ttlMs.maxOne c.limit
    c.blockDurationMs.maxOne = x at h
  generalize throttleIncrementLua c.now t key (throttleBlockKey key) c.ttlMs.maxOne c.limit
    c.blockDurationMs.maxOne = y at h
  obtain ⟨reply, s'⟩ := x
  obtain ⟨reply', t'⟩ := y
  obtain rfl : reply = reply' := h
  -- a reply is an error, four numbers, or what the script never sends
  rcases reply with _ | _ | ⟨hits, _ | ⟨ttl, _ | ⟨blocked, _ | ⟨blockTtl, _ | _⟩⟩⟩⟩ <;> rfl

/-- A call depends on its two keys. -/
theorem increment_within (c : ThrottleCall) (key : String) :
    Within (throttleKeys key) (c.increment key) := by
  intro s t h
  obtain ⟨hanswer, hstore⟩ := script_within c key s t h
  rw [increment_store, increment_store]
  exact ⟨increment_answer c hanswer, hstore⟩

/-- A call leaves all other keys alone, also when it throws: the writes of the script before
the command that failed are to the same two keys. -/
theorem increment_leaves (c : ThrottleCall) {key : String} {K : Set String} (hkey : key ∉ K)
    (hblock : throttleBlockKey key ∉ K) : Leaves K (c.increment key) := by
  intro s
  rw [increment_store]
  exact script_leaves c hkey hblock s

/-! ## Building a key -/

/-- `getRedisThrottleTracker`: the first 64 units of `req.ip`, `none` when that is
no string. -/
def getRedisThrottleTracker (ip : Option Units) : Units := (ip.getD (utf16 "unknown")).take 64

/-- `createRedisThrottleKey`. -/
def createRedisThrottleKey (controller handler tracker throttlerName : Units) : Units :=
  utf16 "throttle:v1" ++ utf16 ":" ++ throttlerName ++ utf16 ":" ++ controller ++ utf16 ":" ++ handler
    ++ utf16 ":" ++ tracker

/-- The key as Redis receives it. -/
def sentKey (key : Units) : String := String.ofList (toWellFormed key)

/-- Whose limit a call counts against: the names of the route, free of colons,
and the address of the client. -/
structure ThrottleTarget where
  controller : Units
  handler : Units
  ip : Option Units
  controller_free : JsString.unit ':' ∉ controller
  handler_free : JsString.unit ':' ∉ handler

namespace ThrottleTarget

def tracker (a : ThrottleTarget) : Units := getRedisThrottleTracker a.ip

/-- The key of the counter, under the one throttler of the application. -/
def key (a : ThrottleTarget) : String :=
  sentKey (createRedisThrottleKey a.controller a.handler a.tracker (utf16 "global"))

/-- The keys of two targets meet: the names are sent as the same text, and the
trackers as the same text or as one with `:block` behind the other. -/
def Meets (a b : ThrottleTarget) : Prop :=
  toWellFormed a.controller = toWellFormed b.controller ∧
  toWellFormed a.handler = toWellFormed b.handler ∧
  (toWellFormed a.tracker = toWellFormed b.tracker ∨
    toWellFormed a.tracker = toWellFormed b.tracker ++ ":block".toList ∨
    toWellFormed b.tracker = toWellFormed a.tracker ++ ":block".toList)

instance (a b : ThrottleTarget) : Decidable (a.Meets b) :=
  inferInstanceAs (Decidable (_ ∧ _ ∧ (_ ∨ _ ∨ _)))

end ThrottleTarget

/-- The colon cuts a sent text. A half of a surrogate pair before it and one behind it do not
join across it, so each part is encoded by itself. -/
theorem toWellFormed_colon (us vs : Units) :
    toWellFormed (us ++ utf16 ":" ++ vs) = toWellFormed us ++ ':' :: toWellFormed vs := by
  have hcolon : utf16 ":" ++ vs = JsString.unit ':' :: vs := rfl
  rw [List.append_assoc, hcolon, JsString.toWellFormed_append rfl, ← hcolon,
    JsString.toWellFormed_utf16_append]
  rfl

/-- The key as Redis receives it: the prefix, the name of the throttler, and the three parts
with a colon in front of each. -/
theorem key_toList (a : ThrottleTarget) : a.key.toList = "throttle:v1:global:".toList
    ++ (toWellFormed a.controller ++ ':' :: (toWellFormed a.handler ++ ':' :: toWellFormed a.tracker)) := by
  rw [ThrottleTarget.key, sentKey, String.toList_ofList, createRedisThrottleKey]
  rw [toWellFormed_colon, toWellFormed_colon, toWellFormed_colon, toWellFormed_colon,
    JsString.toWellFormed_utf16, JsString.toWellFormed_utf16]
  simp

theorem blockKey_toList (key : String) :
    (throttleBlockKey key).toList = key.toList ++ ":block".toList := by
  rw [throttleBlockKey, String.toList_append]

/-- Encoding a text as UTF-8 makes no colon where there was none. A lone half of a surrogate
pair becomes U+FFFD. -/
theorem colon_notMem {us : Units} (h : JsString.unit ':' ∉ us) : ':' ∉ toWellFormed us :=
  fun hmem => h (JsString.mem_toWellFormed (by decide) hmem)

/-- The three parts of a key, with something behind it, are read back. Names of controllers
and handlers are identifiers, which have no colon; the tracker is the last part and may have
any. -/
theorem key_append_inj (a b : ThrottleTarget) (x y : List Char) :
    a.key.toList ++ x = b.key.toList ++ y ↔
      toWellFormed a.controller = toWellFormed b.controller ∧
      toWellFormed a.handler = toWellFormed b.handler ∧
      toWellFormed a.tracker ++ x = toWellFormed b.tracker ++ y := by
  rw [key_toList, key_toList]
  simp only [List.append_assoc, List.cons_append]
  rw [List.append_right_inj,
    JsString.append_cons_inj (colon_notMem a.controller_free) (colon_notMem b.controller_free),
    JsString.append_cons_inj (colon_notMem a.handler_free) (colon_notMem b.handler_free)]

/-- Two keys of two targets are the same in the cases of `Meets`. The block of one cannot be
the block of the other unless the counters are the same as well, so three cases are enough. -/
theorem meets_iff_keys (a b : ThrottleTarget) :
    a.Meets b ↔ a.key = b.key ∨ a.key = throttleBlockKey b.key ∨ throttleBlockKey a.key = b.key := by
  have hsame := key_append_inj a b [] []
  have hleft := key_append_inj a b [] ":block".toList
  have hright := key_append_inj a b ":block".toList []
  simp only [List.append_nil] at hsame hleft hright
  rw [← String.toList_inj, ← String.toList_inj, ← String.toList_inj, blockKey_toList,
    blockKey_toList, hsame, hleft, hright, ThrottleTarget.Meets]
  constructor
  · rintro ⟨hc, hh, ht | ht | ht⟩
    · exact Or.inl ⟨hc, hh, ht⟩
    · exact Or.inr (Or.inl ⟨hc, hh, ht⟩)
    · exact Or.inr (Or.inr ⟨hc, hh, ht.symm⟩)
  · rintro (⟨hc, hh, ht⟩ | ⟨hc, hh, ht⟩ | ⟨hc, hh, ht⟩)
    · exact ⟨hc, hh, Or.inl ht⟩
    · exact ⟨hc, hh, Or.inr (Or.inl ht)⟩
    · exact ⟨hc, hh, Or.inr (Or.inr ht.symm)⟩

theorem throttleBlockKey_inj {k l : String} (h : throttleBlockKey k = throttleBlockKey l) : k = l := by
  rw [← String.toList_inj, blockKey_toList, blockKey_toList, List.append_left_inj] at h
  exact String.toList_inj.1 h

/-- Two targets share a key exactly when they meet. This is a statement on texts alone, before
anything is said of calls. -/
theorem disjoint_keys_iff (a b : ThrottleTarget) :
    Disjoint (throttleKeys a.key) (throttleKeys b.key) ↔ ¬ a.Meets b := by
  rw [meets_iff_keys, Set.disjoint_left]
  constructor
  · rintro h (hkey | hkey | hkey)
    · exact h (Or.inl rfl) (Or.inl hkey)
    · exact h (Or.inl rfl) (Or.inr hkey)
    · exact h (Or.inr rfl) (Or.inl hkey)
  · rintro h k (rfl | rfl) (hb | hb)
    · exact h (Or.inl hb)
    · exact h (Or.inr (Or.inl hb))
    · exact h (Or.inr (Or.inr hb))
    · exact h (Or.inl (throttleBlockKey_inj hb))

/-! ## Isolation -/

/-- A call of the first target or of the second. -/
abbrev EitherCall := ThrottleCall ⊕ ThrottleCall

/-- The call, on its target's key. -/
def EitherCall.increment (a b : ThrottleTarget) : EitherCall → Store →
    Option ThrottleIncrementResult × Store
  | .inl c => c.increment a.key
  | .inr c => c.increment b.key

/-- From the store `s`, in every interleaving of calls for the two targets, the
results of the first target's calls are the ones without the second's. -/
def Isolated (a b : ThrottleTarget) (s : Store) : Prop :=
  ∀ cs : List EitherCall,
    (Footprint.answers (EitherCall.increment a b) cs s).filter (fun x => x.1.isLeft)
      = Footprint.answers (EitherCall.increment a b) (cs.filter (·.isLeft)) s

/-- Without a common key the first target is answered as if it were alone, in any interleaving
and from any store. -/
theorem isolated_of_disjoint {a b : ThrottleTarget}
    (h : Disjoint (throttleKeys a.key) (throttleKeys b.key)) (s : Store) : Isolated a b s := by
  intro cs
  refine Footprint.answers_filter (K := throttleKeys a.key) _ (·.isLeft) ?_ ?_ cs (Agree.refl _ s)
  · intro c hc
    cases c with
    | inl c => exact increment_within c a.key
    | inr c => cases hc
  · intro c hc
    cases c with
    | inl c => cases hc
    | inr c =>
      rw [Set.disjoint_right] at h
      exact increment_leaves c (h (Or.inl rfl)) (h (Or.inr rfl))

/-- In particular, one call of the second target does not change the answer to the
first target's next call. -/
theorem Isolated.one {a b : ThrottleTarget} {s : Store} (h : Isolated a b s) (c c' : ThrottleCall) :
    (c.increment a.key (c'.increment b.key s).2).1 = (c.increment a.key s).1 :=
  (Prod.mk.inj (List.cons.inj (h [.inr c', .inl c])).1).2

/-- A window and a block of one millisecond. -/
def ThrottleConfig.oneMs (limit : ℕ) : ThrottleConfig where
  ttlMs := 1
  limit := limit
  blockDurationMs := 1
  ttl_pos := by decide
  block_pos := by decide
  ttl_lt := by decide
  block_lt := by decide

def ThrottleConfig.callAt (c : ThrottleConfig) (now : ℕ) : ThrottleCall :=
  ⟨now, (c.ttlMs : ℤ), (c.limit : ℤ), (c.blockDurationMs : ℤ)⟩

theorem throttleBlockKey_twice_ne (key : String) : throttleBlockKey (throttleBlockKey key) ≠ key := by
  intro h
  have hlen := congrArg (fun s => s.toList.length) h
  simp [throttleBlockKey] at hlen

/-- The first call of all is allowed, and counted as the first hit. -/
theorem first_call_answer (key : String) :
    (((ThrottleConfig.oneMs 1).callAt 0).increment key fun _ => none).1
      = some ⟨1, 1, false, 0⟩ := by
  have hempty : Holds key ⟨none, none⟩ fun _ => none := Unused.holds ⟨rfl, rfl⟩
  exact (increment_refines (ThrottleConfig.oneMs 1) hempty 0).1

/-- One counter for both targets: the call of the first one is the second hit. This needs
different targets with the same key, as when the cut at 64 units makes two addresses one. -/
theorem not_isolated_of_same_counter {a b : ThrottleTarget} (hkey : a.key = b.key) :
    ¬ Isolated a b fun _ => none := by
  intro hisolated
  have hempty : Holds b.key ⟨none, none⟩ (fun _ => none) := Unused.holds ⟨rfl, rfl⟩
  have hcounted : Holds b.key (FixedWindow.step (ThrottleConfig.oneMs 1).params 0 ⟨none, none⟩).2
      (((ThrottleConfig.oneMs 1).callAt 0).increment b.key fun _ => none).2 :=
    (increment_refines (ThrottleConfig.oneMs 1) hempty 0).2
  have hone := hisolated.one ((ThrottleConfig.oneMs 1).callAt 0) ((ThrottleConfig.oneMs 1).callAt 0)
  have hsecond := (increment_refines (ThrottleConfig.oneMs 1) hcounted 0).1
  rw [first_call_answer a.key, hkey] at hone
  exact absurd (hone.symm.trans hsecond) (by decide)

/-- The counter of the first target is the block of the second: its call counts on from the
text of the block. `SET … '1'` left the text 1 there, which `INCR` raises to 2. -/
theorem not_isolated_of_counter_of_block {a b : ThrottleTarget} (hkey : a.key = throttleBlockKey b.key) :
    ¬ Isolated a b fun _ => none := by
  intro hisolated
  have hempty : Holds b.key ⟨none, none⟩ (fun _ => none) := Unused.holds ⟨rfl, rfl⟩
  have hblocked : Holds b.key ⟨some (1, 1), some 1⟩
      (((ThrottleConfig.oneMs 0).callAt 0).increment b.key fun _ => none).2 :=
    (increment_refines (ThrottleConfig.oneMs 0) hempty 0).2
  have hone := hisolated.one ((ThrottleConfig.oneMs 1).callAt 0) ((ThrottleConfig.oneMs 0).callAt 0)
  have hblock : (((ThrottleConfig.oneMs 0).callAt 0).increment b.key fun _ => none).2
      (throttleBlockKey a.key) = none := by
    have hne : throttleBlockKey a.key ≠ b.key := by
      rw [hkey]
      exact throttleBlockKey_twice_ne b.key
    have hne' : throttleBlockKey a.key ≠ throttleBlockKey b.key := fun h =>
      throttleBlockKey_ne b.key (hkey.symm.trans (throttleBlockKey_inj h))
    exact increment_leaves ((ThrottleConfig.oneMs 0).callAt 0) (K := {throttleBlockKey a.key})
      hne.symm hne'.symm (fun _ => none) (throttleBlockKey a.key) rfl
  have hholds : Holds a.key ⟨some (1, 1), none⟩
      (((ThrottleConfig.oneMs 0).callAt 0).increment b.key fun _ => none).2 := by
    refine ⟨?_, hblock, by rintro c ⟨⟩; exact Nat.le_refl 1⟩
    rw [hkey, hblocked.block]
    rfl
  have hsecond := (increment_refines (ThrottleConfig.oneMs 1) hholds 0).1
  rw [first_call_answer a.key] at hone
  exact absurd (hone.symm.trans hsecond) (by decide)

/-- The block of the first target is the counter of the second: its call is refused. The
script takes any key with time left as a block, whatever its text says. -/
theorem not_isolated_of_block_of_counter {a b : ThrottleTarget} (hkey : throttleBlockKey a.key = b.key) :
    ¬ Isolated a b fun _ => none := by
  intro hisolated
  have hempty : Holds b.key ⟨none, none⟩ (fun _ => none) := Unused.holds ⟨rfl, rfl⟩
  have hcounted : Holds b.key (FixedWindow.step (ThrottleConfig.oneMs 1).params 0 ⟨none, none⟩).2
      (((ThrottleConfig.oneMs 1).callAt 0).increment b.key fun _ => none).2 :=
    (increment_refines (ThrottleConfig.oneMs 1) hempty 0).2
  have hone := hisolated.one ((ThrottleConfig.oneMs 1).callAt 0) ((ThrottleConfig.oneMs 1).callAt 0)
  have hpttl : 0 < pttl 0 (((ThrottleConfig.oneMs 1).callAt 0).increment b.key fun _ => none).2
      (throttleBlockKey a.key) := by
    rw [hkey, pttl, hcounted.lookup_counter 0]
    decide
  obtain ⟨-, res, hres, hrefused⟩ := increment_blocked (ThrottleConfig.oneMs 1) hpttl
  rw [first_call_answer a.key] at hone
  have hsame := hone.symm.trans hres
  rw [← Option.some.inj hsame] at hrefused
  cases hrefused

/-- Where keys meet, a call of the second target shows. -/
theorem not_isolated_of_meets {a b : ThrottleTarget} (h : a.Meets b) :
    ¬ Isolated a b fun _ => none := by
  rcases (meets_iff_keys a b).1 h with hkey | hkey | hkey
  · exact not_isolated_of_same_counter hkey
  · exact not_isolated_of_counter_of_block hkey
  · exact not_isolated_of_block_of_counter hkey

/-- **Isolation.** For two targets: in every interleaving of calls, under any
settings and at any instants, from any store, the first is answered as if the
second had never called, and the two have no counter key or block key in common;
exactly unless their keys meet. Where they do, it already fails from the empty
store. -/
theorem isolated_iff (a b : ThrottleTarget) :
    (((∀ s, Isolated a b s) ∧ Disjoint (throttleKeys a.key) (throttleKeys b.key)) ↔ ¬ a.Meets b) ∧
      (a.Meets b → ¬ Isolated a b fun _ => none) := by
  refine ⟨⟨fun h => (disjoint_keys_iff a b).1 h.2, fun h => ?_⟩, not_isolated_of_meets⟩
  have hdisjoint := (disjoint_keys_iff a b).2 h
  exact ⟨isolated_of_disjoint hdisjoint, hdisjoint⟩

/-- A client at an address of the test network, and one that sends this address
with `:block` behind it, on the search route. -/
def searchTarget (ip : String) : ThrottleTarget where
  controller := utf16 "TrendsController"
  handler := utf16 "searchTrends"
  ip := some (utf16 ip)
  controller_free := by decide +kernel
  handler_free := by decide +kernel

/-- The second client's counter is the first one's block. -/
theorem tracker_with_block_suffix_collides :
    ¬ ∀ a b : ThrottleTarget,
      (a.controller ≠ b.controller ∨ a.handler ≠ b.handler ∨ a.tracker ≠ b.tracker) →
      Isolated a b (fun _ => none) ∧ Disjoint (throttleKeys a.key) (throttleKeys b.key) := by
  intro h
  have hmeets : (searchTarget "10.0.0.1").Meets (searchTarget "10.0.0.1:block") := by decide +kernel
  exact not_isolated_of_meets hmeets (h _ _ (Or.inr (Or.inr (by decide +kernel)))).1

end TechTrends
