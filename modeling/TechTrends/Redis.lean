/-
Redis as the service uses it, and `RedisService`.

A store maps a key to its text and its expiry deadline in milliseconds. A key
vanishes only once the clock has passed its deadline, so at the deadline itself
it is still there, with a remaining time of 0. Every command reads the clock
once and is atomic.

The first part is the commands, under Redis's names; the second is the methods
of `RedisService`, each a command or two. The throttle script is in `Throttle`.
-/
import TechTrends.JsonRoundTrip
import TechTrends.JsNumber
import Mathlib.Logic.Function.Basic

set_option autoImplicit false

namespace TechTrends

/-- A stored text and the instant after which it is gone. -/
structure Entry where
  value : String
  deadline : Option ℕ
deriving DecidableEq

/-- The keyspace. -/
abbrev Store := String → Option Entry

/-- The entry has not expired at `now`. -/
def Entry.live (now : ℕ) (e : Entry) : Bool :=
  match e.deadline with
  | none => true
  | some d => now ≤ d

namespace Redis

/-! ## Commands -/

/-- The entry of a key that has not expired at `now`. -/
def lookup (now : ℕ) (s : Store) (key : String) : Option Entry :=
  (s key).filter (Entry.live now)

def get (now : ℕ) (s : Store) (key : String) : Option String :=
  (lookup now s key).map Entry.value

def keyExists (now : ℕ) (s : Store) (key : String) : Bool := (lookup now s key).isSome

/-- `SET key value [PX ttl]`. -/
def set (s : Store) (key value : String) (deadline : Option ℕ) : Store :=
  Function.update s key (some ⟨value, deadline⟩)

def del (s : Store) (key : String) : Store := Function.update s key none

/-- `PTTL`: the remaining time, -1 without a deadline, -2 when absent. -/
def pttl (now : ℕ) (s : Store) (key : String) : ℤ :=
  match lookup now s key with
  | none => -2
  | some e =>
    match e.deadline with
    | none => -1
    | some d => (d : ℤ) - now

/-- `INCR`, which keeps the deadline and fails on a text that is no integer. -/
def incr (now : ℕ) (s : Store) (key : String) : Option (ℤ × Store) :=
  match lookup now s key with
  | none => some (1, set s key (toString (1 : ℤ)) none)
  | some e => e.value.toInt?.map fun n => (n + 1, set s key (toString (n + 1)) e.deadline)

/-- `PEXPIRE` with the text of a number: an error unless it is an integer, and a
deletion when it is not positive. -/
def pexpire (now : ℕ) (s : Store) (key : String) (ttl : JsNumber) : Option Store :=
  ttl.toInteger.map fun (n : ℤ) =>
    match lookup now s key with
    | none => s
    | some e => if n ≤ 0 then del s key else set s key e.value (some (now + n.toNat))

/-- `SET key value PX ttl` with the text of a number: an error unless it is a
positive integer. -/
def setPx (now : ℕ) (s : Store) (key value : String) (ttl : JsNumber) : Option Store :=
  ttl.toInteger.bind fun (n : ℤ) =>
    if 0 < n then some (set s key value (some (now + n.toNat))) else none

/-! ## What the commands leave alone -/

@[simp] theorem lookup_set_self (now : ℕ) (s : Store) (key value : String) (d : Option ℕ) :
    lookup now (set s key value d) key = (some (⟨value, d⟩ : Entry)).filter (Entry.live now) := by
  rw [lookup, set, Function.update_self]

theorem lookup_set_ne (now : ℕ) (s : Store) {key key' : String} (value : String)
    (d : Option ℕ) (h : key' ≠ key) : lookup now (set s key value d) key' = lookup now s key' := by
  rw [lookup, lookup, set, Function.update_of_ne h]

@[simp] theorem lookup_del_self (now : ℕ) (s : Store) (key : String) :
    lookup now (del s key) key = none := by
  rw [lookup, del, Function.update_self]
  rfl

theorem lookup_del_ne (now : ℕ) (s : Store) {key key' : String} (h : key' ≠ key) :
    lookup now (del s key) key' = lookup now s key' := by
  rw [lookup, lookup, del, Function.update_of_ne h]

end Redis

/-! ## `RedisService` -/

namespace RedisService

/-- `acquireLock`: `SET key lockValue PX ttlMs NX`. The lock value is the token
that `randomUUID` drew. -/
def acquireLock (now : ℕ) (s : Store) (key : String) (ttlMs : ℕ) (lockValue : String) :
    Option String × Store :=
  if Redis.keyExists now s key then (none, s)
  else (some lockValue, Redis.set s key lockValue (some (now + ttlMs)))

/-- `releaseLock`: delete the key if it still holds the caller's token. -/
def releaseLock (now : ℕ) (s : Store) (key value : String) : Bool × Store :=
  if Redis.get now s key = some value then (true, Redis.del s key) else (false, s)

/-- `getCache`: `null` for a missing or empty text, else the parsed JSON, else
the text itself. -/
def getCache (now : ℕ) (s : Store) (key : String) : Json :=
  match Redis.get now s key with
  | none => Json.null
  | some data =>
    if data = "" then Json.null
    else
      match Json.parse data with
      | some v => v
      | none => Json.str data

/-- The text `setCache` stores: a string as it is, anything else as JSON. -/
def serialized : Json → String
  | Json.str s => s
  | v => Json.stringify v

/-- `setCache`: with a positive `ttlSeconds`, `SET key text EX ttlSeconds`. -/
def setCache (now : ℕ) (s : Store) (key : String) (value : Json) (ttlSeconds : ℕ) :
    Store :=
  Redis.set s key (serialized value) (if 0 < ttlSeconds then some (now + ttlSeconds * 1000) else none)

def delCache (s : Store) (key : String) : Store := Redis.del s key

/-- `exists`: whether the command counts the key. -/
def existsKey (now : ℕ) (s : Store) (key : String) : Bool := Redis.keyExists now s key

/-- `setCache` writes the text of the value, with or without a deadline: without a positive
`ttlSeconds` there is no `EX`, and the key stays for good. -/
theorem setCache_self (now : ℕ) (s : Store) (key : String) (v : Json) (ttlSeconds : ℕ) :
    ∃ deadline, setCache now s key v ttlSeconds key = some ⟨serialized v, deadline⟩ :=
  ⟨_, Function.update_self _ _ _⟩

/-- Other keys are left alone, which is all that the cache families need to know of each
other's writes. -/
theorem setCache_ne (now : ℕ) (s : Store) {key key' : String} (v : Json) (ttlSeconds : ℕ)
    (h : key' ≠ key) : setCache now s key v ttlSeconds key' = s key' :=
  Function.update_of_ne h _ _

/-- A value other than a string is read back as it was written, as long as its text is stored
under the key. `setCache` stores a string as it is, without quotes, and `getCache` parses what
it reads, so a string may come back as another value. -/
theorem getCache_of_serialized {now : ℕ} {s : Store} {key : String} {v : Json}
    (hv : v.WellFormed) (hstr : ∀ t, v ≠ Json.str t)
    (h : Redis.get now s key = some (serialized v)) : getCache now s key = v := by
  have htext : serialized v = Json.stringify v := by
    cases v with
    | str t => exact absurd rfl (hstr t)
    | _ => rfl
  rw [getCache, h, htext]
  simp only [if_neg (Json.stringify_ne_empty v), Json.parse_stringify v hv]

/-- A key that is not there reads as `null`, and so does an empty text. A text that is no JSON
is given as it is: `getCache` catches the error of `JSON.parse` and returns what it has read. -/
theorem getCache_of_none {now : ℕ} {s : Store} {key : String} (h : Redis.get now s key = none) :
    getCache now s key = Json.null := by
  rw [getCache, h]

/-- Where the entry of a key can only be the text of a value with `P`, and such values read
back, `P` holds of what is read. The other case is a miss: that nothing is read is never an
error of the cache. -/
theorem getCache_of_entries {P : Json → Prop} {s : Store} {key : String}
    (hread : ∀ v, P v → v.WellFormed ∧ ∀ t, v ≠ Json.str t)
    (h : ∀ entry, s key = some entry → ∃ v, P v ∧ entry.value = serialized v) (now : ℕ) :
    getCache now s key = Json.null ∨ P (getCache now s key) := by
  cases hget : Redis.get now s key with
  | none => exact Or.inl (getCache_of_none hget)
  | some text =>
    obtain ⟨entry, hlookup, rfl⟩ := Option.map_eq_some_iff.1 hget
    obtain ⟨hentry, -⟩ := Option.filter_eq_some_iff.1 hlookup
    obtain ⟨v, hv, htext⟩ := h entry hentry
    obtain ⟨hwf, hstr⟩ := hread v hv
    rw [htext] at hget
    rw [getCache_of_serialized hwf hstr hget]
    exact Or.inr hv

/-- An entry after `setCache` is the one that it has written, or one of before. Invariants of
the whole store are kept by this, key by key. -/
theorem setCache_entry {now : ℕ} {s : Store} {key key' : String} {v : Json} {ttlSeconds : ℕ}
    {entry : Entry} (h : setCache now s key v ttlSeconds key' = some entry) :
    (key' = key ∧ entry.value = serialized v) ∨ (key' ≠ key ∧ s key' = some entry) := by
  by_cases hkey : key' = key
  · obtain ⟨deadline, hset⟩ := setCache_self now s key v ttlSeconds
    rw [hkey, hset] at h
    cases h
    exact Or.inl ⟨hkey, rfl⟩
  · rw [setCache_ne now s v ttlSeconds hkey] at h
    exact Or.inr ⟨hkey, h⟩

end RedisService

end TechTrends
