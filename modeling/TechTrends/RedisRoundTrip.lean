/-
What `getCache` gives back of what `setCache` was given.

A string is stored as it is, anything else as JSON, and every text that is read as
JSON comes back as that. The expiry plays no part in it, so `setCache` is taken
here with every `ttlSeconds` that a caller can pass.
-/
import TechTrends.Redis

set_option autoImplicit false

/-! ## A text is longer than the string it spells -/

namespace Json

/-- Joining surrogate pairs makes a text no longer. -/
theorem joinUnits_length (us : List ℕ) : (joinUnits us).length ≤ us.length := by
  fun_induction joinUnits us with
  | case1 => exact Nat.le_refl 0
  | case2 u => exact Nat.le_refl 1
  | case3 u w us hpair ih =>
    rw [List.length_cons, List.length_cons, List.length_cons]
    omega
  | case4 u w us hpair hlone ih =>
    rw [List.length_cons, List.length_cons]
    omega
  | case5 u w us hpair hlone ih =>
    rw [List.length_cons, List.length_cons]
    omega

/-- Every code unit of a literal takes a character, and so does the closing quote. -/
theorem parseUnits_length {cs r : List Char} {us : List ℕ} (h : parseUnits cs = some (us, r)) :
    us.length + r.length + 1 ≤ cs.length := by
  -- the unit that is read first, and those of the rest of the literal
  have hcons : ∀ {ds : List Char} {o : Option ℕ} {us : List ℕ} {r : List Char},
      (∀ {us r}, parseUnits ds = some (us, r) → us.length + r.length + 1 ≤ ds.length) →
      (o.bind fun u => (parseUnits ds).bind fun p => some (u :: p.1, p.2)) = some (us, r) →
      us.length + r.length + 1 ≤ ds.length + 1 := by
    intro ds o us r ih h
    obtain ⟨u, -, h⟩ := Option.bind_eq_some_iff.1 h
    obtain ⟨⟨us', r'⟩, hrest, h⟩ := Option.bind_eq_some_iff.1 h
    obtain ⟨rfl, rfl⟩ := Prod.mk.inj (Option.some.inj h)
    have hlen : us'.length + r'.length + 1 ≤ ds.length := ih hrest
    rw [List.length_cons]
    show us'.length + 1 + r'.length + 1 ≤ ds.length + 1
    omega
  induction cs using parseUnits.induct generalizing us r with
  | case1 => cases h
  | case2 r' =>
    cases h
    rw [List.length_cons]
    exact Nat.le_of_eq (by rw [List.length_nil, Nat.zero_add])
  | case3 a b c d ds ih =>
    have hlen := hcons ih h
    simp only [List.length_cons]
    omega
  | case4 c ds hu ih =>
    rw [parseUnits] at h
    · have hlen := hcons ih h
      simp only [List.length_cons]
      omega
    · exact hu
  | case5 c ds hq hu hb hplain =>
    rw [parseUnits, if_pos hplain] at h
    · cases h
    · exact hq
    · exact hu
    · exact hb
  | case6 c ds hq hu hb hplain ih =>
    rw [parseUnits, if_neg hplain] at h
    · exact hcons (o := some c.toNat) ih h
    · exact hq
    · exact hu
    · exact hb

/-- A string that is read is no longer than the text behind its opening quote. -/
theorem parseString_length {cs r : List Char} {t : String} (h : parseString cs = some (t, r)) :
    t.toList.length + r.length + 1 ≤ cs.length := by
  rw [parseString, Option.bind_eq_bind, Option.bind_eq_some_iff] at h
  obtain ⟨⟨us, r'⟩, hunits, hsome⟩ := h
  obtain ⟨rfl, rfl⟩ := Prod.mk.inj (Option.some.inj hsome)
  have hlen := parseUnits_length hunits
  have hjoin := joinUnits_length us
  rw [String.toList_ofList]
  omega

theorem skipWs_length (cs : List Char) : (skipWs cs).length ≤ cs.length :=
  (List.dropWhile_suffix isWs).length_le

/-- Only a literal is read as a string, and it takes two quotes beside what it spells. -/
theorem parseValue_str_length {fuel : ℕ} {cs r : List Char} {t : String}
    (h : parseValue fuel cs = some (str t, r)) : t.toList.length + 2 ≤ cs.length := by
  have hskip := skipWs_length cs
  cases fuel with
  | zero => cases h
  | succ fuel =>
    rw [parseValue] at h
    split at h
    · cases h
    · cases h
    · cases h
    · next r' hcs =>
      obtain ⟨⟨t', r''⟩, hstring, heq⟩ := Option.map_eq_some_iff.1 h
      cases heq
      have hlen : t'.toList.length + r''.length + 1 ≤ r'.length := parseString_length hstring
      rw [hcs, List.length_cons] at hskip
      show t'.toList.length + 2 ≤ cs.length
      omega
    · split at h
      · cases h
      · obtain ⟨p, -, heq⟩ := Option.map_eq_some_iff.1 h
        cases heq
    · split at h
      · cases h
      · obtain ⟨p, -, heq⟩ := Option.map_eq_some_iff.1 h
        cases heq
    · obtain ⟨p, -, heq⟩ := Option.map_eq_some_iff.1 h
      rw [Prod.mk.injEq, ofDecimal] at heq
      split at heq <;> cases heq.1

/-- No text is the JSON of itself as a string. The quotes make the text longer than the
string, so a stored string that is JSON comes back as another value. -/
theorem parse_ne_str_self (t : String) : parse t ≠ some (str t) := by
  intro h
  rw [parse] at h
  split at h
  · next v r hvalue =>
    split at h
    · cases h
      have hlen := parseValue_str_length hvalue
      omega
    · cases h
  · cases h

end Json

namespace TechTrends

namespace RedisService

/-! ## `setCache` with any `ttlSeconds` -/

/-- The default of `ttlSeconds`, 30 days. -/
def defaultTtlSeconds : ℤ := 2592000

/-- `setCache`: with a positive `ttlSeconds`, `SET key text EX ttlSeconds`, which
Redis rejects when that is no integer; otherwise `SET key text`. -/
def setCacheTtl (now : ℕ) (s : Store) (key : String) (value : Json) (ttlSeconds : Option JsNumber) :
    Option Store :=
  let ttlSeconds := ttlSeconds.getD defaultTtlSeconds
  if JsNumber.lt (0 : ℤ) ttlSeconds then
    ttlSeconds.toInteger.map fun (n : ℤ) =>
      Redis.set s key (serialized value) (some (now + n.toNat * 1000))
  else some (Redis.set s key (serialized value) none)

/-- With a whole number of seconds it is `setCache`. Only other numbers can make the command
fail, as Redis takes `EX` for an integer of 64 bits. -/
theorem setCacheTtl_natCast (now : ℕ) (s : Store) (key : String) (value : Json) {n : ℕ}
    (hn : n < 2 ^ 63) :
    setCacheTtl now s key value (some ((n : ℤ) : JsNumber)) = some (setCache now s key value n) := by
  have hlt : JsNumber.lt (0 : ℤ) ((n : ℤ) : JsNumber) = decide (0 < n) := by
    simp [JsNumber.lt]
  rw [setCacheTtl, Option.getD_some, setCache, hlt]
  by_cases hpos : 0 < n
  · rw [if_pos (decide_eq_true hpos), if_pos hpos, JsNumber.toInteger_ofNat hn]
    rfl
  · rw [if_neg (by simpa using hpos), if_neg hpos]

/-- What is stored is there at once, and is the text of the value. With a deadline this is
where `ttlSeconds > 0` is needed: the deadline is then not before now. -/
theorem setCacheTtl_self {now : ℕ} {s t : Store} {key : String} {value : Json}
    {ttlSeconds : Option JsNumber} (h : setCacheTtl now s key value ttlSeconds = some t) :
    (∃ deadline, t key = some ⟨serialized value, deadline⟩) ∧ Redis.keyExists now t key = true := by
  rw [setCacheTtl] at h
  have hset : ∀ deadline, (∀ d ∈ deadline, now ≤ d) → t = Redis.set s key (serialized value) deadline →
      (∃ deadline, t key = some ⟨serialized value, deadline⟩) ∧ Redis.keyExists now t key = true := by
    rintro deadline hdeadline rfl
    refine ⟨⟨deadline, Function.update_self _ _ _⟩, ?_⟩
    rw [Redis.keyExists, Redis.lookup_set_self, Option.isSome_filter]
    cases deadline with
    | none => rfl
    | some d => exact decide_eq_true (hdeadline d rfl)
  split at h
  · obtain ⟨n, -, rfl⟩ := Option.map_eq_some_iff.1 h
    refine hset _ (fun d hd => ?_) rfl
    cases hd
    exact Nat.le_add_right _ _
  · cases h
    exact hset none (fun d hd => by cases hd) rfl

/-! ## What comes back -/

/-- The values that come back as they are: a string must not be empty, and must not
be the text of a JSON value. -/
def ComesBack : Json → Prop
  | Json.str t => t ≠ "" ∧ Json.parse t = none
  | _ => True

/-- While the text of a value is stored, `getCache` gives the value back exactly when it is
one of these. A value that is no string is written by `JSON.stringify` and parsed again; a
string is stored as it is, and comes back unless it is empty or happens to be JSON. -/
theorem getCache_serialized_iff {now : ℕ} {s : Store} {key : String} {v : Json} (hv : v.WellFormed)
    (h : Redis.get now s key = some (serialized v)) : getCache now s key = v ↔ ComesBack v := by
  by_cases hstr : ∃ t, v = Json.str t
  · obtain ⟨t, rfl⟩ := hstr
    have htext : serialized (Json.str t) = t := rfl
    rw [getCache, h, htext]
    dsimp only [ComesBack]
    by_cases hempty : t = ""
    · rw [if_pos hempty]
      exact iff_of_false (fun heq => by cases heq) fun hc => hc.1 hempty
    · rw [if_neg hempty]
      cases hparse : Json.parse t with
      | none => exact iff_of_true rfl ⟨hempty, rfl⟩
      | some w =>
        refine iff_of_false (fun heq => ?_) fun hc => by cases hc.2
        have hw : w = Json.str t := heq
        rw [hw] at hparse
        exact Json.parse_ne_str_self t hparse
  · have hne : ∀ t, v ≠ Json.str t := fun t ht => hstr ⟨t, ht⟩
    refine iff_of_true (getCache_of_serialized hv hne h) ?_
    cases v with
    | str t => exact absurd rfl (hne t)
    | _ => trivial

end RedisService

end TechTrends
