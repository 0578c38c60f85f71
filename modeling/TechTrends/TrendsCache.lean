/-
`TrendsCacheService`: the keys of the four kinds of cached answers, and their
times to live.

The keys hold texts of numbers and of a source, and no key stands for two answers:
a number's text can be read back, and the two texts of `isNew` end differently.
-/
import TechTrends.Redis

set_option autoImplicit false

namespace TechTrends

/-- What a call is to find. -/
inductive Target
  | sources
  | detail (id : Binary64)
  | related (id limit : Binary64)
  | listCount (source : String) (isNew : Bool)
deriving DecidableEq

/-- The settings of the service. -/
structure TrendsCacheConfig where
  sourcesCacheTtlSeconds : ℕ
  detailCacheTtlSeconds : ℕ
  relatedCacheTtlSeconds : ℕ

/-- `${n}` of a number. -/
def numberText (n : Binary64) : String := String.ofList n.toChars

/-- `${b}` of a boolean. -/
def boolText (b : Bool) : String := if b then "true" else "false"

/-! ## Keys -/

/-- `TRENDS_SOURCES_CACHE_KEY`. -/
def TRENDS_SOURCES_CACHE_KEY : String := "trends:sources"

def trendDetailCacheKey (id : Binary64) : String := "trends:detail:" ++ numberText id

def trendRelatedCacheKey (id limit : Binary64) : String :=
  "trends:related:" ++ numberText id ++ ":limit:" ++ numberText limit

def trendListCountCacheKey (source : String) (isNew : Bool) : String :=
  "trends:count:" ++ source ++ ":" ++ boolText isNew

def TRENDS_LIST_COUNT_CACHE_TTL_SECONDS : ℕ := 180

namespace Target

def cacheKey : Target → String
  | sources => TRENDS_SOURCES_CACHE_KEY
  | detail id => trendDetailCacheKey id
  | related id limit => trendRelatedCacheKey id limit
  | listCount source isNew => trendListCountCacheKey source isNew

def ttlSeconds (cfg : TrendsCacheConfig) : Target → ℕ
  | sources => cfg.sourcesCacheTtlSeconds
  | detail _ => cfg.detailCacheTtlSeconds
  | related _ _ => cfg.relatedCacheTtlSeconds
  | listCount _ _ => TRENDS_LIST_COUNT_CACHE_TTL_SECONDS

end Target

/-! ## `TrendsCacheService` -/

/-- `getSources`, `getDetail`, `getRelated` and `getListCount`. -/
def TrendsCacheService.get (now : ℕ) (s : Store) (target : Target) : Json :=
  RedisService.getCache now s target.cacheKey

/-- `setSources`, `setDetail`, `setRelated` and `setListCount`. -/
def TrendsCacheService.set (cfg : TrendsCacheConfig) (now : ℕ) (s : Store) (target : Target)
    (value : Json) : Store :=
  RedisService.setCache now s target.cacheKey value (target.ttlSeconds cfg)

def TrendsCacheService.invalidateSources (s : Store) : Store :=
  RedisService.delCache s TRENDS_SOURCES_CACHE_KEY

/-! ## No two answers share a key -/

/-- Texts of numbers with a colon or nothing after them: a number's text ends there, as no
digit, sign or letter of a number follows. -/
theorem numberText_append_inj {m n : Binary64} {r r' : List Char} (hr : Decimal.NumberEnd r)
    (hr' : Decimal.NumberEnd r') (h : m.toChars ++ r = n.toChars ++ r') : m = n ∧ r = r' := by
  have hm := Json.parseNumber_toChars m.decimal hr
  rw [← Binary64.toChars, h, Binary64.toChars, Json.parseNumber_toChars n.decimal hr', Option.some.injEq,
    Prod.mk.injEq] at hm
  exact ⟨Binary64.decimal_injective hm.1.symm, hm.2.symm⟩

/-- A text, a colon and a boolean. The text may have colons of its own, and so it is read from
the end: `true` and `false` have different last letters before the `e`. -/
theorem append_boolText_inj {s t : List Char} {a b : Bool}
    (h : s ++ ':' :: (boolText a).toList = t ++ ':' :: (boolText b).toList) : s = t ∧ a = b := by
  have hab : a = b := by
    have hrev := congrArg List.reverse h
    cases a <;> cases b <;> simp [boolText] at hrev ⊢
  subst hab
  exact ⟨List.append_cancel_right h, rfl⟩

theorem numberEnd_nil : Decimal.NumberEnd [] := by
  rintro c ⟨⟩

theorem numberEnd_colon (r : List Char) : Decimal.NumberEnd (':' :: r) := by
  rintro c ⟨⟩
  decide

theorem numberText_injective : Function.Injective numberText := by
  intro m n h
  have hl : m.toChars = n.toChars := by simpa [numberText] using congrArg String.toList h
  exact (numberText_append_inj numberEnd_nil numberEnd_nil (congrArg (fun cs => cs ++ []) hl)).1

/-- The letter that a family's keys go on with after `trends:`. -/
def Target.initial : Target → Char
  | sources => 's'
  | detail _ => 'd'
  | related _ _ => 'r'
  | listCount _ _ => 'c'

theorem toList_detailKey (id : Binary64) :
    (trendDetailCacheKey id).toList = "trends:detail:".toList ++ id.toChars := by
  show ("trends:detail:" ++ numberText id).toList = _
  simp only [String.toList_append, numberText, String.toList_ofList]

theorem toList_relatedKey (id limit : Binary64) :
    (trendRelatedCacheKey id limit).toList =
      "trends:related:".toList ++ (id.toChars ++ ':' :: ("limit:".toList ++ limit.toChars)) := by
  show ("trends:related:" ++ numberText id ++ ":limit:" ++ numberText limit).toList = _
  simp only [String.toList_append, numberText, String.toList_ofList, List.append_assoc]
  rfl

theorem toList_countKey (source : String) (isNew : Bool) :
    (trendListCountCacheKey source isNew).toList =
      "trends:count:".toList ++ (source.toList ++ ':' :: (boolText isNew).toList) := by
  show ("trends:count:" ++ source ++ ":" ++ boolText isNew).toList = _
  simp only [String.toList_append, List.append_assoc]
  rfl

/-- The family of an answer shows in one letter behind `trends:`. -/
theorem Target.cacheKey_initial (target : Target) :
    (target.cacheKey.toList.drop 7).head? = some target.initial := by
  cases target with
  | sources => decide
  | detail id =>
    rw [Target.cacheKey, toList_detailKey]
    rfl
  | related id limit =>
    rw [Target.cacheKey, toList_relatedKey]
    rfl
  | listCount source isNew =>
    rw [Target.cacheKey, toList_countKey]
    rfl

/-- No two answers share a key. The family is in the prefix, and within a family the key is
read back: a number up to its colon, a source up to the last colon. -/
theorem Target.cacheKey_injective : Function.Injective Target.cacheKey := by
  intro t u h
  have hinitial : t.initial = u.initial := by
    rw [← Option.some_inj, ← cacheKey_initial, ← cacheKey_initial, h]
  have hl := congrArg String.toList h
  cases t <;> cases u <;> simp [Target.initial] at hinitial
  case sources.sources => rfl
  case detail.detail id id' =>
    rw [Target.cacheKey, Target.cacheKey, toList_detailKey, toList_detailKey] at hl
    have hid : numberText id = numberText id' :=
      congrArg String.ofList (List.append_cancel_left hl)
    rw [numberText_injective hid]
  case related.related id limit id' limit' =>
    rw [Target.cacheKey, Target.cacheKey, toList_relatedKey, toList_relatedKey] at hl
    -- the first number ends at the colon
    obtain ⟨rfl, hrest⟩ := numberText_append_inj (numberEnd_colon _) (numberEnd_colon _)
      (List.append_cancel_left hl)
    have hlimit : numberText limit = numberText limit' :=
      congrArg String.ofList (List.append_cancel_left (List.cons.inj hrest).2)
    rw [numberText_injective hlimit]
  case listCount.listCount source isNew source' isNew' =>
    rw [Target.cacheKey, Target.cacheKey, toList_countKey, toList_countKey] at hl
    obtain ⟨hsource, rfl⟩ := append_boolText_inj (List.append_cancel_left hl)
    rw [String.toList_injective hsource]

/-- A write is seen under its own key, and no other answer has it. -/
theorem TrendsCacheService.set_entry {cfg : TrendsCacheConfig} {now : ℕ} {s : Store}
    {target target' : Target} {value : Json} {entry : Entry}
    (h : TrendsCacheService.set cfg now s target value target'.cacheKey = some entry) :
    (target' = target ∧ entry.value = RedisService.serialized value) ∨
      s target'.cacheKey = some entry := by
  rcases RedisService.setCache_entry h with ⟨hkey, hvalue⟩ | ⟨-, hold⟩
  · exact Or.inl ⟨Target.cacheKey_injective hkey, hvalue⟩
  · exact Or.inr hold

end TechTrends
