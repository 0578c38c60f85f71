/-
All keys of the one Redis keyspace, side by side.

The cached answers, the embeddings, the locks on them and the counters of the throttler
live in one Redis. A source and a search text are the client's to choose, so they may
hold colons and look like other keys. The first two characters of a key tell the family,
and what a family's prefix leaves is read from the end of the text that a client cannot
reach: from the left for numbers, from the right for a source.

A text that comes over HTTP has no unpaired surrogate, so here texts are characters and
the key is what Redis receives.
-/
import TechTrends.Keyword
import TechTrends.ThrottleIsolation
import TechTrends.TrendsQueryLoads

set_option autoImplicit false

namespace TechTrends

/-- What the services keep in Redis, apart from the counters of the throttler. -/
inductive CacheEntry
  | answer (target : Target)
  | embedding (normalizedQuery : String)
  | embeddingLock (normalizedQuery : String)
deriving DecidableEq

namespace CacheEntry

def redisKey (embeddingModelName : String) : CacheEntry → String
  | answer target => target.cacheKey
  | embedding normalizedQuery => AiService.cacheKey embeddingModelName normalizedQuery
  | embeddingLock normalizedQuery => AiService.lockKey embeddingModelName normalizedQuery

/-- The first two characters of the keys of a family. -/
def family : CacheEntry → List Char
  | answer _ => ['t', 'r']
  | embedding _ => ['e', 'm']
  | embeddingLock _ => ['l', 'o']

/-- The keys of the cached answers begin with `trends:`. -/
theorem take_two_cacheKey (target : Target) : target.cacheKey.toList.take 2 = ['t', 'r'] := by
  cases target with
  | sources => decide
  | detail id =>
    rw [Target.cacheKey, toList_detailKey]
    rfl
  | related id limit =>
    rw [Target.cacheKey, toList_relatedKey]
    rfl
  | listCount source isNew =>
    rw [Target.cacheKey, toList_countKey]
    rfl

/-- The first two characters of a key tell its family: `tr` for an answer, and one pair for
the embeddings and one for their locks. What a client chooses comes after them. -/
theorem take_two_redisKey (model : String) (entry : CacheEntry) :
    (entry.redisKey model).toList.take 2 = entry.family := by
  cases entry with
  | answer target => exact take_two_cacheKey target
  | embedding text => simp [redisKey, family, AiService.cacheKey]
  | embeddingLock text => simp [redisKey, family, AiService.lockKey]

/-- Within a family the parts are read back. A number has no colon, so it ends at the first
one; `isNew` is the last part and has none either, so a source with colons in it is what lies
between. -/
theorem redisKey_injective (model : String) : Function.Injective (redisKey model) := by
  intro entry other h
  -- two families share no key, and within one the key tells the entry
  have hfamily : entry.family = other.family := by
    rw [← take_two_redisKey model entry, h, take_two_redisKey]
  cases entry with
  | answer target =>
    cases other with
    | answer target' => rw [Target.cacheKey_injective h]
    | embedding text => exact absurd hfamily (by decide : ['t', 'r'] ≠ ['e', 'm'])
    | embeddingLock text => exact absurd hfamily (by decide : ['t', 'r'] ≠ ['l', 'o'])
  | embedding text =>
    cases other with
    | answer target => exact absurd hfamily (by decide : ['e', 'm'] ≠ ['t', 'r'])
    | embedding text' => rw [AiService.cacheKey_inj h]
    | embeddingLock text' => exact absurd hfamily (by decide : ['e', 'm'] ≠ ['l', 'o'])
  | embeddingLock text =>
    cases other with
    | answer target => exact absurd hfamily (by decide : ['l', 'o'] ≠ ['t', 'r'])
    | embedding text' => exact absurd hfamily (by decide : ['l', 'o'] ≠ ['e', 'm'])
    | embeddingLock text' => rw [AiService.lockKey_inj h]

/-- A key of the throttler is in none of the families. It begins with `th`, and none of these
pairs does. -/
theorem throttlePrefix_not_prefix (model : String) (entry : CacheEntry) :
    ¬ "throttle:v1:".toList <+: (entry.redisKey model).toList := by
  rintro ⟨rest, h⟩
  -- `throttle` begins with `th`, an answer with `tr`
  have htake := take_two_redisKey model entry
  rw [← h] at htake
  cases entry <;> exact absurd htake (by simp [family])

/-- Neither the counter of a client nor its block is an entry of a cache. So a client cannot
be let through, or refused, by what it makes the service cache. -/
theorem redisKey_notMem_throttleKeys (model : String) (entry : CacheEntry) (a : ThrottleTarget) :
    entry.redisKey model ∉ throttleKeys a.key := by
  have hcounter : "throttle:v1:".toList <+: a.key.toList := by
    rw [key_toList]
    exact ⟨"global:".toList ++ _, by rw [← List.append_assoc]; rfl⟩
  -- the block of a client has the key of its counter and more behind it
  rintro (h | h)
  · exact throttlePrefix_not_prefix model entry (h ▸ hcounter)
  · refine throttlePrefix_not_prefix model entry ?_
    rw [h, blockKey_toList]
    exact hcounter.trans (List.prefix_append _ _)

end CacheEntry

/-- **No two entries share a key.** The keys of the cached answers, of the embeddings and
of the locks are different for different entries, no key of the throttler is among them,
and loads in flight are told apart as well. What is written for one entry changes what is
read for no other. -/
theorem cacheKeys_distinct (embeddingModelName : String) :
    Function.Injective (CacheEntry.redisKey embeddingModelName) ∧
    (∀ (entry : CacheEntry) (rest : String), entry.redisKey embeddingModelName ≠ "throttle:v1:" ++ rest) ∧
    (Function.Injective fun load : String × Bool => load.1 ++ ":" ++ boolText load.2) ∧
    (Function.Injective fun load : Binary64 × Binary64 => numberText load.1 ++ ":" ++ numberText load.2) ∧
    ∀ (entry other : CacheEntry) (now later : ℕ) (s : Store) (value : Json) (ttlSeconds : ℕ),
      entry ≠ other →
      RedisService.getCache later
          (RedisService.setCache now s (entry.redisKey embeddingModelName) value ttlSeconds)
          (other.redisKey embeddingModelName) =
        RedisService.getCache later s (other.redisKey embeddingModelName) := by
  have hinj := CacheEntry.redisKey_injective embeddingModelName
  refine ⟨hinj, ?_, ?_, ?_, ?_⟩
  · intro entry rest h
    refine CacheEntry.throttlePrefix_not_prefix embeddingModelName entry ?_
    rw [h, String.toList_append]
    exact List.prefix_append _ _
  -- the loads in flight have a map for each kind, so their keys need no prefix
  · intro load load' h
    have hload : TrendsQuery.loadKey (Target.listCount load'.1 load'.2) =
        some (TrendsQuery.LoadKey.listCount (load.1 ++ ":" ++ boolText load.2)) :=
      congrArg (fun key => some (TrendsQuery.LoadKey.listCount key)) h.symm
    have htarget := @TrendsQuery.loadKey_inj (Target.listCount load.1 load.2) _ _ rfl hload
    obtain ⟨hsource, hnew⟩ := Target.listCount.inj htarget
    exact Prod.ext hsource hnew
  · intro load load' h
    have hload : TrendsQuery.loadKey (Target.related load'.1 load'.2) =
        some (TrendsQuery.LoadKey.related (numberText load.1 ++ ":" ++ numberText load.2)) :=
      congrArg (fun key => some (TrendsQuery.LoadKey.related key)) h.symm
    have htarget := @TrendsQuery.loadKey_inj (Target.related load.1 load.2) _ _ rfl hload
    obtain ⟨hid, hlimit⟩ := Target.related.inj htarget
    exact Prod.ext hid hlimit
  · intro entry other now later s value ttlSeconds hne
    have hkey : other.redisKey embeddingModelName ≠ entry.redisKey embeddingModelName :=
      fun h => hne (hinj h).symm
    rw [RedisService.getCache, RedisService.getCache, Redis.get, Redis.get, RedisService.setCache,
      Redis.lookup_set_ne later s _ _ hkey]

end TechTrends
