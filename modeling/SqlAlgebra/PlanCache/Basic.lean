import SqlAlgebra.Compile
import SqlAlgebra.PlanCache.Recency
import SqlAlgebra.Query.Equality
import SqlAlgebra.Settings.Basic

/-!
# The plan cache

Plans that have been compiled are kept, up to a capacity, and served again for the same query in
the same dialect. Failures are not kept. A cache that is turned off compiles every time.
-/

namespace SqlAlgebra

/-- How data are hashed to 64 bits. Nothing is asked of it: any data may have the same hash. -/
structure Hashing where
  profile : Profile → UInt64
  /-- The hash of a dialect's name, the number of its fingerprint, and a query. -/
  key : String → UInt64 → Query → UInt64

/-- What a plan is kept under: the identity of the dialect and the whole query, with their hash. -/
structure PlanKey where
  fingerprint : UInt64
  dialect : String
  dialectFingerprint : UInt64
  query : Query

namespace PlanKey

/-- The key of a query in a dialect. -/
def of (hashing : Hashing) (d : Dialect) (q : Query) : PlanKey :=
  let number := d.fingerprint.number hashing.profile
  { fingerprint := hashing.key d.name number q
    dialect := d.name
    dialectFingerprint := number
    query := q }

/-- Keys are found by the hash that they bring along. The query is not hashed again. -/
instance : Hashable PlanKey where
  hash key := key.fingerprint

/-- Keys are equal if all is equal that was hashed. Different hashes decide at once. -/
instance : BEq PlanKey where
  beq key other :=
    key.fingerprint == other.fingerprint && key.dialectFingerprint == other.dialectFingerprint &&
      key.dialect == other.dialect && key.query == other.query

end PlanKey

/-- A plan cache with its counters, which start again from zero after their last value. -/
structure PlanCache where
  capacity : Nat
  enabled : Bool
  plans : Recency PlanKey Plan
  hits : UInt64
  misses : UInt64
  evictions : UInt64

/-- The counters of a cache, how many plans it holds and how many it has room for. -/
structure CacheStats where
  hits : UInt64
  misses : UInt64
  evictions : UInt64
  size : Nat
  capacity : Nat
deriving DecidableEq

/-- How a query was answered: with a kept plan, with a plan made for it, or not at all. -/
inductive Served where
  | kept (plan : Plan)
  | made (plan : Plan)
  | failed (e : CompileError)

namespace Served

/-- The answer without how it came about. -/
def result : Served → Except CompileError Plan
  | kept plan => .ok plan
  | made plan => .ok plan
  | failed e => .error e

/-- The answer of compiling afresh. -/
def ofResult : Except CompileError Plan → Served
  | .ok plan => made plan
  | .error e => failed e

end Served

namespace PlanCache

/-- A new cache. It has room for at least one plan, even if it is turned off. -/
def new (capacity : Nat) (enabled : Bool) : Except CompileError PlanCache :=
  if capacity = 0 then .error (.structural .emptyCache)
  else .ok { capacity, enabled, plans := .empty, hits := 0, misses := 0, evictions := 0 }

/-- The cache that settings ask for. -/
def ofSettings (settings : CacheSettings) : Except CompileError PlanCache :=
  new settings.capacity.toNat settings.enabled

/-- The plan of a query, kept or made, and the cache afterwards. -/
def compile (hashing : Hashing) (cache : PlanCache) (d : Dialect) (q : Query) :
    Served × PlanCache :=
  if cache.enabled then
    let key := PlanKey.of hashing d q
    match cache.plans.get? key with
    | some plan =>
      (.kept plan, { cache with plans := cache.plans.use key plan, hits := cache.hits + 1 })
    | none =>
      let missed := { cache with misses := cache.misses + 1 }
      match q.compile d with
      | .error e => (.failed e, missed)
      | .ok plan =>
        let dropped := if cache.plans.overflows cache.capacity key then 1 else 0
        (.made plan, { missed with
          plans := cache.plans.push cache.capacity key plan
          evictions := cache.evictions + dropped })
  else (.ofResult (q.compile d), cache)

/-- Forget all plans. The counters go on. -/
def clear (cache : PlanCache) : PlanCache := { cache with plans := .empty }

def stats (cache : PlanCache) : CacheStats where
  hits := cache.hits
  misses := cache.misses
  evictions := cache.evictions
  size := cache.plans.size
  capacity := cache.capacity

end PlanCache

end SqlAlgebra
