import SqlAlgebra.PlanCache.Basic

/-!
# A cache changes no answer

A plan cache is used by calls, one after another. Whatever the calls are, each query is answered
with the plan or the error that compiling it afresh gives, because every plan that is kept is the
one that its key compiles to. This rests on what identifies a dialect: its name and its fingerprint
must tell apart any two dialects that compile some query differently.
-/

namespace SqlAlgebra

namespace PlanKey

/-- The comparison of keys is equality, so that keys with the same hash are not taken for one. -/
instance : LawfulBEq PlanKey where
  rfl {key} := by simp [BEq.beq]
  eq_of_beq {key other} h := by
    cases key
    cases other
    simp only [BEq.beq, Bool.and_eq_true, decide_eq_true_eq] at h
    obtain ⟨⟨⟨rfl, rfl⟩, rfl⟩, rfl⟩ := h
    rfl

instance : DecidableEq PlanKey := instDecidableEqOfLawfulBEq

/-- Whatever the hashes are, two queries have the same key exactly if they are the same and the
name and the fingerprint of their dialects are. -/
theorem of_eq_of_iff {hashing : Hashing} {d e : Dialect} {q r : Query} :
    PlanKey.of hashing d q = PlanKey.of hashing e r ↔
      d.name = e.name ∧
        d.fingerprint.number hashing.profile = e.fingerprint.number hashing.profile ∧ q = r := by
  constructor
  · intro h
    exact ⟨congrArg PlanKey.dialect h, congrArg PlanKey.dialectFingerprint h,
      congrArg PlanKey.query h⟩
  · rintro ⟨hname, hnumber, rfl⟩
    rw [PlanKey.of, PlanKey.of, hname, hnumber]

end PlanKey

namespace Recency

variable {κ ν : Type} [BEq κ] [LawfulBEq κ] [Hashable κ] {r : Recency κ ν} {key : κ} {value : ν}
  {entry : κ × ν}

/-- Looking at the hash first does not change what is found. -/
theorem isAt_iff : isAt key entry = true ↔ entry.1 = key := by
  constructor
  · intro h
    exact eq_of_beq (Bool.and_eq_true_iff.mp h).2
  · rintro rfl
    simp [isAt]

/-- What is found under a key is an entry of that key. -/
theorem mem_of_get? (h : r.get? key = some value) : (key, value) ∈ r.entries := by
  obtain ⟨entry, hfind, rfl⟩ := Option.map_eq_some_iff.mp h
  obtain rfl : entry.1 = key := isAt_iff.mp (List.find?_some hfind)
  exact List.mem_of_find?_eq_some hfind

omit [LawfulBEq κ] in
/-- Using a key brings in nothing but its entry. -/
theorem mem_of_mem_use (h : entry ∈ (r.use key value).entries) :
    entry = (key, value) ∨ entry ∈ r.entries := by
  rcases List.mem_cons.mp h with h | h
  · exact .inl h
  · exact .inr (List.mem_filter.mp h).1

omit [LawfulBEq κ] in
/-- What drops out is an entry that was there, so nothing else comes in. -/
theorem mem_of_mem_push {capacity : Nat} (h : entry ∈ (r.push capacity key value).entries) :
    entry = (key, value) ∨ entry ∈ r.entries :=
  mem_of_mem_use (List.mem_of_mem_take h)

end Recency

/-- What a user of a cache can do with it. -/
inductive CacheCall where
  | compile (d : Dialect) (q : Query)
  | clear
  | stats

namespace CacheCall

/-- The dialect that a query is asked for in. -/
def dialect? : CacheCall → Option Dialect
  | compile d _ => some d
  | clear | stats => none

/-- The dialects that calls are made with. -/
def dialects (calls : List CacheCall) : List Dialect := calls.filterMap dialect?

/-- A dialect that a query is asked for in is one of the dialects of the calls. -/
theorem mem_dialects {calls before after : List CacheCall} {d : Dialect} {q : Query}
    (h : calls = before ++ .compile d q :: after) : d ∈ dialects calls := by
  rw [h]
  simp [dialects, dialect?]

end CacheCall

variable {hashing : Hashing}

namespace PlanCache

/-- The cache after a call. Reading its counters leaves it as it is. -/
def after (hashing : Hashing) (cache : PlanCache) : CacheCall → PlanCache
  | .compile d q => (cache.compile hashing d q).2
  | .clear => cache.clear
  | .stats => cache

/-- The cache after a sequence of calls. -/
def run (hashing : Hashing) (cache : PlanCache) (calls : List CacheCall) : PlanCache :=
  calls.foldl (after hashing) cache

end PlanCache

/-- Dialects that share their name and their fingerprint compile every query alike. -/
def Dialect.Identified (hashing : Hashing) (ds : List Dialect) : Prop :=
  ∀ d ∈ ds, ∀ e ∈ ds, d.name = e.name →
    d.fingerprint.number hashing.profile = e.fingerprint.number hashing.profile →
    ∀ q : Query, q.compile d = q.compile e

/-- All keys have the same hash, and profiles are told apart by how many capabilities they have. -/
def Hashing.colliding : Hashing where
  profile p := .ofNat p.capabilities.toList.length
  key _ _ _ := 0

/-- The plan is kept under a key of one of the dialects, and it is what every dialect among them
with that key compiles the query to. -/
structure PlanKey.Holds (hashing : Hashing) (ds : List Dialect) (key : PlanKey) (plan : Plan) :
    Prop where
  used : ∃ d ∈ ds, key = .of hashing d key.query
  compiles : ∀ d ∈ ds, key = .of hashing d key.query → key.query.compile d = .ok plan

/-- The plan of a query belongs under its key. -/
theorem PlanKey.holds_of_compile {ds : List Dialect} (hds : Dialect.Identified hashing ds)
    {d : Dialect} (hd : d ∈ ds) {q : Query} {plan : Plan} (h : q.compile d = .ok plan) :
    (PlanKey.of hashing d q).Holds hashing ds plan where
  used := ⟨d, hd, rfl⟩
  compiles := by
    intro e he hkey
    obtain ⟨hname, hnumber, -⟩ := PlanKey.of_eq_of_iff.mp hkey
    rw [← hds d hd e he hname hnumber]
    exact h

namespace PlanCache

/-- What asking for a query does to a cache. -/
inductive Step (hashing : Hashing) (cache : PlanCache) (d : Dialect) (q : Query) :
    Served → PlanCache → Prop
  | off : cache.enabled = false → Step hashing cache d q (.ofResult (q.compile d)) cache
  | kept (plan : Plan) : cache.enabled = true →
      cache.plans.get? (.of hashing d q) = some plan →
      Step hashing cache d q (.kept plan)
        { cache with plans := cache.plans.use (.of hashing d q) plan, hits := cache.hits + 1 }
  | failed (e : CompileError) : cache.enabled = true →
      cache.plans.get? (.of hashing d q) = none → q.compile d = .error e →
      Step hashing cache d q (.failed e) { cache with misses := cache.misses + 1 }
  | made (plan : Plan) : cache.enabled = true →
      cache.plans.get? (.of hashing d q) = none → q.compile d = .ok plan →
      Step hashing cache d q (.made plan)
        { cache with
          plans := cache.plans.push cache.capacity (.of hashing d q) plan
          misses := cache.misses + 1
          evictions := cache.evictions +
            if cache.plans.overflows cache.capacity (.of hashing d q) then 1 else 0 }

/-- Asking for a query takes one of these steps. -/
theorem step_compile (hashing : Hashing) (cache : PlanCache) (d : Dialect) (q : Query) :
    cache.Step hashing d q (cache.compile hashing d q).1 (cache.compile hashing d q).2 := by
  cases hon : cache.enabled with
  | false =>
    have hcompile : cache.compile hashing d q = (.ofResult (q.compile d), cache) := by
      simp [PlanCache.compile, hon]
    rw [hcompile]
    exact .off hon
  | true =>
    cases hget : cache.plans.get? (.of hashing d q) with
    | some plan =>
      simp only [PlanCache.compile, hon, hget, if_true]
      exact hon ▸ .kept plan hon hget
    | none =>
      cases hq : q.compile d with
      | error e =>
        simp only [PlanCache.compile, hon, hget, hq, if_true]
        exact hon ▸ .failed e hon hget hq
      | ok plan =>
        simp only [PlanCache.compile, hon, hget, hq, if_true]
        exact hon ▸ .made plan hon hget hq

/-- Every plan that is kept is the one its key compiles to. -/
def Sound (hashing : Hashing) (ds : List Dialect) (cache : PlanCache) : Prop :=
  ∀ entry ∈ cache.plans.entries, entry.1.Holds hashing ds entry.2

section Steps

variable {cache next : PlanCache} {ds : List Dialect} {d : Dialect} {q : Query} {served : Served}

/-- A plan that is found is the one that the query compiles to. -/
theorem Sound.compile_of_get? (h : cache.Sound hashing ds) (hd : d ∈ ds) {plan : Plan}
    (hget : cache.plans.get? (.of hashing d q) = some plan) : q.compile d = .ok plan :=
  (h _ (Recency.mem_of_get? hget)).compiles d hd rfl

/-- A cache that keeps what its keys compile to answers as if it kept nothing. -/
theorem Step.result (h : cache.Step hashing d q served next) (hsound : cache.Sound hashing ds)
    (hd : d ∈ ds) : served.result = q.compile d := by
  cases h with
  | off => cases q.compile d <;> rfl
  | kept plan _ hget => exact (hsound.compile_of_get? hd hget).symm
  | failed e _ _ hq => exact hq.symm
  | made plan _ _ hq => exact hq.symm

/-- A query that does not compile leaves the plans as they are, in the order of their use. -/
theorem Step.plans_of_error (h : cache.Step hashing d q served next)
    (hsound : cache.Sound hashing ds) (hd : d ∈ ds) {e : CompileError}
    (hq : q.compile d = .error e) : next.plans = cache.plans := by
  cases h with
  | off => rfl
  | failed => rfl
  | kept plan _ hget =>
    have hplan := hsound.compile_of_get? hd hget
    rw [hq] at hplan
    cases hplan
  | made plan _ _ hplan =>
    rw [hq] at hplan
    cases hplan

/-- Asking for a query puts no wrong plan into the cache. -/
theorem Step.sound (h : cache.Step hashing d q served next) (hsound : cache.Sound hashing ds)
    (hds : Dialect.Identified hashing ds) (hd : d ∈ ds) : next.Sound hashing ds := by
  cases h with
  | off => exact hsound
  | failed => exact hsound
  | kept plan _ hget =>
    intro entry hentry
    rcases Recency.mem_of_mem_use hentry with rfl | hentry
    · exact hsound _ (Recency.mem_of_get? hget)
    · exact hsound entry hentry
  | made plan _ _ hq =>
    intro entry hentry
    rcases Recency.mem_of_mem_push hentry with rfl | hentry
    · exact PlanKey.holds_of_compile hds hd hq
    · exact hsound entry hentry

end Steps

section Runs

variable {cache : PlanCache} {ds : List Dialect} {calls : List CacheCall}

/-- No call puts a wrong plan into the cache. -/
theorem Sound.after (h : cache.Sound hashing ds) (hds : Dialect.Identified hashing ds)
    {call : CacheCall} (hcall : ∀ d ∈ call.dialect?, d ∈ ds) :
    (cache.after hashing call).Sound hashing ds := by
  cases call with
  | compile d q => exact (step_compile hashing cache d q).sound h hds (hcall d rfl)
  | clear =>
    intro entry hentry
    cases hentry
  | stats => exact h

/-- Neither does a sequence of calls. -/
theorem Sound.run (h : cache.Sound hashing ds) (hds : Dialect.Identified hashing ds)
    (hcalls : CacheCall.dialects calls ⊆ ds) : (cache.run hashing calls).Sound hashing ds := by
  induction calls generalizing cache with
  | nil => exact h
  | cons call calls ih =>
    have hcall : ∀ d ∈ call.dialect?, d ∈ ds := by
      intro d hd
      exact hcalls (List.mem_filterMap.mpr ⟨call, List.mem_cons_self, hd⟩)
    have hrest : CacheCall.dialects calls ⊆ ds := by
      intro d hd
      obtain ⟨other, hother, hd⟩ := List.mem_filterMap.mp hd
      exact hcalls (List.mem_filterMap.mpr ⟨other, List.mem_cons_of_mem call hother, hd⟩)
    exact ih (h.after hds hcall) hrest

/-- No sequence of calls tells the cache from compiling afresh. -/
structure Transparent (hashing : Hashing) (cache : PlanCache) (calls : List CacheCall) : Prop where
  /-- Wherever a query is asked for, the answer is that of the compiler. -/
  answers : ∀ before d q rest, calls = before ++ .compile d q :: rest →
    ((cache.run hashing before).compile hashing d q).1.result = q.compile d
  /-- At any time, every plan that is kept is the compiler's. -/
  keeps : ∀ before rest, calls = before ++ rest →
    (cache.run hashing before).Sound hashing (CacheCall.dialects calls)
  /-- A failure changes neither the plans that are kept nor the order of their use. -/
  failures : ∀ before d q rest e, calls = before ++ .compile d q :: rest →
    q.compile d = .error e →
      ((cache.run hashing before).compile hashing d q).2.plans = (cache.run hashing before).plans

/-- A cache cannot be told from compiling afresh if it starts without a plan. -/
theorem transparent_of_empty (hempty : cache.plans = .empty)
    (hds : Dialect.Identified hashing (CacheCall.dialects calls)) :
    cache.Transparent hashing calls := by
  have hsound : cache.Sound hashing (CacheCall.dialects calls) := by
    intro entry hentry
    rw [hempty] at hentry
    cases hentry
  have hkeeps (before rest : List CacheCall) (h : calls = before ++ rest) :
      (cache.run hashing before).Sound hashing (CacheCall.dialects calls) := by
    refine hsound.run hds ?_
    rw [h, CacheCall.dialects, CacheCall.dialects, List.filterMap_append]
    exact List.subset_append_left _ _
  constructor
  · intro before d q rest h
    exact (step_compile hashing _ d q).result (hkeeps before _ h) (CacheCall.mem_dialects h)
  · exact hkeeps
  · intro before d q rest e h hq
    exact (step_compile hashing _ d q).plans_of_error (hkeeps before _ h)
      (CacheCall.mem_dialects h) hq

/-- There is a new cache for every capacity but zero, and it is empty. -/
theorem exists_new {capacity : Nat} (h : capacity ≠ 0) (enabled : Bool) :
    ∃ cache, PlanCache.new capacity enabled = .ok cache ∧ cache.plans = .empty :=
  ⟨_, if_neg h, rfl⟩

/-- A new cache with room for a plan cannot be told from compiling afresh, and neither can one made
from settings, be it turned on or off, as long as name and fingerprint identify the dialects that
it is used with. Nothing depends on the hashes of the keys. -/
theorem transparent_new (hashing : Hashing) :
    (∀ capacity, capacity ≠ 0 → ∃ cache, PlanCache.new capacity true = .ok cache ∧
      ∀ calls, Dialect.Identified hashing (CacheCall.dialects calls) →
        cache.Transparent hashing calls) ∧
    (∀ settings : CacheSettings, settings.capacity ≠ 0 →
      ∃ cache, PlanCache.ofSettings settings = .ok cache ∧
        ∀ calls, Dialect.Identified hashing (CacheCall.dialects calls) →
          cache.Transparent hashing calls) := by
  constructor
  · intro capacity hcapacity
    obtain ⟨cache, hnew, hempty⟩ := exists_new hcapacity true
    exact ⟨cache, hnew, fun calls hds => transparent_of_empty hempty hds⟩
  · intro settings hcapacity
    have htoNat : settings.capacity.toNat ≠ 0 := by
      intro h
      exact hcapacity (UInt64.toNat_inj.mp h)
    obtain ⟨cache, hnew, hempty⟩ := exists_new htoNat settings.enabled
    exact ⟨cache, hnew, fun calls hds => transparent_of_empty hempty hds⟩

/-- Room for one plan, and two dialects of one name of which only the first has WITH: the second
one's failure is not answered with the plan of the first, though all keys have the same hash. -/
theorem transparent_new_same_name :
    Dialect.Identified .colliding [Profile.postgres.dialect,
      (Profile.postgres.withoutCapability .cte).dialect, Profile.mysql.dialect,
      Profile.postgres.dialect] ∧
    ∃ cache, PlanCache.new 1 true = .ok cache ∧
      cache.Transparent .colliding
        [.compile Profile.postgres.dialect (.withCtes false [⟨"x", [], .table "t"⟩] (.table "x")),
          .compile (Profile.postgres.withoutCapability .cte).dialect
            (.withCtes false [⟨"x", [], .table "t"⟩] (.table "x")),
          .stats, .compile Profile.mysql.dialect (.table "t"), .clear,
          .compile Profile.postgres.dialect (.table "t")] := by
  have hnumber : Profile.postgres.dialect.fingerprint.number Hashing.colliding.profile ≠
      (Profile.postgres.withoutCapability .cte).dialect.fingerprint.number
        Hashing.colliding.profile := by decide
  have hmysql : Profile.postgres.dialect.name ≠ Profile.mysql.dialect.name := by decide
  have hids : Dialect.Identified .colliding [Profile.postgres.dialect,
      (Profile.postgres.withoutCapability .cte).dialect, Profile.mysql.dialect,
      Profile.postgres.dialect] := by
    intro d hd e he hname hprint q
    simp only [List.mem_cons, List.not_mem_nil, or_false] at hd he
    rcases hd with rfl | rfl | rfl | rfl <;> rcases he with rfl | rfl | rfl | rfl <;>
      first | rfl | exact absurd hprint hnumber | exact absurd hprint.symm hnumber |
        exact absurd hname hmysql | exact absurd hname.symm hmysql
  obtain ⟨cache, hnew, htransparent⟩ := (transparent_new .colliding).1 1 (by decide)
  exact ⟨hids, cache, hnew, htransparent _ hids⟩

end Runs

end PlanCache

end SqlAlgebra
