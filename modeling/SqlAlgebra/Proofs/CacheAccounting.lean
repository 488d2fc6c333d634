import SqlAlgebra.Proofs.CacheHistory

/-!
# The books of a plan cache

The counters of a cache are checked against what the calls did: how many queries were asked for, how
many of them had to be compiled, which of these failed and which left a plan behind. Every plan that
was stored is still there, or has been dropped for another one, or was there when the cache was
emptied. The counters have 64 bits, so the books balance modulo their size, and they are exact as
long as fewer queries were asked for.
-/

namespace SqlAlgebra

namespace Recency

variable {κ ν : Type} [BEq κ] [LawfulBEq κ] [Hashable κ] {r : Recency κ ν} {key : κ} {value : ν}
  {capacity : Nat}

/-- No key has two entries, and there are no more entries than there is room for. -/
structure Within (capacity : Nat) (r : Recency κ ν) : Prop where
  nodup : r.keys.Nodup
  size_le : r.size ≤ capacity

omit [BEq κ] [LawfulBEq κ] [Hashable κ] in
/-- There are as many keys as entries. -/
theorem size_eq_length_keys : r.size = r.keys.length := (List.length_map _).symm

omit [BEq κ] [LawfulBEq κ] [Hashable κ] in
/-- There is room for no entries at all. -/
theorem within_empty : (empty : Recency κ ν).Within capacity := ⟨List.nodup_nil, Nat.zero_le _⟩

/-- Nothing is found under what is not a key. -/
theorem get?_eq_none_iff : r.get? key = none ↔ key ∉ r.keys := by
  rw [mem_keys, ← Option.ne_none_iff_exists', not_ne_iff]

/-- Using an entry only moves it. -/
theorem size_use (hnodup : r.keys.Nodup) (hkey : key ∈ r.keys) :
    (r.use key value).size = r.size := by
  rw [size_eq_length_keys, size_eq_length_keys, keys_use, ← hnodup.erase_eq_filter,
    List.length_cons, List.length_erase_of_mem hkey]
  have hpos : 0 < r.keys.length := List.length_pos_of_mem hkey
  omega

/-- Using an entry needs no more room. -/
theorem Within.use (h : r.Within capacity) (hkey : key ∈ r.keys) :
    (r.use key value).Within capacity where
  nodup := by
    rw [keys_use]
    exact List.nodup_cons.mpr ⟨by simp, h.nodup.filter _⟩
  size_le := (size_use h.nodup hkey).trans_le h.size_le

/-- A new key stands in front of all the old ones that there is room for. -/
theorem keys_push_of_notMem (hkey : key ∉ r.keys) :
    (r.push capacity key value).keys = (key :: r.keys).take capacity := by
  have hfilter : r.keys.filter (· != key) = r.keys := by
    refine List.filter_eq_self.mpr fun other hother => ?_
    simpa using fun h : other = key => hkey (h ▸ hother)
  rw [keys_push, hfilter]

/-- A new entry drops another one exactly if all the room is taken. -/
theorem overflows_of_notMem (hkey : key ∉ r.keys) :
    r.overflows capacity key = decide (capacity ≤ r.size) := by
  have hothers : r.others key = r.entries := by
    refine List.filter_eq_self.mpr fun entry hentry => ?_
    have hother : ¬ isAt key entry = true :=
      fun h => hkey (isAt_iff.mp h ▸ List.mem_map_of_mem hentry)
    simpa using hother
  rw [overflows, hothers, size]

/-- A new entry is one more, unless it takes the place of another. -/
theorem size_push (h : r.size ≤ capacity) (hkey : key ∉ r.keys) :
    (r.push capacity key value).size + (if r.overflows capacity key then 1 else 0) =
      r.size + 1 := by
  rw [overflows_of_notMem hkey, size_eq_length_keys, keys_push_of_notMem hkey, List.length_take,
    List.length_cons, ← size_eq_length_keys]
  by_cases hfull : capacity ≤ r.size
  · simp only [hfull, decide_true, if_true]
    omega
  · simp only [hfull, decide_false, Bool.false_eq_true, if_false]
    omega

/-- A new entry needs no more room than there is. -/
theorem Within.push (h : r.Within capacity) (hkey : key ∉ r.keys) :
    (r.push capacity key value).Within capacity where
  nodup := by
    rw [keys_push_of_notMem hkey]
    exact (List.nodup_cons.mpr ⟨hkey, h.nodup⟩).sublist (List.take_sublist _ _)
  size_le := by
    rw [size_eq_length_keys, keys_push_of_notMem hkey]
    exact List.length_take_le _ _

/-- If there is room at all, a new key is among the keys. -/
theorem mem_keys_push (hroom : capacity ≠ 0) : key ∈ (r.push capacity key value).keys := by
  obtain ⟨room, rfl⟩ := Nat.exists_eq_succ_of_ne_zero hroom
  rw [keys_push, List.take_succ_cons]
  exact List.mem_cons_self

end Recency

/-- The call asks for a plan. -/
def CacheCall.isCompile : CacheCall → Bool
  | compile .. => true
  | clear | stats => false

namespace PlanCache

variable {hashing : Hashing}

section Events

variable (hashing : Hashing)

/-- The call finds a plan. -/
def finds (cache : PlanCache) : CacheCall → Bool
  | .compile d q => (cache.plans.get? (.of hashing d q)).isSome
  | .clear | .stats => false

/-- The call finds no plan, so that its query has to be compiled. -/
def compiles (cache : PlanCache) : CacheCall → Bool
  | .compile d q => (cache.plans.get? (.of hashing d q)).isNone
  | .clear | .stats => false

/-- The call is answered with an error. -/
def fails (cache : PlanCache) : CacheCall → Bool
  | .compile d q => !(cache.compile hashing d q).1.result.isOk
  | .clear | .stats => false

/-- The cache has a plan for the key of the call after it, and had none before. -/
def stores (cache : PlanCache) : CacheCall → Bool
  | .compile d q =>
    (cache.plans.get? (.of hashing d q)).isNone &&
      ((cache.compile hashing d q).2.plans.get? (.of hashing d q)).isSome
  | .clear | .stats => false

/-- A plan is made and finds the cache full. -/
def drops (cache : PlanCache) (call : CacheCall) : Bool :=
  compiles hashing cache call && !fails hashing cache call &&
    decide (cache.stats.size = cache.stats.capacity)

/-- How many plans the call finds when it empties the cache. -/
def forgets (cache : PlanCache) : CacheCall → Nat
  | .clear => cache.stats.size
  | .compile .. | .stats => 0

/-- An amount that depends on a call and on the cache before it, added up over calls. -/
def total (amount : PlanCache → CacheCall → Nat) (cache : PlanCache) : List CacheCall → Nat
  | [] => 0
  | call :: calls => amount cache call + total amount (cache.after hashing call) calls

/-- In how many calls something is the case. -/
def times (event : PlanCache → CacheCall → Bool) (cache : PlanCache) (calls : List CacheCall) :
    Nat :=
  cache.total hashing (fun before call => (event before call).toNat) calls

/-- The last call comes on top of what the others add up to. -/
theorem total_concat (amount : PlanCache → CacheCall → Nat) (cache : PlanCache)
    (calls : List CacheCall) (call : CacheCall) :
    cache.total hashing amount (calls ++ [call]) =
      cache.total hashing amount calls + amount (cache.run hashing calls) call := by
  induction calls generalizing cache with
  | nil => simp [total, run]
  | cons first calls ih =>
    rw [List.cons_append, total, total, ih, Nat.add_assoc]
    rfl

/-- The last call counts once more if something is the case in it. -/
theorem times_concat (event : PlanCache → CacheCall → Bool) (cache : PlanCache)
    (calls : List CacheCall) (call : CacheCall) :
    cache.times hashing event (calls ++ [call]) =
      cache.times hashing event calls + (event (cache.run hashing calls) call).toNat :=
  total_concat hashing _ cache calls call

end Events

/-- A cache in use: it is turned on and has room, and its plans are within it. -/
structure InUse (cache : PlanCache) : Prop where
  enabled : cache.enabled = true
  capacity_ne : cache.capacity ≠ 0
  within : cache.plans.Within cache.capacity

/-- What one call changes in the books. -/
structure Booked (hashing : Hashing) (cache : PlanCache) (call : CacheCall) : Prop where
  /-- A call that asks for a plan finds one, or has to have it compiled. -/
  asked : (cache.finds hashing call).toNat + (cache.compiles hashing call).toNat =
    call.isCompile.toNat
  found : (cache.after hashing call).stats.hits =
    cache.stats.hits + .ofNat (cache.finds hashing call).toNat
  missed : (cache.after hashing call).stats.misses =
    cache.stats.misses + .ofNat (cache.compiles hashing call).toNat
  /-- What is compiled fails or is stored. -/
  compiled : (cache.compiles hashing call).toNat =
    (cache.fails hashing call).toNat + (cache.stores hashing call).toNat
  /-- Plans come in by being stored and go out by being dropped or forgotten. -/
  plans : (cache.after hashing call).stats.size + (cache.drops hashing call).toNat +
      cache.forgets call =
    cache.stats.size + (cache.stores hashing call).toNat
  /-- A plan is dropped when one that is made finds the cache full, and at no other time. -/
  evicted : (cache.after hashing call).stats.evictions =
    cache.stats.evictions + .ofNat (cache.drops hashing call).toNat
  /-- A failure is counted as a miss and changes nothing else. -/
  failed : cache.fails hashing call = true →
    cache.after hashing call = { cache with misses := cache.misses + 1 }

section Steps

variable {cache : PlanCache}

/-- What a query does that a cache in use is asked for, each time with the cache afterwards: it is
answered with a kept plan, it fails, or a plan is made for it and stored. -/
theorem InUse.compile_cases (h : cache.InUse) (hashing : Hashing) (d : Dialect) (q : Query) :
    (cache.finds hashing (.compile d q) = true ∧ cache.compiles hashing (.compile d q) = false ∧
      cache.fails hashing (.compile d q) = false ∧ cache.stores hashing (.compile d q) = false ∧
      ∃ plans, plans.size = cache.plans.size ∧
        cache.after hashing (.compile d q) = { cache with plans, hits := cache.hits + 1 }) ∨
    (cache.finds hashing (.compile d q) = false ∧ cache.compiles hashing (.compile d q) = true ∧
      cache.fails hashing (.compile d q) = true ∧ cache.stores hashing (.compile d q) = false ∧
      cache.after hashing (.compile d q) = { cache with misses := cache.misses + 1 }) ∨
    (cache.finds hashing (.compile d q) = false ∧ cache.compiles hashing (.compile d q) = true ∧
      cache.fails hashing (.compile d q) = false ∧ cache.stores hashing (.compile d q) = true ∧
      ∃ plans, plans.size + (if cache.plans.size = cache.capacity then 1 else 0) =
          cache.plans.size + 1 ∧
        cache.after hashing (.compile d q) = { cache with
          plans
          misses := cache.misses + 1
          evictions := cache.evictions +
            if cache.plans.size = cache.capacity then 1 else 0 }) := by
  have hstep := step_compile hashing cache d q
  simp only [finds, compiles, fails, stores, after]
  generalize (cache.compile hashing d q).1 = served at hstep
  generalize (cache.compile hashing d q).2 = next at hstep
  cases hstep with
  | off hoff =>
    rw [h.enabled] at hoff
    cases hoff
  | kept plan _ hget =>
    have hkey := Recency.mem_keys.mpr ⟨plan, hget⟩
    rw [hget]
    exact .inl ⟨rfl, rfl, rfl, rfl, _, Recency.size_use h.within.nodup hkey, rfl⟩
  | failed e _ hget _ =>
    rw [hget]
    exact .inr (.inl ⟨rfl, rfl, rfl, rfl, rfl⟩)
  | made plan _ hget _ =>
    have hkey := Recency.get?_eq_none_iff.mp hget
    have hkept : .of hashing d q ∈
        (cache.plans.push cache.capacity (.of hashing d q) plan).keys :=
      Recency.mem_keys_push h.capacity_ne
    obtain ⟨value, hvalue⟩ := Recency.mem_keys.mp hkept
    -- the cache is never fuller than full
    have hfull : (cache.plans.overflows cache.capacity (.of hashing d q) = true) =
        (cache.plans.size = cache.capacity) := by
      have hle := h.within.size_le
      rw [Recency.overflows_of_notMem hkey, decide_eq_true_eq, eq_iff_iff]
      omega
    simp only [hfull]
    rw [hget, hvalue]
    refine .inr (.inr ⟨rfl, rfl, rfl, rfl, _, ?_, rfl⟩)
    simp only [← hfull]
    exact Recency.size_push h.within.size_le hkey

/-- A query that is asked for is booked as what it does. -/
theorem InUse.booked_compile (h : cache.InUse) (hashing : Hashing) (d : Dialect) (q : Query) :
    cache.Booked hashing (.compile d q) := by
  obtain ⟨hfinds, hcompiles, hfails, hstores, plans, hsize, hafter⟩ |
    ⟨hfinds, hcompiles, hfails, hstores, hafter⟩ |
    ⟨hfinds, hcompiles, hfails, hstores, plans, hsize, hafter⟩ := h.compile_cases hashing d q
  · constructor <;>
      simp [drops, hfinds, hcompiles, hfails, hstores, hafter, stats, forgets, CacheCall.isCompile,
        hsize]
  · constructor <;>
      simp [drops, hfinds, hcompiles, hfails, hstores, hafter, stats, forgets, CacheCall.isCompile]
  · by_cases hfull : cache.plans.size = cache.capacity
    all_goals
      simp only [hfull, if_true, if_false] at hsize hafter
      constructor <;>
        simp [drops, hfinds, hcompiles, hfails, hstores, hafter, stats, forgets,
          CacheCall.isCompile, hfull, hsize]

/-- Every call is booked as what it does. -/
theorem InUse.booked (h : cache.InUse) (hashing : Hashing) (call : CacheCall) :
    cache.Booked hashing call := by
  cases call with
  | compile d q => exact h.booked_compile hashing d q
  | clear =>
    constructor <;>
      simp [after, clear, stats, finds, compiles, fails, stores, drops, forgets,
        CacheCall.isCompile, Recency.empty, Recency.size]
  | stats =>
    constructor <;>
      simp [after, stats, finds, compiles, fails, stores, drops, forgets, CacheCall.isCompile]

/-- A cache stays in use, whatever the call is. -/
theorem InUse.after (h : cache.InUse) (hashing : Hashing) (call : CacheCall) :
    (cache.after hashing call).InUse := by
  cases call with
  | stats => exact h
  | clear => exact ⟨h.enabled, h.capacity_ne, Recency.within_empty⟩
  | compile d q =>
    have hstep := step_compile hashing cache d q
    refine ⟨hstep.enabled_eq.trans h.enabled, hstep.capacity_eq ▸ h.capacity_ne, ?_⟩
    rw [PlanCache.after, hstep.capacity_eq]
    generalize (cache.compile hashing d q).1 = served at hstep
    generalize (cache.compile hashing d q).2 = next at hstep
    cases hstep with
    | off | failed => exact h.within
    | kept plan _ hget => exact h.within.use (Recency.mem_keys.mpr ⟨plan, hget⟩)
    | made plan _ hget => exact h.within.push (Recency.get?_eq_none_iff.mp hget)

end Steps

section Runs

variable {cache : PlanCache} {calls : List CacheCall}

/-- A cache stays in use, whatever the calls are. -/
theorem InUse.run (h : cache.InUse) (hashing : Hashing) (calls : List CacheCall) :
    (cache.run hashing calls).InUse := by
  induction calls using List.reverseRecOn with
  | nil => exact h
  | append_singleton calls call ih =>
    rw [run_concat]
    exact ih.after hashing call

/-- What happened in calls, in numbers without a limit, and that the counters follow them. -/
structure Ledger (hashing : Hashing) (cache : PlanCache) (calls : List CacheCall) : Prop where
  hits : (cache.run hashing calls).stats.hits = .ofNat (cache.times hashing (finds hashing) calls)
  misses : (cache.run hashing calls).stats.misses =
    .ofNat (cache.times hashing (compiles hashing) calls)
  evictions : (cache.run hashing calls).stats.evictions =
    .ofNat (cache.times hashing (drops hashing) calls)
  asked : cache.times hashing (finds hashing) calls +
    cache.times hashing (compiles hashing) calls = calls.countP CacheCall.isCompile
  outcomes : cache.times hashing (compiles hashing) calls =
    cache.times hashing (fails hashing) calls + cache.times hashing (stores hashing) calls
  plans : cache.times hashing (stores hashing) calls =
    (cache.run hashing calls).stats.size + cache.times hashing (drops hashing) calls +
      cache.total hashing forgets calls

/-- Each call is booked, so the ledger of a cache that starts empty is right after all of them. -/
theorem InUse.ledger (h : cache.InUse) (hstart : cache.stats = ⟨0, 0, 0, 0, cache.capacity⟩)
    (hashing : Hashing) (calls : List CacheCall) : cache.Ledger hashing calls := by
  induction calls using List.reverseRecOn with
  | nil =>
    have hrun : cache.run hashing [] = cache := rfl
    constructor <;> simp [hrun, hstart, times, total]
  | append_singleton calls call ih =>
    have hbooked := (h.run hashing calls).booked hashing call
    constructor
    · rw [run_concat, hbooked.found, ih.hits, times_concat, UInt64.ofNat_add]
    · rw [run_concat, hbooked.missed, ih.misses, times_concat, UInt64.ofNat_add]
    · rw [run_concat, hbooked.evicted, ih.evictions, times_concat, UInt64.ofNat_add]
    · have hcount : [call].countP CacheCall.isCompile = call.isCompile.toNat := by
        cases call <;> rfl
      rw [times_concat, times_concat, List.countP_append, hcount, ← hbooked.asked, ← ih.asked]
      omega
    · rw [times_concat, times_concat, times_concat, hbooked.compiled, ih.outcomes]
      omega
    · have hplans := hbooked.plans
      have hbefore := ih.plans
      rw [run_concat, times_concat, times_concat, total_concat]
      omega

/-- The books of a cache with room for `capacity` plans balance after calls, up to multiples of the
size of the counters. -/
structure Accounted (hashing : Hashing) (cache : PlanCache) (capacity : Nat)
    (calls : List CacheCall) : Prop where
  /-- Hits and misses together are the queries that were asked for. -/
  asked : (cache.run hashing calls).stats.hits + (cache.run hashing calls).stats.misses =
    .ofNat (calls.countP CacheCall.isCompile)
  /-- The misses are the queries that were compiled. -/
  compiled : (cache.run hashing calls).stats.misses =
    .ofNat (cache.times hashing (compiles hashing) calls)
  /-- Each of them failed or left a plan behind. -/
  outcomes : cache.times hashing (compiles hashing) calls =
    cache.times hashing (fails hashing) calls + cache.times hashing (stores hashing) calls
  /-- There are never more plans than there is room for. -/
  size_le : (cache.run hashing calls).stats.size ≤ capacity
  /-- A plan that was stored is still there, or was dropped, or forgotten with all others. -/
  plans : .ofNat (cache.times hashing (stores hashing) calls) =
    .ofNat (cache.run hashing calls).stats.size + (cache.run hashing calls).stats.evictions +
      .ofNat (cache.total hashing forgets calls)
  capacity_eq : (cache.run hashing calls).stats.capacity = capacity
  /-- And so does the next call keep the books. -/
  next : ∀ call, (cache.run hashing calls).Booked hashing call

/-- The books balance exactly. -/
structure AccountedExactly (hashing : Hashing) (cache : PlanCache) (calls : List CacheCall) :
    Prop where
  asked : (cache.run hashing calls).stats.hits.toNat +
    (cache.run hashing calls).stats.misses.toNat = calls.countP CacheCall.isCompile
  compiled : (cache.run hashing calls).stats.misses.toNat =
    cache.times hashing (compiles hashing) calls
  outcomes : (cache.run hashing calls).stats.misses.toNat =
    cache.times hashing (fails hashing) calls + cache.times hashing (stores hashing) calls
  plans : cache.times hashing (stores hashing) calls =
    (cache.run hashing calls).stats.size + (cache.run hashing calls).stats.evictions.toNat +
      cache.total hashing forgets calls

/-- What is right in the ledger is right of its counters. -/
theorem InUse.accounted (h : cache.InUse) (hledger : cache.Ledger hashing calls) :
    cache.Accounted hashing cache.capacity calls := by
  have hcapacity := (run_settings hashing cache calls).2
  constructor
  · rw [hledger.hits, hledger.misses, ← UInt64.ofNat_add, hledger.asked]
  · exact hledger.misses
  · exact hledger.outcomes
  · rw [← hcapacity]
    exact (h.run hashing calls).within.size_le
  · rw [hledger.evictions, hledger.plans, UInt64.ofNat_add, UInt64.ofNat_add]
  · exact hcapacity
  · exact (h.run hashing calls).booked hashing

/-- No counter has started again from zero as long as fewer queries were asked for than it can
count. -/
theorem Ledger.exactly (hledger : cache.Ledger hashing calls)
    (hfew : calls.countP CacheCall.isCompile < UInt64.size) :
    cache.AccountedExactly hashing calls := by
  have hasked := hledger.asked
  have houtcomes := hledger.outcomes
  have hplans := hledger.plans
  have hhits : (cache.run hashing calls).stats.hits.toNat =
      cache.times hashing (finds hashing) calls := by
    rw [hledger.hits, UInt64.toNat_ofNat_of_lt' (by omega)]
  have hmisses : (cache.run hashing calls).stats.misses.toNat =
      cache.times hashing (compiles hashing) calls := by
    rw [hledger.misses, UInt64.toNat_ofNat_of_lt' (by omega)]
  have hevictions : (cache.run hashing calls).stats.evictions.toNat =
      cache.times hashing (drops hashing) calls := by
    rw [hledger.evictions, UInt64.toNat_ofNat_of_lt' (by omega)]
  constructor
  · rw [hhits, hmisses, hasked]
  · exact hmisses
  · rw [hmisses, houtcomes]
  · rw [hevictions, hplans]

/-- No call reaches the books of a cache that is turned off and empty. -/
theorem run_of_off (hoff : cache.enabled = false) (hempty : cache.plans = .empty)
    (hashing : Hashing) (calls : List CacheCall) : cache.run hashing calls = cache := by
  induction calls using List.reverseRecOn with
  | nil => rfl
  | append_singleton calls call ih =>
    rw [run_concat, ih]
    cases call with
    | compile d q => simp [after, compile, hoff]
    | clear => rw [after, clear, ← hempty]
    | stats => rfl

/-- The counters of a new cache account for all that its calls do, whatever the calls are and
however keys are hashed: modulo the size of the counters in any case, and exactly if fewer queries
were asked for. Those of a cache that is turned off stay at zero. -/
theorem accounted_new (hashing : Hashing) {capacity : Nat} {enabled : Bool} {cache : PlanCache}
    (hnew : PlanCache.new capacity enabled = .ok cache) (calls : List CacheCall) :
    (enabled = true → cache.Accounted hashing capacity calls ∧
      (calls.countP CacheCall.isCompile < UInt64.size → cache.AccountedExactly hashing calls)) ∧
    (enabled = false → (cache.run hashing calls).stats = ⟨0, 0, 0, 0, capacity⟩) := by
  unfold PlanCache.new at hnew
  split at hnew
  · cases hnew
  · rename_i hroom
    cases hnew
    constructor
    · rintro rfl
      have hinUse : InUse ⟨capacity, true, .empty, 0, 0, 0⟩ := ⟨rfl, hroom, Recency.within_empty⟩
      have hledger := hinUse.ledger rfl hashing calls
      exact ⟨hinUse.accounted hledger, hledger.exactly⟩
    · rintro rfl
      rw [run_of_off rfl rfl]
      rfl

/-- A hit, a plan that has to go, a failure and a plan that is forgotten, with room for one. -/
def busyCalls : List CacheCall :=
  [.compile Profile.postgres.dialect (.table "a"), .compile Profile.postgres.dialect (.table "a"),
    .compile Profile.postgres.dialect (.table "b"),
    .compile Profile.postgres.dialect (.step (.table "a") (.orderBy [])), .stats, .clear,
    .compile Profile.postgres.dialect (.table "a")]

/-- The three plans that were stored are the one in the cache, the one dropped and the one
forgotten. -/
theorem accounted_new_busyCalls :
    ∃ on off, PlanCache.new 1 true = .ok on ∧ PlanCache.new 1 false = .ok off ∧
      (on.run .colliding busyCalls).stats = ⟨1, 4, 1, 1, 1⟩ ∧
      on.times .colliding (stores .colliding) busyCalls = 3 ∧
      on.total .colliding forgets busyCalls = 1 ∧
      on.Accounted .colliding 1 busyCalls ∧ on.AccountedExactly .colliding busyCalls ∧
      (off.run .colliding busyCalls).stats = ⟨0, 0, 0, 0, 1⟩ := by
  have hfew : busyCalls.countP CacheCall.isCompile < UInt64.size := by decide
  have hnew (enabled : Bool) :
      PlanCache.new 1 enabled = .ok ⟨1, enabled, .empty, 0, 0, 0⟩ := rfl
  have hon := (accounted_new .colliding (hnew true) busyCalls).1 rfl
  have hoff := (accounted_new .colliding (hnew false) busyCalls).2 rfl
  exact ⟨_, _, hnew true, hnew false, rfl, rfl, rfl, hon.1, hon.2 hfew, hoff⟩

end Runs

end PlanCache

end SqlAlgebra
