import Mathlib.Data.Finset.Card
import Mathlib.Data.Finset.Option
import Mathlib.Data.List.DropRight
import SqlAlgebra.Proofs.CachedPlans
import SqlAlgebra.Proofs.Outcome

/-!
# Which plans are still kept

Whether a query is answered with a kept plan can be told from the calls alone. Since the cache was
last emptied, the query must have been answered with a plan, and since it was last asked for, fewer
other queries than the cache has room for. The keys in the cache are the latest ones in a list that
forgets nothing, and the place of a key in that list is the number of other keys used after it.
-/

namespace SqlAlgebra

variable {hashing : Hashing}

namespace CacheCall

/-- The call empties the cache. -/
def isClear : CacheCall → Bool
  | clear => true
  | compile .. | stats => false

/-- The call asks for the plan of a key. -/
def asks (hashing : Hashing) (key : PlanKey) : CacheCall → Bool
  | compile d q => PlanKey.of hashing d q = key
  | clear | stats => false

/-- The key of a call that is answered with a plan, be it kept or made. -/
def used? (hashing : Hashing) : CacheCall → Option PlanKey
  | compile d q => if (q.compile d).isOk then some (.of hashing d q) else none
  | clear | stats => none

/-- The calls after the cache was last emptied. -/
def sinceClear (calls : List CacheCall) : List CacheCall := calls.rtakeWhile fun c => !c.isClear

/-- The calls after the last one that asks for a key. -/
def sinceAsked (hashing : Hashing) (key : PlanKey) (calls : List CacheCall) : List CacheCall :=
  calls.rtakeWhile fun c => !c.asks hashing key

/-- The different keys used after a key was last asked for. -/
def usedSince (hashing : Hashing) (key : PlanKey) (calls : List CacheCall) : Finset PlanKey :=
  ((sinceAsked hashing key (sinceClear calls)).filterMap (used? hashing)).toFinset

/-- Since the cache was last emptied the key has been used, and since it was last asked for, fewer
other keys than there is room for. -/
def UsedRecently (hashing : Hashing) (capacity : Nat) (calls : List CacheCall) (key : PlanKey) :
    Prop :=
  (∃ call ∈ sinceClear calls, call.used? hashing = some key) ∧
    (usedSince hashing key calls).card < capacity

/-- What a call does to the list of used keys. -/
def recencyAfter (hashing : Hashing) (keys : List PlanKey) (call : CacheCall) : List PlanKey :=
  match call.used? hashing with
  | some key => key :: keys.filter (· != key)
  | none => if call.isClear then [] else keys

/-- The keys used since the cache was last emptied, the latest in front and each once. -/
def recency (hashing : Hashing) (calls : List CacheCall) : List PlanKey :=
  calls.foldl (recencyAfter hashing) []

/-- A further call is made since the cache was emptied, or empties it. -/
theorem sinceClear_concat (calls : List CacheCall) (call : CacheCall) :
    sinceClear (calls ++ [call]) = if call.isClear then [] else sinceClear calls ++ [call] := by
  rw [sinceClear, List.rtakeWhile_concat]
  cases call.isClear <;> rfl

/-- A further call is made since a key was asked for, or asks for it. -/
theorem sinceAsked_concat (key : PlanKey) (calls : List CacheCall) (call : CacheCall) :
    sinceAsked hashing key (calls ++ [call]) =
      if call.asks hashing key then [] else sinceAsked hashing key calls ++ [call] := by
  rw [sinceAsked, List.rtakeWhile_concat]
  cases call.asks hashing key <;> rfl

/-- A further call changes the list of used keys as one call does. -/
theorem recency_concat (calls : List CacheCall) (call : CacheCall) :
    recency hashing (calls ++ [call]) = recencyAfter hashing (recency hashing calls) call := by
  rw [recency, List.foldl_append]
  rfl

/-- No key is listed twice. -/
theorem nodup_recency (hashing : Hashing) (calls : List CacheCall) :
    (recency hashing calls).Nodup := by
  induction calls using List.reverseRecOn with
  | nil => exact List.nodup_nil
  | append_singleton calls call ih =>
    rw [recency_concat, recencyAfter]
    split
    · exact List.nodup_cons.mpr ⟨by simp, ih.filter _⟩
    · split
      · exact List.nodup_nil
      · exact ih

/-- A call that uses a key does not empty the cache. -/
theorem isClear_of_used? {call : CacheCall} {key : PlanKey} (h : call.used? hashing = some key) :
    call.isClear = false := by
  cases call with
  | compile | stats => rfl
  | clear => cases h

/-- A call that uses a key asks for this one and for no other. -/
theorem asks_of_used? {call : CacheCall} {key : PlanKey} (h : call.used? hashing = some key)
    (other : PlanKey) : call.asks hashing other = decide (key = other) := by
  cases call with
  | compile d q =>
    obtain ⟨-, rfl⟩ : (q.compile d).isOk = true ∧ PlanKey.of hashing d q = key := by
      simpa [used?] using h
    rfl
  | clear | stats => cases h

/-- A call for a query that compiles uses its key. -/
theorem used?_of_ok {d : Dialect} {q : Query} {plan : Plan} (h : q.compile d = .ok plan) :
    (compile d q).used? hashing = some (.of hashing d q) := by
  rw [used?, h]
  rfl

/-- A call for a query that does not compile uses no key. -/
theorem used?_of_error {d : Dialect} {q : Query} {e : CompileError} (h : q.compile d = .error e) :
    (compile d q).used? hashing = none := by
  rw [used?, h]
  rfl

/-- A key is in the list exactly if it has been used since the cache was last emptied. -/
theorem mem_recency {calls : List CacheCall} {key : PlanKey} :
    key ∈ recency hashing calls ↔ ∃ call ∈ sinceClear calls, call.used? hashing = some key := by
  induction calls using List.reverseRecOn with
  | nil => simp [recency, sinceClear]
  | append_singleton calls call ih =>
    rw [recency_concat, recencyAfter, sinceClear_concat]
    cases hused : call.used? hashing with
    | some latest =>
      by_cases hkey : key = latest
      · subst hkey
        simp [isClear_of_used? hused, hused]
      · simp [isClear_of_used? hused, hused, hkey, ih, or_and_right, exists_or, Ne.symm hkey]
    | none =>
      cases call.isClear with
      | true => simp
      | false => simp [ih, hused, or_and_right, exists_or]

/-- Calls that ask for one key are answered alike, so a key whose query does not compile has never
been used. -/
theorem notMem_recency_of_not_isOk {calls : List CacheCall} {d : Dialect} {q : Query}
    (hds : Dialect.Identified hashing (dialects (calls ++ [.compile d q])))
    (hq : (q.compile d).isOk = false) : PlanKey.of hashing d q ∉ recency hashing calls := by
  intro hmem
  obtain ⟨call, hcall, hused⟩ := mem_recency.mp hmem
  cases call with
  | clear | stats => cases hused
  | compile e q' =>
    obtain ⟨hok, hkey⟩ :
        (q'.compile e).isOk = true ∧ PlanKey.of hashing e q' = PlanKey.of hashing d q := by
      simpa [used?] using hused
    obtain ⟨hname, hnumber, rfl⟩ := PlanKey.of_eq_of_iff.mp hkey
    have hcall : CacheCall.compile e q' ∈ calls := (List.rtakeWhile_suffix _ _).mem hcall
    have he : e ∈ dialects (calls ++ [.compile d q']) :=
      List.mem_filterMap.mpr ⟨_, List.mem_append_left _ hcall, rfl⟩
    have hd : d ∈ dialects (calls ++ [.compile d q']) := mem_dialects rfl
    rw [hds e he d hd hname hnumber, hq] at hok
    cases hok

/-- Dialects that can be told apart in all calls can be told apart in the earlier ones. -/
theorem identified_of_concat {calls : List CacheCall} {call : CacheCall}
    (hds : Dialect.Identified hashing (dialects (calls ++ [call]))) :
    Dialect.Identified hashing (dialects calls) := by
  have hsub : dialects calls ⊆ dialects (calls ++ [call]) := by
    rw [dialects, dialects, List.filterMap_append]
    exact List.subset_append_left _ _
  intro d hd e he
  exact hds d (hsub hd) e (hsub he)

/-- Right after a key is asked for, none has been used since. -/
theorem usedSince_of_asks {calls : List CacheCall} {call : CacheCall} {key : PlanKey}
    (hclear : call.isClear = false) (hasks : call.asks hashing key = true) :
    usedSince hashing key (calls ++ [call]) = ∅ := by
  rw [usedSince, sinceClear_concat, hclear, if_neg Bool.false_ne_true, sinceAsked_concat,
    if_pos hasks]
  rfl

/-- A call that does not ask for a key adds what it uses to the keys used since. -/
theorem usedSince_concat {calls : List CacheCall} {call : CacheCall} {key : PlanKey}
    (hclear : call.isClear = false) (hasks : call.asks hashing key = false) :
    usedSince hashing key (calls ++ [call]) =
      usedSince hashing key calls ∪ (call.used? hashing).toFinset := by
  rw [usedSince, sinceClear_concat, hclear, if_neg Bool.false_ne_true, sinceAsked_concat, hasks,
    if_neg Bool.false_ne_true, List.filterMap_append, List.toFinset_append]
  cases hused : call.used? hashing <;> simp [hused, usedSince]

/-- In front of a key stand the keys that have been used since it was last asked for. -/
theorem exists_recency_eq_append {calls : List CacheCall} {key : PlanKey}
    (hds : Dialect.Identified hashing (dialects calls)) (hmem : key ∈ recency hashing calls) :
    ∃ newer older, recency hashing calls = newer ++ key :: older ∧
      newer.toFinset = usedSince hashing key calls := by
  induction calls using List.reverseRecOn with
  | nil => cases hmem
  | append_singleton calls call ih =>
    have hds' := identified_of_concat hds
    rw [recency_concat, recencyAfter] at hmem ⊢
    cases hused : call.used? hashing with
    | some latest =>
      have hclear := isClear_of_used? hused
      have hasks := asks_of_used? hused key
      by_cases hkey : latest = key
      · -- The key is used again: it comes to the front, and nothing has been used since.
        refine ⟨[], (recency hashing calls).filter (· != latest), by simp [hkey], ?_⟩
        rw [usedSince_of_asks hclear (by simp [hasks, hkey])]
        rfl
      · have hmem : key ∈ recency hashing calls := by
          simp only [hused, List.mem_cons, List.mem_filter, Ne.symm hkey, false_or] at hmem
          exact hmem.1
        obtain ⟨newer, older, hsplit, hnewer⟩ := ih hds' hmem
        refine ⟨latest :: newer.filter (· != latest), older.filter (· != latest), ?_, ?_⟩
        · simp [hsplit, Ne.symm hkey]
        · rw [usedSince_concat hclear (by simp [hasks, hkey]), hused, ← hnewer]
          ext other
          by_cases hother : other = latest <;> simp [hother]
    | none =>
      cases hclear : call.isClear with
      | true => simp [hused, hclear] at hmem
      | false =>
        simp only [hused, hclear, Bool.false_eq_true, if_false] at hmem ⊢
        cases hasks : call.asks hashing key with
        | true =>
          -- A call that fails cannot have the key of one that succeeded.
          cases call with
          | clear | stats => cases hasks
          | compile d q =>
            obtain rfl : PlanKey.of hashing d q = key := by simpa [asks] using hasks
            have hq : (q.compile d).isOk = false := by simpa [used?] using hused
            exact absurd hmem (notMem_recency_of_not_isOk hds hq)
        | false =>
          rw [usedSince_concat hclear hasks, hused]
          simpa using ih hds' hmem

/-- The latest keys are those that have been used recently. -/
theorem mem_take_recency {calls : List CacheCall}
    (hds : Dialect.Identified hashing (dialects calls)) (capacity : Nat) (key : PlanKey) :
    key ∈ (recency hashing calls).take capacity ↔ UsedRecently hashing capacity calls key := by
  rw [UsedRecently, ← mem_recency]
  by_cases hmem : key ∈ recency hashing calls
  · obtain ⟨newer, older, hsplit, hnewer⟩ := exists_recency_eq_append hds hmem
    have hnodup := nodup_recency hashing calls
    rw [hsplit] at hnodup
    obtain ⟨hnodup, -, hdisjoint⟩ := List.nodup_append.mp hnodup
    have hfresh : key ∉ newer := fun h => hdisjoint key h key List.mem_cons_self rfl
    rw [← hnewer, List.toFinset_card_of_nodup hnodup, hsplit, List.take_append, List.mem_append]
    have hnot : key ∉ newer.take capacity := fun h => hfresh (List.mem_of_mem_take h)
    have hrest : key ∈ (key :: older).take (capacity - newer.length) ↔
        newer.length < capacity := by
      cases hroom : capacity - newer.length with
      | zero =>
        rw [List.take_zero]
        exact iff_of_false List.not_mem_nil (by omega)
      | succ room => exact iff_of_true List.mem_cons_self (by omega)
    simp only [hnot, false_or, hrest, List.mem_append, List.mem_cons, true_or, or_true, true_and]
  · have hnot : key ∉ (recency hashing calls).take capacity :=
      fun h => hmem (List.mem_of_mem_take h)
    exact iff_of_false hnot fun h => hmem h.1

end CacheCall

namespace Recency

variable {κ ν : Type} [BEq κ] [LawfulBEq κ] [Hashable κ] {r : Recency κ ν} {key : κ} {value : ν}

/-- The keys of the entries, the one used last in front. -/
def keys (r : Recency κ ν) : List κ := r.entries.map (·.1)

/-- The keys of the other entries are the other keys. -/
theorem map_others : (r.others key).map (·.1) = r.keys.filter (· != key) := by
  have hother : (fun entry : κ × ν => !isAt key entry) = (· != key) ∘ (·.1) := by
    funext entry
    rw [Bool.eq_iff_iff]
    simp [← isAt_iff]
  rw [keys, List.filter_map, ← hother, others]

/-- Using a key brings it to the front of the keys. -/
theorem keys_use : (r.use key value).keys = key :: r.keys.filter (· != key) := by
  rw [← map_others]
  rfl

/-- A new key stands in front, and the last ones drop out. -/
theorem keys_push {capacity : Nat} :
    (r.push capacity key value).keys = (key :: r.keys.filter (· != key)).take capacity := by
  rw [← map_others, keys, push, List.map_take]
  rfl

/-- The keys are those under which something is found. -/
theorem mem_keys : key ∈ r.keys ↔ ∃ value, r.get? key = some value := by
  constructor
  · intro hmem
    obtain ⟨entry, hentry, hkey⟩ := List.mem_map.mp hmem
    have hfound : (r.entries.find? (isAt key)).isSome := by
      rw [List.find?_isSome]
      exact ⟨entry, hentry, isAt_iff.mpr hkey⟩
    obtain ⟨found, hfind⟩ := Option.isSome_iff_exists.mp hfound
    exact ⟨found.2, Option.map_eq_some_iff.mpr ⟨found, hfind, rfl⟩⟩
  · rintro ⟨value, hget⟩
    exact List.mem_map_of_mem (mem_of_get? hget)

end Recency

section Latest

variable {α : Type} [BEq α] [LawfulBEq α] {as : List α}

/-- Bringing an element to the front of the latest ones is the same as bringing it to the front of
all and then looking at the latest. -/
theorem take_cons_filter_take (h : as.Nodup) (a : α) (n : Nat) :
    (a :: (as.take n).filter (· != a)).take n = (a :: as.filter (· != a)).take n := by
  cases n with
  | zero => rfl
  | succ n =>
    rw [List.take_succ_cons, List.take_succ_cons]
    congr 1
    by_cases hlength : n + 1 ≤ as.length
    · have hroom : n ≤ ((as.take (n + 1)).filter (· != a)).length := by
        rw [← (h.sublist (List.take_sublist _ _)).erase_eq_filter]
        have hle := List.le_length_erase (a := a) (l := as.take (n + 1))
        rw [List.length_take] at hle
        omega
      conv_rhs => rw [← List.take_append_drop (n + 1) as, List.filter_append,
        List.take_append_of_le_length hroom]
    · rw [List.take_of_length_le (l := as) (by omega)]

/-- If the element is one of the latest, none of the others has to go. -/
theorem length_cons_filter_take (h : as.Nodup) {a : α} {n : Nat} (ha : a ∈ as.take n) :
    (a :: (as.take n).filter (· != a)).length ≤ n := by
  rw [← (h.sublist (List.take_sublist _ _)).erase_eq_filter, List.length_cons,
    List.length_erase_of_mem ha, List.length_take]
  have hpos : 0 < (as.take n).length := List.length_pos_of_mem ha
  rw [List.length_take] at hpos
  omega

end Latest

namespace PlanCache

section Steps

variable {cache next : PlanCache} {d : Dialect} {q : Query} {served : Served}

/-- Answering a query does not turn the cache on or off. -/
theorem Step.enabled_eq (h : cache.Step hashing d q served next) :
    next.enabled = cache.enabled := by
  cases h <;> rfl

/-- Answering a query does not change how many plans there is room for. -/
theorem Step.capacity_eq (h : cache.Step hashing d q served next) :
    next.capacity = cache.capacity := by
  cases h <;> rfl

/-- A cache that is turned on answers with a kept plan exactly if it keeps one for the key. -/
theorem Step.kept_iff (h : cache.Step hashing d q served next) (hon : cache.enabled = true)
    {plan : Plan} : served = .kept plan ↔ cache.plans.get? (.of hashing d q) = some plan := by
  cases h with
  | off hoff => simp [hon] at hoff
  | kept plan' _ hget => simp [hget]
  | failed e _ hget => simp [hget]
  | made plan' _ hget => simp [hget]

end Steps

/-- The keys in the cache are the latest ones of the calls made so far. -/
def Tracks (hashing : Hashing) (cache : PlanCache) (calls : List CacheCall) : Prop :=
  cache.plans.keys = (CacheCall.recency hashing calls).take cache.capacity

/-- One call keeps the keys in the cache the latest ones. -/
theorem Tracks.after {cache : PlanCache} {calls : List CacheCall} {call : CacheCall}
    {ds : List Dialect} (h : cache.Tracks hashing calls) (hon : cache.enabled = true)
    (hsound : cache.Sound hashing ds) (hcall : ∀ d ∈ call.dialect?, d ∈ ds) :
    (cache.after hashing call).Tracks hashing (calls ++ [call]) := by
  rw [Tracks, CacheCall.recency_concat, CacheCall.recencyAfter]
  have hnodup := CacheCall.nodup_recency hashing calls
  cases call with
  | stats => exact h
  | clear => simp [PlanCache.after, PlanCache.clear, Recency.keys, Recency.empty, CacheCall.used?,
      CacheCall.isClear]
  | compile d q =>
    have hstep := step_compile hashing cache d q
    rw [PlanCache.after]
    generalize (cache.compile hashing d q).1 = served at hstep
    generalize (cache.compile hashing d q).2 = next at hstep
    cases hstep with
    | off hoff => simp [hon] at hoff
    | failed e _ _ hq =>
      rw [CacheCall.used?_of_error hq]
      exact h
    | kept plan _ hget =>
      -- A key that is kept is among the latest, so its use drops none of them.
      rw [CacheCall.used?_of_ok (hsound.compile_of_get? (hcall d rfl) hget)]
      have hmem := Recency.mem_keys.mpr ⟨plan, hget⟩
      rw [h] at hmem
      rw [Recency.keys_use, h, ← take_cons_filter_take hnodup]
      exact (List.take_of_length_le (length_cons_filter_take hnodup hmem)).symm
    | made plan _ _ hq =>
      rw [CacheCall.used?_of_ok hq, Recency.keys_push, h]
      exact take_cons_filter_take hnodup _ _

section Runs

variable {cache : PlanCache} {calls : List CacheCall}

/-- The last of some calls comes after the others. -/
theorem run_concat (hashing : Hashing) (cache : PlanCache) (calls : List CacheCall)
    (call : CacheCall) :
    cache.run hashing (calls ++ [call]) = (cache.run hashing calls).after hashing call := by
  rw [run, List.foldl_append]
  rfl

/-- No call turns a cache on or off or changes its room. -/
theorem run_settings (hashing : Hashing) (cache : PlanCache) (calls : List CacheCall) :
    (cache.run hashing calls).enabled = cache.enabled ∧
      (cache.run hashing calls).capacity = cache.capacity := by
  induction calls using List.reverseRecOn with
  | nil => exact ⟨rfl, rfl⟩
  | append_singleton calls call ih =>
    rw [run_concat]
    cases call with
    | compile d q =>
      have hstep := step_compile hashing (cache.run hashing calls) d q
      exact ⟨hstep.enabled_eq.trans ih.1, hstep.capacity_eq.trans ih.2⟩
    | clear | stats => exact ih

/-- After any calls, a cache that was empty and is turned on holds the latest keys. -/
theorem tracks_run (hempty : cache.plans = .empty) (hon : cache.enabled = true)
    (hds : Dialect.Identified hashing (CacheCall.dialects calls)) :
    (cache.run hashing calls).Tracks hashing calls := by
  induction calls using List.reverseRecOn with
  | nil => simp [Tracks, run, hempty, Recency.keys, Recency.empty, CacheCall.recency]
  | append_singleton calls call ih =>
    rw [run_concat]
    have htracks := ih (CacheCall.identified_of_concat hds)
    have hsound := (transparent_of_empty hempty hds).keeps calls [call] rfl
    refine htracks.after ((run_settings hashing cache calls).1.trans hon) hsound ?_
    intro d hd
    exact List.mem_filterMap.mpr ⟨call, by simp, hd⟩

/-- After some calls, the query is answered with a kept plan. -/
def Hits (hashing : Hashing) (cache : PlanCache) (before : List CacheCall) (d : Dialect)
    (q : Query) : Prop :=
  ∃ plan, ((cache.run hashing before).compile hashing d q).1 = .kept plan

/-- How a query is answered after some calls, told from these calls alone. -/
structure AnswersByRecency (hashing : Hashing) (cache : PlanCache) (capacity : Nat)
    (before : List CacheCall) (d : Dialect) (q : Query) : Prop where
  /-- There is a plan exactly if the query compiles. -/
  answers : Succeeds ((cache.run hashing before).compile hashing d q).1.result ↔
    Succeeds (q.compile d)
  /-- The plan is a kept one exactly if its key has been used recently. -/
  hits : cache.Hits hashing before d q ↔
    CacheCall.UsedRecently hashing capacity before (.of hashing d q)
  /-- A kept plan is the one that is stored under the key. -/
  stored : ∀ plan, ((cache.run hashing before).compile hashing d q).1 = .kept plan →
    (cache.run hashing before).plans.get? (.of hashing d q) = some plan
  /-- A query that does not compile drops no plan and brings none to the front. -/
  failures : ∀ e, q.compile d = .error e →
    ((cache.run hashing before).compile hashing d q).2.plans = (cache.run hashing before).plans

/-- A cache that was empty and is turned on answers as the calls before tell. -/
theorem answersByRecency_of_empty (hempty : cache.plans = .empty) (hon : cache.enabled = true)
    {before : List CacheCall} {d : Dialect} {q : Query}
    (hds : Dialect.Identified hashing (CacheCall.dialects (before ++ [.compile d q]))) :
    cache.AnswersByRecency hashing cache.capacity before d q := by
  have hds' := CacheCall.identified_of_concat hds
  obtain ⟨hon', hcapacity⟩ := run_settings hashing cache before
  have hstep := step_compile hashing (cache.run hashing before) d q
  have htransparent := transparent_of_empty hempty hds
  constructor
  · rw [htransparent.answers before d q [] rfl]
  · rw [Hits, exists_congr fun plan => hstep.kept_iff (hon'.trans hon), ← Recency.mem_keys,
      tracks_run hempty hon hds', hcapacity]
    exact CacheCall.mem_take_recency hds' _ _
  · intro plan
    exact (hstep.kept_iff (hon'.trans hon)).mp
  · exact fun e => htransparent.failures before d q [] e rfl

/-- A new cache is empty and has the settings it was asked for. -/
theorem eq_of_new {capacity : Nat} {enabled : Bool} {cache : PlanCache}
    (h : PlanCache.new capacity enabled = .ok cache) :
    cache.plans = .empty ∧ cache.enabled = enabled ∧ cache.capacity = capacity := by
  unfold PlanCache.new at h
  split at h
  · cases h
  · cases h
    exact ⟨rfl, rfl, rfl⟩

/-- A cache with room for `capacity` plans keeps the plans of the keys used last: whether a query is
answered with a kept plan can be told from the calls before it, and more room loses no hit. Name
and fingerprint must identify the dialects of these calls. -/
theorem hits_iff_usedRecently {capacity : Nat} {cache : PlanCache}
    (hnew : PlanCache.new capacity true = .ok cache) {before : List CacheCall} {d : Dialect}
    {q : Query} (hds : Dialect.Identified hashing (CacheCall.dialects (before ++ [.compile d q]))) :
    cache.AnswersByRecency hashing capacity before d q ∧
      ∀ larger wide, capacity ≤ larger → PlanCache.new larger true = .ok wide →
        cache.Hits hashing before d q → wide.Hits hashing before d q := by
  have hby {room : Nat} {fresh : PlanCache} (h : PlanCache.new room true = .ok fresh) :
      fresh.AnswersByRecency hashing room before d q := by
    obtain ⟨hempty, hon, rfl⟩ := eq_of_new h
    exact answersByRecency_of_empty hempty hon hds
  refine ⟨hby hnew, fun larger wide hle hwide hhit => ?_⟩
  obtain ⟨hused, hcard⟩ := (hby hnew).hits.mp hhit
  exact (hby hwide).hits.mpr ⟨hused, hcard.trans_le hle⟩

/-- With room for two plans, a query that is asked for again before a third one stays, and the other
one has to go, though the hash of a key does not tell it from others. -/
theorem hits_iff_usedRecently_promoted :
    Dialect.Identified .colliding (List.replicate 5 Profile.postgres.dialect) ∧
    ∃ cache, PlanCache.new 2 true = .ok cache ∧
      cache.Hits .colliding
        (["a", "b", "a", "c"].map fun t => .compile Profile.postgres.dialect (.table t))
        Profile.postgres.dialect (.table "a") ∧
      ¬ cache.Hits .colliding
        (["a", "b", "a", "c"].map fun t => .compile Profile.postgres.dialect (.table t))
        Profile.postgres.dialect (.table "b") := by
  have hids : Dialect.Identified .colliding (List.replicate 5 Profile.postgres.dialect) := by
    intro d hd e he _ _ q
    rw [List.eq_of_mem_replicate hd, List.eq_of_mem_replicate he]
  obtain ⟨cache, hnew, -⟩ := exists_new two_ne_zero true
  have hby (q : Query) : cache.AnswersByRecency .colliding 2
      (["a", "b", "a", "c"].map fun t => .compile Profile.postgres.dialect (.table t))
      Profile.postgres.dialect q := by
    refine (hits_iff_usedRecently hnew ?_).1
    exact hids
  refine ⟨hids, cache, hnew, (hby (.table "a")).hits.mpr ⟨⟨_, List.mem_cons_self, rfl⟩, ?_⟩, ?_⟩
  · decide
  · rw [(hby (.table "b")).hits]
    rintro ⟨-, hcard⟩
    revert hcard
    decide

end Runs

end PlanCache

end SqlAlgebra
