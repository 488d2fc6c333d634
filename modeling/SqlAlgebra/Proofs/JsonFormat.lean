import SqlAlgebra.Format.Json
import SqlAlgebra.Proofs.Faithfulness

/-!
# JSON is faithful

Whatever the rules are, JSON gives back what is written, as long as it is not deeper than the rules
allow. What is found at a place is never deeper when it is written again: the forms that readers
accept beside the written ones have as many arrays and objects around their parts, or more.
-/

namespace SqlAlgebra

namespace Json

/-- Items are as deep as the deepest of them. -/
theorem depthItems_le_iff {items : List Json} {n : Nat} :
    depthItems items ≤ n ↔ ∀ j ∈ items, j.depth ≤ n := by
  induction items with
  | nil => simp [depthItems]
  | cons j items ih => rw [depthItems, Nat.max_le, ih, List.forall_mem_cons]

/-- Members are as deep as the deepest of them. -/
theorem depthMembers_le_iff {members : List (String × Json)} {n : Nat} :
    depthMembers members ≤ n ↔ ∀ member ∈ members, member.2.depth ≤ n := by
  induction members with
  | nil => simp [depthMembers]
  | cons member members ih =>
    obtain ⟨name, j⟩ := member
    rw [depthMembers, Nat.max_le, ih, List.forall_mem_cons]

/-- Every item of an array is less deep than the array. -/
theorem depth_lt_of_mem_array {items : List Json} {j : Json} (h : j ∈ items) :
    j.depth < (array items).depth := by
  have hle := depthItems_le_iff.mp (Nat.le_refl _) j h
  rw [depth]
  omega

/-- Every member of an object is less deep than the object. -/
theorem depth_lt_of_mem_object {members : List (String × Json)} {member : String × Json}
    (h : member ∈ members) : member.2.depth < (object members).depth := by
  have hle := depthMembers_le_iff.mp (Nat.le_refl _) member h
  rw [depth]
  omega

/-- A signed integer is read back from its number. -/
theorem int64?_int (n : Int64) : (int n.toInt).int64? = some n := by
  have hmin := Int64.minValue_le_toInt n
  have hmax := Int64.toInt_le n
  rw [int64?, if_pos ⟨hmin, hmax⟩, Int64.ofInt_toInt]

/-- An unsigned integer is read back from its number. -/
theorem uint64?_int (n : UInt64) : (int n.toNat).uint64? = some n := by
  have hlt := n.toNat_lt_size
  rw [uint64?, if_pos ⟨by omega, by omega⟩, Int.toNat_natCast, UInt64.ofNat_toNat]

end Json

namespace JsonRules

/-- Members with different names all count. -/
theorem lastMembers_of_nodup {members : List (String × Json)} (h : (members.map (·.1)).Nodup) :
    lastMembers members = members := by
  induction members with
  | nil => rfl
  | cons member members ih =>
    obtain ⟨name, j⟩ := member
    rw [List.map_cons, List.nodup_cons] at h
    have hfresh : members.any (·.1 == name) = false := by
      rw [List.any_eq_false]
      intro other hother hname
      exact h.1 (List.mem_map.mpr ⟨other, hother, by simpa using hname⟩)
    rw [lastMembers, hfresh, if_neg Bool.false_ne_true, ih h.2]

/-- The last members of each name are among the members. -/
theorem lastMembers_subset (members : List (String × Json)) : lastMembers members ⊆ members := by
  induction members with
  | nil => exact List.Subset.refl _
  | cons member members ih =>
    obtain ⟨name, j⟩ := member
    rw [lastMembers]
    split
    · exact List.subset_cons_of_subset _ ih
    · exact List.cons_subset_cons _ ih

variable (rules : JsonRules)

/-- Whatever the rules are, members with different names all count. -/
theorem members_of_nodup {members : List (String × Json)} (h : (members.map (·.1)).Nodup) :
    rules.members members = members := by
  rw [JsonRules.members]
  split
  · exact lastMembers_of_nodup h
  · rfl

/-- Only given members count. -/
theorem members_subset (members : List (String × Json)) : rules.members members ⊆ members := by
  rw [JsonRules.members]
  split
  · exact lastMembers_subset members
  · exact List.Subset.refl _

end JsonRules

namespace JsonPlace

variable {x y : JsonPlace}

/-- The tree is not too deep for the place. -/
def Fits (x : JsonPlace) (j : Json) : Prop := ∀ room ∈ x.room, j.depth ≤ room

/-- The tree stands at the place, and is not too deep for it. -/
def Holds (x : JsonPlace) (j : Json) : Prop := x.tree = j ∧ x.Fits j

/-- Inside an array or an object there is room for one level less. -/
theorem exists_inside? {depth : Nat} (h : ∀ room ∈ x.room, depth + 1 ≤ room) :
    ∃ room, x.inside? = some room ∧ ∀ n ∈ room, depth ≤ n := by
  obtain ⟨_ | _ | room, j⟩ := x
  · exact ⟨none, rfl, by simp⟩
  · exact absurd (h 0 rfl) (by omega)
  · refine ⟨some room, rfl, fun n hn => ?_⟩
    cases hn
    have hroom := h (room + 1) rfl
    omega

/-- What there is room for inside an array or an object can stand in one. -/
theorem le_of_inside? {depth : Nat} {room : Option Nat} (h : x.inside? = some room)
    (hdepth : ∀ n ∈ room, depth ≤ n) : ∀ n ∈ x.room, depth + 1 ≤ n := by
  obtain ⟨_ | _ | outer, j⟩ := x
  · simp
  · cases h
  · cases h
    intro n hn
    cases hn
    have hroom := hdepth outer rfl
    omega

/-- Trees that are not too deep stand at the places made for them. -/
theorem forall₂_holds {room : Option Nat} {trees : List Json}
    (h : ∀ n ∈ room, ∀ j ∈ trees, j.depth ≤ n) :
    List.Forall₂ Holds (trees.map (mk room)) trees := by
  rw [List.forall₂_map_left_iff, List.forall₂_same]
  exact fun j hj => ⟨rfl, fun n hn => h n hn j hj⟩

/-- What is not null is there. -/
theorem option?_of_ne_null (h : x.tree ≠ .null) : x.option? = some (some x) := by
  unfold option?
  split
  · rename_i htree
    exact absurd htree h
  · rfl

/-- Null is nothing. -/
theorem option?_of_null (h : x.tree = .null) : x.option? = some none := by
  rw [option?, h]

/-- What is there is at the place itself. -/
theorem eq_of_option? (h : x.option? = some (some y)) : x = y := by
  unfold option? at h
  split at h
  · cases h
  · exact Option.some.inj (Option.some.inj h)

/-- An array holds its items. -/
theorem holds_list {items : List Json} (h : x.Holds (.array items)) :
    ∃ ys, x.list? = some ys ∧ List.Forall₂ Holds ys items := by
  obtain ⟨htree, hfits⟩ := h
  obtain ⟨room, hroom, hdepth⟩ := exists_inside? hfits
  refine ⟨items.map (mk room), ?_, forall₂_holds fun n hn => ?_⟩
  · rw [list?, htree, hroom]
    rfl
  · exact Json.depthItems_le_iff.mp (hdepth n hn)

/-- The names of different fields give their trees. -/
theorem map_lookup_of_nodup {fields : List (String × Json)} (h : (fields.map (·.1)).Nodup) :
    (fields.map (·.1)).map (fun name => List.lookup name fields) = (fields.map (·.2)).map some := by
  rw [List.map_map, List.map_map]
  exact List.map_congr_left fun field hfield => Format.lookup_of_nodup h hfield

/-- Different names are there once. -/
theorem countP_le_one_of_nodup {fields : List (String × Json)} (h : (fields.map (·.1)).Nodup)
    (name : String) : fields.countP (·.1 == name) ≤ 1 := by
  have hcount := List.nodup_iff_count_le_one.mp h name
  rwa [List.count, List.countP_map] at hcount

/-- A pair is found in an array of two. -/
theorem holds_pair {j k : Json} (h : x.Holds (.array [j, k])) :
    ∃ y z, x.pair? = some (y, z) ∧ y.Holds j ∧ z.Holds k := by
  obtain ⟨ys, hlist, hitems⟩ := holds_list h
  obtain _ | ⟨hy, _ | ⟨hz, _ | _⟩⟩ := hitems
  exact ⟨_, _, by rw [pair?, hlist], hy, hz⟩

/-- An object holds its members. -/
theorem holds_members (rules : JsonRules) {fields : List (String × Json)}
    (hnames : (fields.map (·.1)).Nodup) (h : x.Holds (.object fields)) :
    ∃ ys, rules.members? (fields.map (·.1)) x = some (ys.map some) ∧
      List.Forall₂ Holds ys (fields.map (·.2)) := by
  obtain ⟨htree, hfits⟩ := h
  obtain ⟨room, hroom, hdepth⟩ := exists_inside? hfits
  refine ⟨(fields.map (·.2)).map (mk room), ?_, forall₂_holds fun n hn => ?_⟩
  · have honce : (fields.map (·.1)).all
        (fun name => decide (fields.countP (·.1 == name) ≤ 1)) = true := by
      simpa using fun name _ _ => countP_le_one_of_nodup hnames name
    have hfound := congrArg (List.map (Option.map (mk room))) (map_lookup_of_nodup hnames)
    rw [JsonRules.members?, htree]
    simp only [rules.members_of_nodup hnames, honce, if_true, hroom, Option.map_some]
    simpa using hfound
  · exact List.forall_mem_map.mpr (Json.depthMembers_le_iff.mp (hdepth n hn))

/-- A record with different names is found field by field. -/
theorem holds_record (rules : JsonRules) {fields : List (String × Json)}
    (hnames : (fields.map (·.1)).Nodup) (h : x.Holds (.object fields)) :
    ∃ ys, rules.record? (fields.map (·.1)) x = some (ys.map some) ∧
      List.Forall₂ Holds ys (fields.map (·.2)) := by
  rw [JsonRules.record?, h.1]
  exact holds_members rules hnames h

/-- The fields of a variant with different names are found one by one. -/
theorem holds_fields (rules : JsonRules) {fields : List (String × Json)}
    (hnames : (fields.map (·.1)).Nodup) (h : x.Holds (.object fields)) :
    ∃ ys, rules.fields? (fields.map (·.1)) x = some (ys.map some) ∧
      List.Forall₂ Holds ys (fields.map (·.2)) := by
  rw [JsonRules.fields?, h.1]
  exact holds_members rules hnames h

/-- A text is the name of a kind to which nothing belongs. -/
theorem holds_text (rules : JsonRules) {name : String} (h : x.Holds (.text name)) :
    rules.variant? x = some (name, none) := by
  rw [JsonRules.variant?, h.1]

/-- The only member of an object has the name of a kind. -/
theorem holds_wrapped (rules : JsonRules) {name : String} {j : Json}
    (h : x.Holds (.object [(name, j)])) :
    ∃ y, rules.variant? x = some (name, some y) ∧ y.Holds j := by
  obtain ⟨htree, hfits⟩ := h
  obtain ⟨room, hroom, hdepth⟩ := exists_inside? hfits
  refine ⟨⟨room, j⟩, ?_, rfl, fun n hn => ?_⟩
  · have hmembers : rules.members [(name, j)] = [(name, j)] := rules.members_of_nodup (by simp)
    rw [JsonRules.variant?, htree]
    simp only [hmembers, hroom, Option.map_some]
  · exact Json.depthMembers_le_iff.mp (hdepth n hn) (name, j) List.mem_cons_self

/-- The parts are inside the array or the object at the place. -/
def Opens (x : JsonPlace) (parts : List (Option JsonPlace)) : Prop :=
  ∃ room, x.inside? = some room ∧
    ∀ y, some y ∈ parts → y.room = room ∧ y.tree.depth < x.tree.depth

/-- What is inside has fewer levels. -/
theorem Opens.levels_lt {parts : List (Option JsonPlace)} (h : x.Opens parts)
    (hy : some y ∈ parts) : y.tree.depth < x.tree.depth := by
  obtain ⟨room, -, hparts⟩ := h
  exact (hparts y hy).2

/-- The items of a list are inside the array. -/
theorem opens_list {ys : List JsonPlace} (h : x.list? = some ys) : x.Opens (ys.map some) := by
  unfold list? at h
  split at h
  · rename_i items htree
    obtain ⟨room, hroom, rfl⟩ := Option.map_eq_some_iff.mp h
    refine ⟨room, hroom, fun y hy => ?_⟩
    obtain ⟨j, hj, rfl⟩ : ∃ j ∈ items, mk room j = y := by simpa using hy
    rw [htree]
    exact ⟨rfl, Json.depth_lt_of_mem_array hj⟩
  · cases h

/-- The parts of a pair are inside the array. -/
theorem opens_pair {z : JsonPlace} (h : x.pair? = some (y, z)) : x.Opens [some y, some z] := by
  unfold pair? at h
  split at h
  · rename_i hlist
    cases h
    exact opens_list hlist
  · cases h

/-- Fields that are listed without names are inside the array. -/
theorem opens_listed {names : List String} {parts : List (Option JsonPlace)}
    (h : x.listed? names = some parts) : x.Opens parts := by
  unfold listed? at h
  split at h
  · rename_i places hplaces
    split at h
    · cases h
      exact opens_list hplaces
    · cases h
  · cases h

/-- Fields that are found by their names are inside the object. -/
theorem opens_members {rules : JsonRules} {names : List String} {parts : List (Option JsonPlace)}
    (h : rules.members? names x = some parts) : x.Opens parts := by
  unfold JsonRules.members? at h
  split at h
  · rename_i given htree
    simp only at h
    split at h
    · obtain ⟨room, hroom, rfl⟩ := Option.map_eq_some_iff.mp h
      refine ⟨room, hroom, fun y hy => ?_⟩
      obtain ⟨name, -, hname⟩ := List.mem_map.mp hy
      obtain ⟨j, hj, rfl⟩ := Option.map_eq_some_iff.mp hname
      obtain ⟨before, after, hmembers, -⟩ := List.lookup_eq_some_iff.mp hj
      have hmem : (name, j) ∈ rules.members given := by simp [hmembers]
      rw [htree]
      exact ⟨rfl, Json.depth_lt_of_mem_object (rules.members_subset given hmem)⟩
    · cases h
  · cases h

/-- The fields of a record are inside the array or the object. -/
theorem opens_record {rules : JsonRules} {names : List String} {parts : List (Option JsonPlace)}
    (h : rules.record? names x = some parts) : x.Opens parts := by
  unfold JsonRules.record? at h
  split at h
  · exact opens_listed h
  · exact opens_members h

/-- The fields of a variant are inside the array or the object. -/
theorem opens_fields {rules : JsonRules} {names : List String} {parts : List (Option JsonPlace)}
    (h : rules.fields? names x = some parts) : x.Opens parts := by
  unfold JsonRules.fields? at h
  split at h
  · split at h
    · exact opens_listed h
    · cases h
  · exact opens_members h

/-- What belongs to a variant is inside the object. -/
theorem opens_variant {rules : JsonRules} {name : String}
    (h : rules.variant? x = some (name, some y)) : x.Opens [some y] := by
  unfold JsonRules.variant? at h
  split at h
  · cases h
  · rename_i given htree
    split at h
    · rename_i hmembers
      obtain ⟨room, hroom, heq⟩ := Option.map_eq_some_iff.mp h
      cases heq
      refine ⟨room, hroom, fun z hz => ?_⟩
      obtain rfl : z = _ := by simpa using hz
      have hmem := rules.members_subset given (hmembers ▸ List.mem_cons_self)
      rw [htree]
      exact ⟨rfl, Json.depth_lt_of_mem_object hmem⟩
    · cases h
  · cases h

/-- A finite number is carried exactly. -/
theorem holds_float {rules : JsonRules} {v : Binary64} (hv : v.isFinite = true)
    (h : x.Holds ((Format.json rules).binary64 v)) : (Format.json rules).binary64? x = some v := by
  have htree : x.tree = if v.isFinite then Json.float v else .null := h.1
  rw [if_pos hv] at htree
  change x.tree.binary64?.filter Binary64.isFinite = some v
  rw [htree, Json.binary64?, Option.filter_some, hv, if_pos rfl]

/-- A number that is read is finite, and is not written in more than one piece. -/
theorem fits_float {rules : JsonRules} {v : Binary64}
    (h : (Format.json rules).binary64? x = some v) :
    v.isFinite = true ∧ x.Fits ((Format.json rules).binary64 v) := by
  have hfilter : x.tree.binary64?.filter Binary64.isFinite = some v := h
  have hv : v.isFinite = true := (Option.filter_eq_some_iff.mp hfilter).2
  refine ⟨hv, fun n _ => ?_⟩
  have hwritten : (Format.json rules).binary64 v = .float v := if_pos hv
  rw [hwritten]
  exact Nat.zero_le n

/-- What is written for the parts has room inside. -/
theorem Opens.exists_room {rules : JsonRules} {parts : List (Option JsonPlace)} {trees : List Json}
    (h : x.Opens parts)
    (hfits : List.Forall₂ ((Format.json rules).FieldFits Fits) parts trees) :
    ∃ room, x.inside? = some room ∧ ∀ n ∈ room, ∀ j ∈ trees, j.depth ≤ n := by
  obtain ⟨room, hroom, hparts⟩ := h
  refine ⟨room, hroom, fun n hn => ?_⟩
  clear hroom
  induction hfits with
  | nil => simp
  | cons hfit _ ih =>
    rename_i part j parts trees _
    rw [List.forall_mem_cons]
    refine ⟨?_, ih fun y hy => hparts y (List.mem_cons_of_mem part hy)⟩
    cases part with
    | none =>
      obtain rfl : j = Json.null := hfit
      exact Nat.zero_le n
    | some y =>
      obtain ⟨rfl, -⟩ := hparts y List.mem_cons_self
      exact hfit n hn

/-- If the parts have room for what is written for them, the place has room for an array of it. -/
theorem Opens.fits_array (rules : JsonRules) {parts : List (Option JsonPlace)} {trees : List Json}
    (h : x.Opens parts)
    (hfits : List.Forall₂ ((Format.json rules).FieldFits Fits) parts trees) :
    x.Fits (.array trees) := by
  obtain ⟨room, hroom, hdepth⟩ := h.exists_room hfits
  exact le_of_inside? hroom fun n hn => Json.depthItems_le_iff.mpr (hdepth n hn)

/-- If the parts have room for what is written for them, the place has room for an object of it. -/
theorem Opens.fits_object (rules : JsonRules) (names : List String)
    {parts : List (Option JsonPlace)} {trees : List Json} (h : x.Opens parts)
    (hfits : List.Forall₂ ((Format.json rules).FieldFits Fits) parts trees) :
    x.Fits (.object (names.zip trees)) := by
  obtain ⟨room, hroom, hdepth⟩ := h.exists_room hfits
  refine le_of_inside? hroom fun n hn => Json.depthMembers_le_iff.mpr fun member hmember => ?_
  exact hdepth n hn member.2 (List.of_mem_zip hmember).2

end JsonPlace

namespace Format

/-- What an option holds in JSON is not null. -/
theorem Solid.ne_null {rules : JsonRules} {j : Json} (h : (json rules).Solid j) : j ≠ .null := by
  cases h <;> exact Json.noConfusion

/-- Parts are less deep than what they are in. -/
theorem descends_json (rules : JsonRules) : (json rules).Descends where
  option h := by
    obtain rfl := JsonPlace.eq_of_option? h
    exact Nat.le_refl _
  list h hy := Nat.le_of_lt ((JsonPlace.opens_list h).levels_lt (List.mem_map_of_mem hy))
  pair h := by
    have hopens := JsonPlace.opens_pair h
    exact ⟨Nat.le_of_lt (hopens.levels_lt (by simp)), Nat.le_of_lt (hopens.levels_lt (by simp))⟩
  record h hy := Nat.le_of_lt ((JsonPlace.opens_record h).levels_lt hy)
  variant h := (JsonPlace.opens_variant h).levels_lt (List.mem_singleton.mpr rfl)
  fields h hy := Nat.le_of_lt ((JsonPlace.opens_fields h).levels_lt hy)

/-- JSON gives back what is written, whatever the rules are. -/
def faithful_json (rules : JsonRules) : (json rules).Faithful where
  Holds := JsonPlace.Holds
  Fits := JsonPlace.Fits
  descends := descends_json rules
  holds_start h := ⟨rfl, h⟩
  holds_bool h := congrArg Json.bool? h.1
  holds_text h := congrArg Json.text? h.1
  holds_int64 {_ n} h := (congrArg Json.int64? h.1).trans (Json.int64?_int n)
  holds_uint64 {_ n} h := (congrArg Json.uint64? h.1).trans (Json.uint64?_int n)
  holds_binary64 hv h := JsonPlace.holds_float hv h
  holds_absent h := JsonPlace.option?_of_null h.1
  holds_present {x w} hsolid h := by
    have hne : x.tree ≠ .null := h.1 ▸ hsolid.ne_null
    exact ⟨x, JsonPlace.option?_of_ne_null hne, h⟩
  holds_list h := JsonPlace.holds_list h
  holds_pair h := JsonPlace.holds_pair h
  holds_record hnames h := JsonPlace.holds_record rules hnames h
  holds_constant h := ⟨none, JsonPlace.holds_text rules h, rfl⟩
  holds_wrapped h := JsonPlace.holds_wrapped rules h
  holds_tagged hnames h := by
    obtain ⟨y, hvariant, hy⟩ := JsonPlace.holds_wrapped rules h
    obtain ⟨ys, hfields, hys⟩ := JsonPlace.holds_fields rules hnames hy
    exact ⟨y, ys, hvariant, hfields, hys⟩
  fits_bool _ := fun _ _ => Nat.zero_le _
  fits_text _ := fun _ _ => Nat.zero_le _
  fits_int64 _ := fun _ _ => Nat.zero_le _
  fits_uint64 _ := fun _ _ => Nat.zero_le _
  fits_binary64 h := JsonPlace.fits_float h
  fits_absent _ := fun _ _ => Nat.zero_le _
  fits_present h hfits := by
    obtain rfl := JsonPlace.eq_of_option? h
    exact hfits
  fits_list h hfits :=
    (JsonPlace.opens_list h).fits_array rules (List.forall₂_map_left_iff.mpr hfits)
  fits_pair h hv hw := (JsonPlace.opens_pair h).fits_array rules (.cons hv (.cons hw .nil))
  fits_record h hfits := (JsonPlace.opens_record h).fits_object rules _ hfits
  fits_constant _ _ := fun _ _ => Nat.zero_le _
  fits_wrapped {_ _ name _} h hfits :=
    (JsonPlace.opens_variant h).fits_object rules [name] (.cons hfits .nil)
  fits_tagged {_ _ name names _ _} h hfields hfits :=
    (JsonPlace.opens_variant h).fits_object rules [name]
      (.cons ((JsonPlace.opens_fields hfields).fits_object rules names hfits) .nil)

end Format

end SqlAlgebra
