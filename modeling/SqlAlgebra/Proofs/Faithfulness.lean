import Mathlib.Data.List.Nodup
import SqlAlgebra.Format.Basic
import SqlAlgebra.Proofs.Outcome

/-!
# Faithful formats

What storing values asks of a format. A place holds what was written there if a reader finds all of
it again, part by part. And whatever a reader finds at a place could as well be written there: a
format may limit how large documents are, but it does not give out what it would not take back.
-/

namespace SqlAlgebra

namespace Format

variable {ω δ α β : Type} (f : Format ω δ)

/-- What is never taken for a missing value. -/
inductive Solid : ω → Prop
  | text (s : String) : Solid (f.text s)
  | uint64 (n : UInt64) : Solid (f.uint64 n)
  | record (fields : List (String × ω)) : Solid (f.record fields)
  | constant (name : String) : Solid (f.constant name)
  | wrapped (name : String) (w : ω) : Solid (f.wrapped name w)
  | tagged (name : String) (fields : List (String × ω)) : Solid (f.tagged name fields)

/-- What is written could stand in the place of a field, which may be missing if it says so. -/
def FieldFits (Fits : δ → ω → Prop) : Option δ → ω → Prop
  | none, w => w = f.absent
  | some y, w => Fits y w

/-- There are not more levels in the parts of a place than at the place itself, and fewer in what
belongs to a kind. -/
structure Descends : Prop where
  option {x y : δ} : f.option? x = some (some y) → f.levels y ≤ f.levels x
  list {x y : δ} {ys : List δ} : f.list? x = some ys → y ∈ ys → f.levels y ≤ f.levels x
  pair {x y z : δ} : f.pair? x = some (y, z) → f.levels y ≤ f.levels x ∧ f.levels z ≤ f.levels x
  record {x y : δ} {names : List String} {ys : List (Option δ)} :
    f.record? names x = some ys → some y ∈ ys → f.levels y ≤ f.levels x
  variant {x y : δ} {name : String} :
    f.variant? x = some (name, some y) → f.levels y < f.levels x
  fields {x y : δ} {names : List String} {ys : List (Option δ)} :
    f.fields? names x = some ys → some y ∈ ys → f.levels y ≤ f.levels x

/-- A format that gives back what is written. -/
structure Faithful where
  /-- What is written stands at the place. -/
  Holds : δ → ω → Prop
  /-- What is written could stand at the place. -/
  Fits : δ → ω → Prop
  descends : f.Descends
  /-- What could stand in some document can be made a document of its own. -/
  holds_start {v w : ω} : Fits (f.start v) w → Holds (f.start w) w
  -- What was put together is taken apart.
  holds_bool {x : δ} {b : Bool} : Holds x (f.bool b) → f.bool? x = some b
  holds_text {x : δ} {s : String} : Holds x (f.text s) → f.text? x = some s
  holds_int64 {x : δ} {n : Int64} : Holds x (f.int64 n) → f.int64? x = some n
  holds_uint64 {x : δ} {n : UInt64} : Holds x (f.uint64 n) → f.uint64? x = some n
  /-- Finite floating-point numbers are carried exactly. -/
  holds_binary64 {x : δ} {v : Binary64} :
    v.isFinite = true → Holds x (f.binary64 v) → f.binary64? x = some v
  holds_absent {x : δ} : Holds x f.absent → f.option? x = some none
  holds_present {x : δ} {w : ω} :
    f.Solid w → Holds x (f.present w) → ∃ y, f.option? x = some (some y) ∧ Holds y w
  holds_list {x : δ} {ws : List ω} :
    Holds x (f.list ws) → ∃ ys, f.list? x = some ys ∧ List.Forall₂ Holds ys ws
  holds_pair {x : δ} {v w : ω} :
    Holds x (f.pair v w) → ∃ y z, f.pair? x = some (y, z) ∧ Holds y v ∧ Holds z w
  holds_record {x : δ} {fields : List (String × ω)} :
    (fields.map (·.1)).Nodup → Holds x (f.record fields) →
    ∃ ys, f.record? (fields.map (·.1)) x = some (ys.map some) ∧
      List.Forall₂ Holds ys (fields.map (·.2))
  holds_constant {x : δ} {name : String} : Holds x (f.constant name) →
    ∃ contents, f.variant? x = some (name, contents) ∧ f.isEmpty contents = true
  holds_wrapped {x : δ} {name : String} {w : ω} : Holds x (f.wrapped name w) →
    ∃ y, f.variant? x = some (name, some y) ∧ Holds y w
  holds_tagged {x : δ} {name : String} {fields : List (String × ω)} :
    (fields.map (·.1)).Nodup → Holds x (f.tagged name fields) →
    ∃ y ys, f.variant? x = some (name, some y) ∧
      f.fields? (fields.map (·.1)) y = some (ys.map some) ∧
      List.Forall₂ Holds ys (fields.map (·.2))
  -- What is found could have been put together there.
  fits_bool {x : δ} {b : Bool} : f.bool? x = some b → Fits x (f.bool b)
  fits_text {x : δ} {s : String} : f.text? x = some s → Fits x (f.text s)
  fits_int64 {x : δ} {n : Int64} : f.int64? x = some n → Fits x (f.int64 n)
  fits_uint64 {x : δ} {n : UInt64} : f.uint64? x = some n → Fits x (f.uint64 n)
  /-- There are no other floating-point numbers than finite ones. -/
  fits_binary64 {x : δ} {v : Binary64} :
    f.binary64? x = some v → v.isFinite = true ∧ Fits x (f.binary64 v)
  fits_absent {x : δ} : f.option? x = some none → Fits x f.absent
  fits_present {x y : δ} {w : ω} : f.option? x = some (some y) → Fits y w → Fits x (f.present w)
  fits_list {x : δ} {ys : List δ} {ws : List ω} :
    f.list? x = some ys → List.Forall₂ Fits ys ws → Fits x (f.list ws)
  fits_pair {x y z : δ} {v w : ω} :
    f.pair? x = some (y, z) → Fits y v → Fits z w → Fits x (f.pair v w)
  fits_record {x : δ} {names : List String} {ys : List (Option δ)} {ws : List ω} :
    f.record? names x = some ys → List.Forall₂ (f.FieldFits Fits) ys ws →
    Fits x (f.record (names.zip ws))
  fits_constant {x : δ} {name : String} {contents : Option δ} :
    f.variant? x = some (name, contents) → f.isEmpty contents = true → Fits x (f.constant name)
  fits_wrapped {x y : δ} {name : String} {w : ω} :
    f.variant? x = some (name, some y) → Fits y w → Fits x (f.wrapped name w)
  fits_tagged {x y : δ} {name : String} {names : List String} {ys : List (Option δ)}
    {ws : List ω} :
    f.variant? x = some (name, some y) → f.fields? names y = some ys →
    List.Forall₂ (f.FieldFits Fits) ys ws → Fits x (f.tagged name (names.zip ws))

/-- A name that no other entry has is found. -/
theorem lookup_of_nodup {table : List (String × α)} (hnames : (table.map (·.1)).Nodup)
    {entry : String × α} (h : entry ∈ table) : List.lookup entry.1 table = some entry.2 := by
  obtain ⟨before, after, rfl⟩ := List.append_of_mem h
  refine List.lookup_eq_some_iff.mpr ⟨before, after, rfl, fun other hother => ?_⟩
  rw [List.map_append, List.map_cons] at hnames
  have hne := (List.nodup_append.mp hnames).2.2 other.1 (List.mem_map_of_mem hother) entry.1
    List.mem_cons_self
  simpa using Ne.symm hne

/-- A value that no other entry has is written by its name. -/
theorem ofNamed_of_nodup [DecidableEq α] {table : List (String × α)}
    (hvalues : (table.map (·.2)).Nodup) {entry : String × α} (h : entry ∈ table) :
    f.ofNamed table entry.2 = f.constant entry.1 := by
  obtain ⟨before, after, rfl⟩ := List.append_of_mem h
  rw [List.map_append, List.map_cons] at hvalues
  have hfind : (before ++ entry :: after).find? (·.2 == entry.2) = some entry := by
    refine List.find?_eq_some_iff_append.mpr ⟨by simp, before, after, rfl, fun other hother => ?_⟩
    have hne := (List.nodup_append.mp hvalues).2.2 other.2 (List.mem_map_of_mem hother) entry.2
      List.mem_cons_self
    simpa using hne
  rw [ofNamed, hfind]

namespace Faithful

variable {f} (h : f.Faithful)

/-- What is written stands at the place, and there are fewer levels there than a limit. -/
def Within (limit : Nat) (x : δ) (w : ω) : Prop := f.levels x < limit ∧ h.Holds x w

namespace Within

variable {h} {limit : Nat} {x : δ}

/-- A value that is there is found one place further in. -/
theorem present {w : ω} (hx : h.Within limit x (f.present w)) (hw : f.Solid w) :
    ∃ y, f.option? x = some (some y) ∧ h.Within limit y w := by
  obtain ⟨hlevels, hholds⟩ := hx
  obtain ⟨y, hoption, hy⟩ := h.holds_present hw hholds
  exact ⟨y, hoption, Nat.lt_of_le_of_lt (h.descends.option hoption) hlevels, hy⟩

/-- A list is found item by item, each within the same limit. -/
theorem list {ws : List ω} (hx : h.Within limit x (f.list ws)) :
    ∃ ys, f.list? x = some ys ∧ List.Forall₂ (h.Within limit) ys ws := by
  obtain ⟨hlevels, hholds⟩ := hx
  obtain ⟨ys, hlist, hys⟩ := h.holds_list hholds
  refine ⟨ys, hlist, (List.forall₂_and_left _ _).mpr ⟨fun y hy => ?_, hys⟩⟩
  exact Nat.lt_of_le_of_lt (h.descends.list hlist hy) hlevels

/-- A pair is found as its two parts, each within the same limit. -/
theorem pair {v w : ω} (hx : h.Within limit x (f.pair v w)) :
    ∃ y z, f.pair? x = some (y, z) ∧ h.Within limit y v ∧ h.Within limit z w := by
  obtain ⟨hlevels, hholds⟩ := hx
  obtain ⟨y, z, hpair, hy, hz⟩ := h.holds_pair hholds
  obtain ⟨hle, hle'⟩ := h.descends.pair hpair
  exact ⟨y, z, hpair, ⟨Nat.lt_of_le_of_lt hle hlevels, hy⟩, Nat.lt_of_le_of_lt hle' hlevels, hz⟩

/-- A record with different names is found field by field, each within the same limit. -/
theorem record {fields : List (String × ω)} (hx : h.Within limit x (f.record fields))
    (hnames : (fields.map (·.1)).Nodup) :
    ∃ ys, f.record? (fields.map (·.1)) x = some (ys.map some) ∧
      List.Forall₂ (h.Within limit) ys (fields.map (·.2)) := by
  obtain ⟨hlevels, hholds⟩ := hx
  obtain ⟨ys, hrecord, hys⟩ := h.holds_record hnames hholds
  refine ⟨ys, hrecord, (List.forall₂_and_left _ _).mpr ⟨fun y hy => ?_, hys⟩⟩
  exact Nat.lt_of_le_of_lt (h.descends.record hrecord (List.mem_map_of_mem hy)) hlevels

/-- What belongs to a kind has a level less. -/
theorem wrapped {name : String} {w : ω} (hx : h.Within (limit + 1) x (f.wrapped name w)) :
    ∃ y, f.variant? x = some (name, some y) ∧ h.Within limit y w := by
  obtain ⟨hlevels, hholds⟩ := hx
  obtain ⟨y, hvariant, hy⟩ := h.holds_wrapped hholds
  have hlt := h.descends.variant hvariant
  exact ⟨y, hvariant, by omega, hy⟩

/-- The fields of a kind have a level less. -/
theorem tagged {name : String} {fields : List (String × ω)}
    (hx : h.Within (limit + 1) x (f.tagged name fields)) (hnames : (fields.map (·.1)).Nodup) :
    ∃ y ys, f.variant? x = some (name, some y) ∧
      f.fields? (fields.map (·.1)) y = some (ys.map some) ∧
      List.Forall₂ (h.Within limit) ys (fields.map (·.2)) := by
  obtain ⟨hlevels, hholds⟩ := hx
  obtain ⟨y, ys, hvariant, hfields, hys⟩ := h.holds_tagged hnames hholds
  refine ⟨y, ys, hvariant, hfields, (List.forall₂_and_left _ _).mpr ⟨fun z hz => ?_, hys⟩⟩
  have hlt := h.descends.variant hvariant
  have hle := h.descends.fields hfields (List.mem_map_of_mem hz)
  omega

/-- What stands within a limit stands within every larger one. -/
theorem mono {limit' : Nat} {w : ω} (hx : h.Within limit x w) (hle : limit ≤ limit') :
    h.Within limit' x w :=
  ⟨Nat.lt_of_lt_of_le hx.1 hle, hx.2⟩

end Within

/-- Values with a property are read where they are written, up to a limit of levels. Whatever is
read has the property, and could be written where it is read. -/
structure Carries (limit : Nat) (write : α → ω) (read : δ → Option α) (P : α → Prop) : Prop where
  read_of_within {x : δ} {a : α} : P a → h.Within limit x (write a) → read x = some a
  fits_of_read {x : δ} {a : α} : read x = some a → h.Fits x (write a) ∧ P a

namespace Carries

variable {h} {limit : Nat} {write : α → ω} {read : δ → Option α} {P : α → Prop}

/-- The property may be said in another way. -/
theorem congr {Q : α → Prop} (hc : h.Carries limit write read P) (hPQ : ∀ a, P a ↔ Q a) :
    h.Carries limit write read Q where
  read_of_within {_ a} ha hx := hc.read_of_within ((hPQ a).mpr ha) hx
  fits_of_read {_ a} ha := (hc.fits_of_read ha).imp_right (hPQ a).mp

/-- Lists are carried if their items are. -/
theorem list (hc : h.Carries limit write read P) :
    h.Carries limit (fun as => f.list (as.map write)) (f.listOf? read)
      (fun as => ∀ a ∈ as, P a) where
  read_of_within {x as} has hx := by
    obtain ⟨ys, hlist, hys⟩ := hx.list
    rw [listOf?, hlist, Option.bind_some, mapM_eq_some]
    rw [List.forall₂_map_right_iff] at hys
    have hwithin := ((List.forall₂_and_left as ys).mpr ⟨has, hys.flip⟩).flip
    exact hwithin.imp fun y a ha => hc.read_of_within ha.1 ha.2
  fits_of_read {x as} has := by
    obtain ⟨ys, hlist, hys⟩ := Option.bind_eq_some_iff.mp has
    rw [mapM_eq_some] at hys
    have hfits := hys.imp fun y a ha => (hc.fits_of_read ha).1
    have hP := hys.flip.imp fun a y ha => And.intro (hc.fits_of_read ha).2 ha
    exact ⟨h.fits_list hlist (List.forall₂_map_right_iff.mpr hfits),
      ((List.forall₂_and_left as ys).mp hP).1⟩

/-- Values that may be missing are carried if they are when they are there. -/
theorem option (hc : h.Carries limit write read P) (hsolid : ∀ a, f.Solid (write a)) :
    h.Carries limit (f.ofOption write) (f.optionOf? read) (fun o => ∀ a ∈ o, P a) where
  read_of_within {x o} ho hx := by
    cases o with
    | none => rw [optionOf?, h.holds_absent hx.2]
    | some a =>
      obtain ⟨y, hoption, hy⟩ := hx.present (hsolid a)
      rw [optionOf?, hoption]
      exact congrArg (Option.map some) (hc.read_of_within (ho a rfl) hy)
  fits_of_read {x o} ho := by
    unfold optionOf? at ho
    split at ho
    · rename_i y hoption
      obtain ⟨a, ha, rfl⟩ := Option.map_eq_some_iff.mp ho
      obtain ⟨hfits, hP⟩ := hc.fits_of_read ha
      refine ⟨h.fits_present hoption hfits, fun b hb => ?_⟩
      cases hb
      exact hP
    · rename_i hoption
      cases ho
      exact ⟨h.fits_absent hoption, by simp⟩
    · cases ho

/-- Pairs are carried if both their parts are. -/
theorem pair {write' : β → ω} {read' : δ → Option β} {Q : β → Prop}
    (hc : h.Carries limit write read P) (hc' : h.Carries limit write' read' Q) :
    h.Carries limit (fun ab => f.pair (write ab.1) (write' ab.2)) (f.pairOf? read read')
      (fun ab => P ab.1 ∧ Q ab.2) where
  read_of_within {x ab} hab hx := by
    obtain ⟨y, z, hpair, hy, hz⟩ := hx.pair
    rw [pairOf?, hpair]
    simp only [hc.read_of_within hab.1 hy, hc'.read_of_within hab.2 hz]
    rfl
  fits_of_read {x ab} hab := by
    unfold pairOf? at hab
    split at hab
    · rename_i y z hpair
      simp only [Option.bind_eq_bind, Option.bind_eq_some_iff, Option.pure_def,
        Option.some.injEq] at hab
      obtain ⟨a, ha, b, hb, rfl⟩ := hab
      obtain ⟨hfits, hP⟩ := hc.fits_of_read ha
      obtain ⟨hfits', hQ⟩ := hc'.fits_of_read hb
      exact ⟨h.fits_pair hpair hfits hfits', hP, hQ⟩
    · cases hab

/-- What is read in a field that must be there could be written there. -/
theorem required (hc : h.Carries limit write read P) {field : Option δ} {a : α}
    (ha : Format.required read field = some a) : f.FieldFits h.Fits field (write a) ∧ P a := by
  obtain ⟨x, rfl, hx⟩ := Option.bind_eq_some_iff.mp ha
  exact hc.fits_of_read hx

/-- What is read in a field that need not be there could be written there. -/
theorem optional {write : Option α → ω} {P : Option α → Prop}
    (hc : h.Carries limit write (f.optionOf? read) P) (habsent : write none = f.absent)
    (hnone : P none) {field : Option δ} {o : Option α} (ho : f.optional read field = some o) :
    f.FieldFits h.Fits field (write o) ∧ P o := by
  cases field with
  | none =>
    cases ho
    exact ⟨habsent, hnone⟩
  | some x => exact hc.fits_of_read ho

/-- Every value of a table with different names and values is carried by its name. -/
theorem named [DecidableEq α] {table : List (String × α)} (hnames : (table.map (·.1)).Nodup)
    (hvalues : (table.map (·.2)).Nodup) :
    h.Carries limit (f.ofNamed table) (f.named? table) (fun a => a ∈ table.map (·.2)) where
  read_of_within {x a} ha hx := by
    obtain ⟨entry, hentry, rfl⟩ := List.mem_map.mp ha
    rw [f.ofNamed_of_nodup hvalues hentry] at hx
    obtain ⟨contents, hvariant, hempty⟩ := h.holds_constant hx.2
    have hconstant : f.constant? x = some entry.1 := by
      rw [constant?, hvariant]
      exact if_pos hempty
    rw [named?, hconstant]
    exact lookup_of_nodup hnames hentry
  fits_of_read {x a} ha := by
    obtain ⟨name, hname, hlookup⟩ := Option.bind_eq_some_iff.mp ha
    obtain ⟨before, after, heq, -⟩ := List.lookup_eq_some_iff.mp hlookup
    have hentry : (name, a) ∈ table := by simp [heq]
    refine ⟨?_, List.mem_map_of_mem hentry⟩
    rw [f.ofNamed_of_nodup hvalues hentry]
    unfold constant? at hname
    split at hname
    · rename_i contents hvariant
      split at hname
      · rename_i hempty
        cases hname
        exact h.fits_constant hvariant hempty
      · cases hname
    · cases hname

/-- If every value has a name, every value is carried. -/
theorem all_named [DecidableEq α] {table : List (String × α)} (hnames : (table.map (·.1)).Nodup)
    (hvalues : (table.map (·.2)).Nodup) (hall : ∀ a, a ∈ table.map (·.2)) :
    h.Carries limit (f.ofNamed table) (f.named? table) (fun _ => True) :=
  (named hnames hvalues).congr fun a => iff_true_intro (hall a)

end Carries

end Faithful

end Format

end SqlAlgebra
