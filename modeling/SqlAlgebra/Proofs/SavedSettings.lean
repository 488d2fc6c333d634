import SqlAlgebra.Proofs.DocumentIntegers
import SqlAlgebra.Proofs.Outcome
import SqlAlgebra.Proofs.WrittenSettings
import SqlAlgebra.Settings.Files

/-!
# Saved settings

Settings that were read from a text can be saved, since their capacity is a number of the text or
the default one. They have been checked, so what is written is accepted again, a file that holds it
is loaded as the same settings, and each of their dialects has a profile.
-/

namespace SqlAlgebra

section Capacity

variable {storage : Storage} {j : Json}

/-- The fields of a tree in which no integer is too large have none either. -/
theorem Json.Signed.fields {names : List String} {fields : List (Option Json)} (h : j.Signed)
    (hj : storage.fields? names j = some fields) :
    ∀ field ∈ fields, ∀ part ∈ field, part.Signed := by
  intro field hfield part hpart
  cases j with
  | array items =>
    have hfields : names.mapIdx (fun i _ => items[i]?) = fields := by
      have hj : (if items.length ≤ names.length || storage.surplus then
          some (names.mapIdx fun i _ => items[i]?) else none) = some fields := hj
      split at hj
      · exact Option.some.inj hj
      · cases hj
    rw [← hfields, List.mem_mapIdx] at hfield
    obtain ⟨i, -, hi⟩ := hfield
    rw [← hi] at hpart
    exact Json.signed_array.mp h part (List.mem_of_getElem? hpart)
  | object members =>
    have hfields : names.map (fun name => List.lookup name members) = fields := Option.some.inj hj
    rw [← hfields, List.mem_map] at hfield
    obtain ⟨name, -, rfl⟩ := hfield
    obtain ⟨before, after, rfl, -⟩ := List.lookup_eq_some_iff.mp hpart
    exact Json.signed_object.mp h (name, part) (by simp)
  | _ => cases hj

/-- What is read with a default is the default or what is there. -/
theorem Json.defaulting_eq_some {α : Type} {value a : α} {read : Json → Option α}
    {field : Option Json} (h : Json.defaulting value read field = some a) :
    a = value ∨ ∃ j ∈ field, read j = some a := by
  cases field with
  | none => exact .inl (Option.some.inj h).symm
  | some j => exact .inr ⟨j, rfl, h⟩

/-- An unsigned integer is read from its number. -/
theorem Json.toNat_of_uint64? {c : UInt64} (h : j.uint64? = some c) : j = .int c.toNat := by
  unfold Json.uint64? at h
  split at h
  case h_1 n =>
    split at h
    case isTrue hn =>
      rw [← Option.some.inj h, UInt64.toNat_ofNat_of_lt' (by omega), Int.toNat_of_nonneg hn.1]
    case isFalse => cases h
  case h_2 => cases h

/-- The default capacity is a signed integer. -/
theorem CacheSettings.default_capacity_le :
    (({} : CacheSettings).capacity.toNat : Int) ≤ Int64.maxValue.toInt := by decide

/-- A capacity that is read from a tree in which no integer is too large is a signed integer. -/
theorem CacheSettings.capacity_le {c : CacheSettings} (h : j.Signed)
    (hj : ofJson? storage j = some c) : (c.capacity.toNat : Int) ≤ Int64.maxValue.toInt := by
  unfold ofJson? at hj
  split at hj
  case h_1 enabled capacity hfields =>
    simp only [Option.bind_eq_bind, Option.bind_eq_some_iff] at hj
    obtain ⟨enabled', -, capacity', hcapacity, hc⟩ := hj
    rw [← Option.some.inj hc]
    rcases Json.defaulting_eq_some hcapacity with hdefault | ⟨part, hpart, hread⟩
    · rw [hdefault]
      exact CacheSettings.default_capacity_le
    · have hsigned : part.Signed := h.fields hfields capacity (by simp) part hpart
      rw [Json.toNat_of_uint64? hread] at hsigned
      exact hsigned
  case h_2 => cases hj

/-- A capacity that comes from a text fits into the integers of texts. -/
theorem Settings.capacity_le {s : Settings} (h : j.Signed) (hj : ofJson? storage j = some s) :
    (s.cache.capacity.toNat : Int) ≤ Int64.maxValue.toInt := by
  unfold ofJson? at hj
  split at hj
  case h_1 cache dialects hfields =>
    simp only [Option.bind_eq_bind, Option.bind_eq_some_iff] at hj
    obtain ⟨cache', hcache, dialects', -, hs⟩ := hj
    rw [← Option.some.inj hs]
    rcases Json.defaulting_eq_some hcache with hdefault | ⟨part, hpart, hread⟩
    · rw [hdefault]
      exact CacheSettings.default_capacity_le
    · exact CacheSettings.capacity_le (h.fields hfields cache (by simp) part hpart) hread
  case h_2 => cases hj

end Capacity

section Profiles

/-- Taking capabilities away one by one takes away those of the list. -/
theorem Profile.foldl_withoutCapability (p : Profile) (disabled : List Capability) :
    disabled.foldl withoutCapability p = { p with
      capabilities := ⟨fun c => p.capabilities.contains c && !disabled.contains c⟩ } := by
  induction disabled generalizing p with
  | nil => simp
  | cons x disabled ih =>
    have hset : (⟨fun c => (p.capabilities.erase x).contains c && !disabled.contains c⟩ :
        CapabilitySet) = ⟨fun c => p.capabilities.contains c && !(x :: disabled).contains c⟩ := by
      ext c
      simp only [CapabilitySet.erase, List.contains_cons, Bool.not_or, bne]
      ac_rfl
    rw [List.foldl_cons, ih]
    exact congrArg (fun capabilities => { p with capabilities }) hset

/-- The profile is the base's with what was chosen in place of what the base has, and its
capabilities are the chosen ones, or else those of the base, without the disabled ones. -/
structure DialectSettings.Describes (d : DialectSettings) (base p : Profile) : Prop where
  fields : p = { base with
    name := d.name
    placeholder := d.placeholder.getD base.placeholder
    quote := d.quote.getD base.quote
    capabilities := p.capabilities }
  capabilities : ∀ c, p.capabilities.contains c = true ↔
    c ∈ d.capabilities.getD base.capabilities.toList ∧ c ∉ d.disabled

/-- The settings of a dialect that has a profile describe it from its base. -/
theorem DialectSettings.exists_describes {d : DialectSettings} {p : Profile}
    (h : d.profile = .ok p) : ∃ base, Profile.builtin? d.base = some base ∧ d.Describes base p := by
  unfold profile at h
  split at h
  case h_1 => cases h
  case h_2 base hbase =>
    refine ⟨base, hbase, ?_⟩
    dsimp only at h
    rw [Profile.foldl_withoutCapability] at h
    rw [← Except.ok.inj h]
    cases hchosen : d.capabilities with
    | none => exact ⟨rfl, fun c => by simp [hchosen, CapabilitySet.mem_toList]⟩
    | some members =>
      exact ⟨rfl, fun c => by
        simp [hchosen, Profile.withCapabilities, CapabilitySet.contains_ofList]⟩

namespace Settings

variable {s : Settings}

/-- Settings pass the check if the cache has room for a plan and every dialect has a profile. -/
theorem check_eq_ok {s' : Settings} :
    s.check = .ok s' ↔ s' = s ∧ s.cache.capacity ≠ 0 ∧ ∀ d ∈ s.dialects, Succeeds d.profile := by
  unfold check
  split
  case isTrue hzero => simp [hzero]
  case isFalse hzero =>
    rw [← succeeds_mapM]
    cases s.dialects.mapM DialectSettings.profile with
    | error e => simp [Except.map]
    | ok profiles => simp [Except.map, hzero, eq_comm]

/-- A configured name has the profile of the first dialect of that name. -/
theorem exists_profile {name : String} (hcheck : s.check = .ok s)
    (hname : ∃ d ∈ s.dialects, d.name = name) :
    ∃ before d after base p, s.dialects = before ++ d :: after ∧
      (∀ d' ∈ before, d'.name ≠ name) ∧ d.name = name ∧ Profile.builtin? d.base = some base ∧
      s.profile name = .ok p ∧ d.Describes base p := by
  have hsome : (s.dialects.find? (·.name == name)).isSome := by
    simpa [List.find?_isSome] using hname
  obtain ⟨d, hfind⟩ := Option.isSome_iff_exists.mp hsome
  obtain ⟨hd, before, after, hsplit, hbefore⟩ := List.find?_eq_some_iff_append.mp hfind
  obtain ⟨p, hp⟩ := (check_eq_ok.mp hcheck).2.2 d (List.mem_of_find?_eq_some hfind)
  obtain ⟨base, hbase, hdescribes⟩ := DialectSettings.exists_describes hp
  have hprofile : s.profile name = .ok p := by
    rw [profile, hfind]
    exact hp
  exact ⟨before, d, after, base, p, hsplit, by simpa using hbefore, by simpa using hd, hbase,
    hprofile, hdescribes⟩

end Settings

end Profiles

namespace FileTree

variable {t : FileTree} {names : List String} {item : FileItem}

/-- What is put at a path is found there. -/
theorem get?_put_self (h : names ≠ []) : (t.put names item).get? names = some item := by
  simp [get?, put, h]

/-- What is put at a path is not found at others. -/
theorem get?_put_of_ne {others : List String} (h : others ≠ names) :
    (t.put names item).get? others = t.get? others := by
  simp only [get?, put, List.lookup_cons, beq_false_of_ne h]

/-- What is put in place of no folder is not in the way of a path. -/
theorem enter_put {here parts there : List String} (hnames : t.get? names ≠ some .folder)
    (h : t.enter here parts = .ok there) : (t.put names item).enter here parts = .ok there := by
  induction parts generalizing here with
  | nil => exact h
  | cons part parts ih =>
    by_cases hstay : part = "."
    · rw [enter, if_pos hstay] at h ⊢
      exact ih h
    by_cases hleave : part = ".."
    · rw [enter, if_neg hstay, if_pos hleave] at h ⊢
      exact ih h
    rw [enter, if_neg hstay, if_neg hleave] at h ⊢
    split at h
    case isTrue => cases h
    case isFalse hlong =>
      split at h
      case h_1 => cases h
      case h_2 => cases h
      case h_3 hfolder =>
        -- The path goes through folders only, so it does not go through the changed place.
        have hne : here ++ [part] ≠ names := by
          rintro rfl
          exact hnames hfolder
        rw [if_neg hlong, get?_put_of_ne hne, hfolder]
        exact ih h

/-- A path that leads to a place still does so after something is put where there was no folder. -/
theorem locate_put {p : TreePath} {place : Place} (hnames : t.get? names ≠ some .folder)
    (h : t.locate p = .ok place) : (t.put names item).locate p = .ok place := by
  obtain ⟨_, hcheck, h⟩ := bind_eq_ok.mp h
  rw [locate, hcheck, ok_bind]
  cases hlast : p.parts.getLast? with
  | none =>
    rw [hlast] at h
    exact h
  | some last =>
    rw [hlast] at h
    obtain ⟨here, hhere, h⟩ := bind_eq_ok.mp h
    dsimp only
    rw [enter_put hnames hhere]
    exact h

/-- A file that was written is found. -/
theorem find_writeFile {p : TreePath} {text : String} {written : FileTree}
    (h : t.writeFile p text = .ok written) : written.find p = .ok (.file text) := by
  obtain ⟨place, hplace, h⟩ := bind_eq_ok.mp h
  cases place with
  | folder => cases h
  | entry names =>
    dsimp only at h
    split at h
    case isTrue => cases h
    case isFalse hended =>
      split at h
      case h_1 => cases h
      case h_2 hfolder =>
        -- The top is a folder, which nothing is put in place of.
        have hne : names ≠ [] := by
          rintro rfl
          exact hfolder rfl
        rw [← pure_eq_ok.mp h, find, locate_put hfolder hplace, ok_bind]
        dsimp only
        rw [get?_put_self hne]
        exact if_neg hended

end FileTree

namespace Settings

variable {medium : Medium} {s : Settings} {text : String}

/-- Settings are those of a tree that have passed the check. -/
theorem ofText_eq_ok : ofText medium text = .ok s ↔
    (medium.read text >>= ofJson? .toml) = some s ∧ s.check = .ok s := by
  unfold ofText
  cases hread : medium.read text >>= ofJson? .toml with
  | none => simp
  | some s' =>
    constructor
    · intro h
      obtain ⟨rfl, -⟩ := check_eq_ok.mp h
      exact ⟨rfl, h⟩
    · rintro ⟨hs, h⟩
      rw [Option.some.inj hs]
      exact h

/-- Settings from a text can be written, and what is written is read as the same settings. -/
theorem exists_text (hmedium : medium.Faithful) (h : ofText medium text = .ok s) :
    ∃ saved, s.text medium = .ok saved ∧ ofText medium saved = .ok s := by
  obtain ⟨hsome, hcheck⟩ := ofText_eq_ok.mp h
  obtain ⟨j, hread, hj⟩ := Option.bind_eq_some_iff.mp hsome
  obtain ⟨saved, hwrite, hagain⟩ :=
    exists_write hmedium (capacity_le (hmedium.signed hread) hj)
  exact ⟨saved, by rw [Settings.text, hwrite], ofText_eq_ok.mpr ⟨hagain, hcheck⟩⟩

/-- What is saved is the text of the settings, and it is found where it was saved. -/
theorem find_save {f f' : Folder} {path written : String}
    (h : s.save medium f path = (.ok written, f')) :
    s.text medium = .ok written ∧ f'.tree.find (f'.path path) = .ok (.file written) := by
  unfold save at h
  dsimp only at h
  split at h
  case h_1 => cases h
  case h_2 tree _ =>
    split at h
    case h_1 => cases h
    case h_2 content htext =>
      split at h
      case h_1 => cases h
      case h_2 tree' hwrite =>
        cases h
        exact ⟨htext, FileTree.find_writeFile hwrite⟩

/-- A file with the text of settings is loaded as these settings. -/
theorem load_of_find {f : Folder} {path content : String}
    (hfind : f.tree.find (f.path path) = .ok (.file content))
    (h : ofText medium content = .ok s) : load medium f path = .ok s := by
  rw [load, hfind]
  dsimp only
  rw [h]

/-- The settings survive being saved: the text that is written is accepted and gives the same
settings, hence the same dialects, and so does the file. A configured name always has a profile,
made from the first dialect of that name. -/
def Survives (medium : Medium) (s : Settings) : Prop :=
  ∃ saved, s.text medium = .ok saved ∧ ofText medium saved = .ok s ∧
    (∀ name, (ofText medium saved >>= fun s' => s'.profile name) = s.profile name) ∧
    (∀ f path written f', s.save medium f path = (.ok written, f') →
      written = saved ∧ load medium f' path = .ok s) ∧
    ∀ name, (∃ d ∈ s.dialects, d.name = name) →
      ∃ before d after base p, s.dialects = before ++ d :: after ∧
        (∀ d' ∈ before, d'.name ≠ name) ∧ d.name = name ∧ Profile.builtin? d.base = some base ∧
        s.profile name = .ok p ∧ d.Describes base p

/-- Whatever the medium is, settings that were read survive being saved if trees do. -/
theorem survives_of_faithful (hmedium : medium.Faithful) (h : ofText medium text = .ok s) :
    s.Survives medium := by
  obtain ⟨saved, htext, hsaved⟩ := exists_text hmedium h
  have hcheck : s.check = .ok s := (ofText_eq_ok.mp h).2
  refine ⟨saved, htext, hsaved, ?_, ?_, fun name hname => exists_profile hcheck hname⟩
  · intro name
    rw [hsaved, ok_bind]
  · intro f path written f' hsave
    obtain ⟨hwritten, hfind⟩ := find_save hsave
    obtain rfl : written = saved := Except.ok.inj (hwritten.symm.trans htext)
    exact ⟨rfl, load_of_find hfind hsaved⟩

/-- Settings that were read from a text survive being saved, in every medium that carries trees and
so in texts with sections. -/
theorem survives_saving :
    (∀ medium : Medium, medium.Faithful → ∀ text s, ofText medium text = .ok s →
      s.Survives medium) ∧
    ∀ text s, ofText .toml text = .ok s → s.Survives .toml :=
  ⟨fun _ hmedium _ _ h => survives_of_faithful hmedium h,
    fun _ _ h => survives_of_faithful Medium.faithful_toml h⟩

/-- Two dialects share the name of a built-in one. The first has a list of capabilities, which is
empty, and the second has none. -/
def shadowing : Settings where
  dialects := [{ name := "ansi", base := "SQLite", capabilities := some [] },
    { name := "ansi", base := "mysql", disabled := [.cte] }]

/-- A text with these settings. -/
def shadowingText : String :=
  "[[dialects]]\nname = 'ansi'\nbase = 'SQLite'\ncapabilities = []\n" ++
    "[[dialects]]\nname = 'ansi'\nbase = 'mysql'\ndisabled_capabilities = ['CTE']\n"

/-- The sample can be saved in an empty folder. -/
theorem save_shadowing {saved : String} (h : shadowing.text .toml = .ok saved) :
    ∃ f, shadowing.save .toml (.empty "home") "kept.toml" = (.ok saved, f) := by
  have hpath : (Folder.empty "home").path "kept.toml" = ⟨["home", "kept.toml"], false⟩ := by
    decide +kernel
  refine ⟨⟨"home", ⟨[(["home", "kept.toml"], .file saved), (["home"], .folder)]⟩⟩, ?_⟩
  rw [save, hpath, h]
  rfl

/-- The sample survives being saved, and the name of the built-in dialect stands for the first of
the two. -/
theorem survives_saving_shadowing :
    Medium.toml.Faithful ∧ ofText .toml shadowingText = .ok shadowing ∧
      (∃ saved f, shadowing.text .toml = .ok saved ∧ ofText .toml saved = .ok shadowing ∧
        shadowing.save .toml (.empty "home") "kept.toml" = (.ok saved, f) ∧
        load .toml f "kept.toml" = .ok shadowing) ∧
      ∃ p, shadowing.profile "ansi" = .ok p ∧ p.upsert = Profile.sqlite.upsert ∧
        ∀ c, p.capabilities.contains c = false := by
  have h : ofText .toml shadowingText = .ok shadowing := by decide +kernel
  obtain ⟨saved, htext, hread, -, hsaves, hnames⟩ :=
    survives_saving.1 .toml Medium.faithful_toml shadowingText shadowing h
  obtain ⟨f, hsave⟩ := save_shadowing htext
  refine ⟨Medium.faithful_toml, h, ⟨saved, f, htext, hread, hsave, (hsaves _ _ _ _ hsave).2⟩, ?_⟩
  obtain ⟨before, d, after, base, p, hsplit, hbefore, -, hbase, hprofile, hdescribes⟩ :=
    hnames "ansi" ⟨_, List.mem_cons_self, rfl⟩
  rcases before with _ | ⟨d', before⟩
  · obtain ⟨rfl, -⟩ := List.cons.inj hsplit
    cases hbase
    refine ⟨p, hprofile, by rw [hdescribes.fields], fun c => ?_⟩
    have hcontains := hdescribes.capabilities c
    simpa using hcontains
  · obtain ⟨rfl, -⟩ := List.cons.inj hsplit
    exact absurd rfl (hbefore _ List.mem_cons_self)

end Settings

end SqlAlgebra
