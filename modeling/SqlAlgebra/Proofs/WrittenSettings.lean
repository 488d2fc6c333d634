import SqlAlgebra.Proofs.DocumentTrees
import SqlAlgebra.Proofs.JsonFormat

/-!
# Written settings

What settings are written as is read as the same settings. The entries of each part make a table
that is read as the part, and the settings are read from a table of these, in whatever order they
come.
-/

namespace SqlAlgebra

section Trees

/-- A list of trees is read as what they were written for. -/
theorem Json.list?_map {α : Type} {read : Json → Option α} {write : α → Json}
    (h : ∀ a, read (write a) = some a) (as : List α) :
    list? read (array (as.map write)) = some as :=
  mapM_map_eq_some fun a _ => h a

/-- What is not read as null is there. -/
theorem Json.option?_of_read {α : Type} {read : Json → Option α} {j : Json} {a : α}
    (hnull : read null = none) (h : read j = some a) : j.option? read = some (some a) := by
  cases j with
  | null =>
    rw [hnull] at h
    cases h
  | _ => exact congrArg (Option.map some) h

/-- A placeholder style is read back from its label. -/
theorem Storage.named?_placeholder (storage : Storage) (style : PlaceholderStyle) :
    storage.named? PlaceholderStyle.names (.text style.label) = some style := by
  cases style <;> rfl

/-- A quote style is read back from its label. -/
theorem Storage.named?_quote (storage : Storage) (style : QuoteStyle) :
    storage.named? QuoteStyle.names (.text style.label) = some style := by
  cases style <;> rfl

/-- A capability is read back from its label. -/
theorem Storage.named?_capability (storage : Storage) (c : Capability) :
    storage.named? Capability.names (.text c.label) = some c := by
  cases c <;> rfl

/-- A list of capabilities is read back from its labels. -/
theorem Storage.list?_capabilities (storage : Storage) (members : List Capability) :
    Json.list? (storage.named? Capability.names) (.texts (members.map Capability.label)) =
      some members := by
  rw [Json.texts, List.map_map]
  exact Json.list?_map storage.named?_capability members

/-- Settings of the cache are read back from their tree. -/
theorem CacheSettings.ofJson?_tree (storage : Storage) (c : CacheSettings) :
    ofJson? storage (Toml.Entry.tree c.entries) = some c := by
  have hfields : storage.fields? ["enabled", "capacity"] (Toml.Entry.tree c.entries) =
      some [some (.bool c.enabled), some (.int c.capacity.toNat)] := rfl
  have hcapacity : Json.defaulting 256 Json.uint64? (some (.int c.capacity.toNat)) =
      some c.capacity := by
    rw [Json.defaulting, Json.uint64?_int]
  unfold ofJson?
  rw [hfields]
  dsimp only
  rw [hcapacity, Json.defaulting]
  rfl

/-- The fields that a dialect's settings are stored in. -/
theorem DialectSettings.fields?_tree (storage : Storage) (d : DialectSettings) :
    storage.fields?
        ["name", "base", "placeholder", "quote", "capabilities", "disabled_capabilities"]
        (Toml.Entry.tree d.entries) =
      some [some (.text d.name), some (.text d.base),
        d.placeholder.map fun style => .text style.label,
        d.quote.map fun style => .text style.label,
        d.capabilities.map fun members => .texts (members.map Capability.label),
        if d.disabled.isEmpty then none else some (.texts (d.disabled.map Capability.label))] := by
  obtain ⟨name, base, placeholder, quote, capabilities, disabled⟩ := d
  rcases placeholder with _ | placeholder <;> rcases quote with _ | quote <;>
    rcases capabilities with _ | capabilities <;> rcases disabled with _ | ⟨c, disabled⟩ <;> rfl

/-- What may be missing is read back if it is read back where it is there. -/
theorem Json.optional_map {α : Type} {read : Json → Option α} {write : α → Json}
    (hnull : read null = none) (h : ∀ a, read (write a) = some a) (o : Option α) :
    Json.optional read (o.map write) = some o := by
  cases o with
  | none => rfl
  | some a => exact option?_of_read hnull (h a)

/-- What a dialect's settings leave out is read as not being chosen. -/
theorem DialectSettings.ofJson?_tree (storage : Storage) (d : DialectSettings) :
    ofJson? storage (Toml.Entry.tree d.entries) = some d := by
  have hplaceholder : Json.optional (storage.named? PlaceholderStyle.names)
      (d.placeholder.map fun style => .text style.label) = some d.placeholder :=
    Json.optional_map rfl storage.named?_placeholder _
  have hquote : Json.optional (storage.named? QuoteStyle.names)
      (d.quote.map fun style => .text style.label) = some d.quote :=
    Json.optional_map rfl storage.named?_quote _
  have hcapabilities : Json.optional (Json.list? (storage.named? Capability.names))
      (d.capabilities.map fun members => .texts (members.map Capability.label)) =
        some d.capabilities :=
    Json.optional_map rfl storage.list?_capabilities _
  have hdisabled : Json.defaulting [] (Json.list? (storage.named? Capability.names))
      (if d.disabled.isEmpty then none
        else some (.texts (d.disabled.map Capability.label))) = some d.disabled := by
    cases hdisabled : d.disabled with
    | nil => rfl
    | cons c disabled => exact storage.list?_capabilities (c :: disabled)
  unfold ofJson?
  dsimp only
  rw [fields?_tree]
  dsimp only
  rw [hplaceholder, hquote, hcapabilities, hdisabled]
  rfl

/-- Settings of dialects are read back from their trees. -/
theorem DialectSettings.list?_trees (storage : Storage) (ds : List DialectSettings) :
    Json.list? (ofJson? storage) (.array (ds.map fun d => Toml.Entry.tree d.entries)) =
      some ds :=
  Json.list?_map (ofJson?_tree storage) ds

/-- Settings are read from a table with the two parts of them, in either order. -/
theorem Settings.ofJson?_object (storage : Storage) (s : Settings)
    {members : List (String × Json)}
    (hcache : List.lookup "cache" members = some (Toml.Entry.tree s.cache.entries))
    (hdialects : List.lookup "dialects" members =
      some (.array (s.dialects.map fun d => Toml.Entry.tree d.entries))) :
    ofJson? storage (.object members) = some s := by
  have hfields : storage.fields? ["cache", "dialects"] (.object members) =
      some [some (Toml.Entry.tree s.cache.entries),
        some (.array (s.dialects.map fun d => Toml.Entry.tree d.entries))] := by
    simp [Storage.fields?, Json.members?, hcache, hdialects]
  unfold ofJson?
  rw [hfields]
  dsimp only
  rw [Json.defaulting, CacheSettings.ofJson?_tree, Json.defaulting, DialectSettings.list?_trees]
  rfl

end Trees

namespace Settings

/-- The settings of the cache are a table, if the capacity is a signed integer. -/
theorem isTable_cache {c : CacheSettings} (h : (c.capacity.toNat : Int) ≤ Int64.maxValue.toInt) :
    Toml.IsTable c.entries where
  nodup := by simp [CacheSettings.entries]
  bare := by
    have henabled : Toml.IsBare "enabled" := by decide
    have hcapacity : Toml.IsBare "capacity" := by decide
    simp [CacheSettings.entries, henabled, hcapacity]
  fits := by simpa [CacheSettings.entries, Toml.Entry.Fits] using h

/-- The settings of a dialect are a table. -/
theorem isTable_dialect (d : DialectSettings) : Toml.IsTable d.entries := by
  have hname : Toml.IsBare "name" := by decide
  have hbase : Toml.IsBare "base" := by decide
  have hplaceholder : Toml.IsBare "placeholder" := by decide
  have hquote : Toml.IsBare "quote" := by decide
  have hcapabilities : Toml.IsBare "capabilities" := by decide
  have hdisabled : Toml.IsBare "disabled_capabilities" := by decide
  obtain ⟨name, base, placeholder, quote, capabilities, disabled⟩ := d
  rcases placeholder with _ | placeholder <;> rcases quote with _ | quote <;>
    rcases capabilities with _ | capabilities <;> rcases disabled with _ | ⟨c, disabled⟩ <;>
    constructor <;>
    simp [DialectSettings.entries, Toml.Entry.Fits, hname, hbase, hplaceholder, hquote,
      hcapabilities, hdisabled]

/-- The part of a document that dialects make. A list without dialects is an entry. -/
def dialectsPart : List DialectSettings → Toml.Part
  | [] => .entry (.words [])
  | d :: ds => .tables d.entries (ds.map DialectSettings.entries)

/-- The parts of a document that settings make. -/
def parts (s : Settings) : List (String × Toml.Part) :=
  [("cache", .table s.cache.entries), ("dialects", dialectsPart s.dialects)]

/-- The tree of the dialects is an array of their trees. -/
theorem toJson_dialectsPart (ds : List DialectSettings) :
    (dialectsPart ds).toJson = .array (ds.map fun d => Toml.Entry.tree d.entries) := by
  cases ds with
  | nil => rfl
  | cons d ds => simp [dialectsPart, Toml.Part.toJson]

/-- The tree of settings has the cache and then the dialects. -/
theorem members_parts (s : Settings) :
    Toml.members s.parts = [("cache", Toml.Entry.tree s.cache.entries),
      ("dialects", .array (s.dialects.map fun d => Toml.Entry.tree d.entries))] := by
  rw [← toJson_dialectsPart]
  rfl

/-- Settings are a document, if the capacity of the cache is a signed integer. -/
theorem isDocument_parts {s : Settings}
    (h : (s.cache.capacity.toNat : Int) ≤ Int64.maxValue.toInt) : Toml.IsDocument s.parts where
  nodup := by simp [parts]
  bare := by
    have hcache : Toml.IsBare "cache" := by decide
    have hdialects : Toml.IsBare "dialects" := by decide
    simp [parts, hcache, hdialects]
  fits := by
    have hdialects : (dialectsPart s.dialects).Fits := by
      cases s.dialects with
      | nil => trivial
      | cons d ds =>
        refine List.forall_mem_cons.mpr ⟨isTable_dialect d, List.forall_mem_map.mpr ?_⟩
        exact fun d _ => isTable_dialect d
    rw [parts, List.forall_mem_cons, List.forall_mem_singleton]
    exact ⟨isTable_cache h, hdialects⟩

/-- Settings whose capacity fits are written, and read as the same settings. -/
theorem exists_write {medium : Medium} (hmedium : medium.Faithful) {s : Settings}
    (hfits : (s.cache.capacity.toNat : Int) ≤ Int64.maxValue.toInt) :
    ∃ content, medium.write s.toJson = some content ∧
      (medium.read content >>= ofJson? .toml) = some s := by
  obtain ⟨content, members, hwrite, hread, hperm⟩ := hmedium.carries (isDocument_parts hfits)
  rw [members_parts] at hwrite hperm
  have hnodup : (members.map (·.1)).Nodup := (hperm.map _).nodup_iff.mpr (by simp)
  have hcache : ("cache", Toml.Entry.tree s.cache.entries) ∈ members :=
    hperm.mem_iff.mpr List.mem_cons_self
  have hdialects : ("dialects",
      Json.array (s.dialects.map fun d => Toml.Entry.tree d.entries)) ∈ members :=
    hperm.mem_iff.mpr (List.mem_cons_of_mem _ List.mem_cons_self)
  refine ⟨content, hwrite, ?_⟩
  rw [hread]
  exact ofJson?_object .toml s (Format.lookup_of_nodup hnodup hcache)
    (Format.lookup_of_nodup hnodup hdialects)

end Settings

end SqlAlgebra
