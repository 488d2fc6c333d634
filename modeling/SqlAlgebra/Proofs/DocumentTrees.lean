import SqlAlgebra.Proofs.DocumentIntegers
import SqlAlgebra.Proofs.Outcome
import SqlAlgebra.Proofs.WrittenDocuments
import SqlAlgebra.Settings.Text

/-!
# Documents carry trees

A document is a table of entries, of tables with entries, and of lists of such tables. The tree of a
document is written with the entries of the outermost table in front, and read as the same tree but
for that. All that is asked of another medium is the same.
-/

namespace SqlAlgebra

namespace Toml

/-- The table can be written: its keys are different and need no quotes, and its integers fit. -/
structure IsTable (entries : List (String × Entry)) : Prop where
  nodup : (entries.map (·.1)).Nodup
  bare : ∀ x ∈ entries, IsBare x.1
  fits : ∀ x ∈ entries, x.2.Fits

/-- The part can be written. -/
def Part.Fits : Part → Prop
  | entry e => e.Fits
  | table entries => IsTable entries
  | tables first rest => ∀ entries ∈ first :: rest, IsTable entries

/-- The parts make a document: their keys are different and need no quotes. -/
structure IsDocument (parts : List (String × Part)) : Prop where
  nodup : (parts.map (·.1)).Nodup
  bare : ∀ x ∈ parts, IsBare x.1
  fits : ∀ x ∈ parts, x.2.Fits

/-- The members of the outermost table of a document. -/
def members (parts : List (String × Part)) : List (String × Json) :=
  parts.map fun x => (x.1, x.2.toJson)

end Toml

/-- A medium carries the trees of documents, whose outermost tables may come back in another order.
The integers that are read have a sign. -/
structure Medium.Faithful (medium : Medium) : Prop where
  carries {parts : List (String × Toml.Part)} : Toml.IsDocument parts →
    ∃ text members, medium.write (.object (Toml.members parts)) = some text ∧
      medium.read text = some (.object members) ∧ members.Perm (Toml.members parts)
  signed {text : String} {j : Json} : medium.read text = some j → j.Signed

namespace Toml

section Parts

/-- An entry that fits is made again from its tree. -/
theorem Entry.ofJson?_toJson {e : Entry} (h : e.Fits) : ofJson? e.toJson = some e := by
  cases e with
  | flag b => rfl
  | count n =>
    have hn : (n : Int) ≤ Int64.maxValue.toInt := h
    rw [toJson, ofJson?, if_pos ⟨Int.natCast_nonneg n, hn⟩, Int.toNat_natCast]
  | word s => rfl
  | words ss =>
    have htexts : (ss.map Json.text).mapM Json.text? = some ss := mapM_map_eq_some fun _ _ => rfl
    rw [toJson, Json.texts, ofJson?, htexts, Option.map_some]

/-- The entries of a table are made again from its tree. -/
theorem Entry.table?_tree {entries : List (String × Entry)} (h : IsTable entries) :
    table? (tree entries) = some entries :=
  mapM_map_eq_some fun x hx =>
    congrArg (Option.map (x.1, ·)) (ofJson?_toJson (h.fits x hx))

/-- An entry is not taken for a table or a list of tables. -/
theorem Part.ofJson?_entry (e : Entry) : ofJson? e.toJson = (Entry.ofJson? e.toJson).map entry := by
  cases e with
  | words ss => cases ss <;> rfl
  | _ => rfl

/-- A part that fits is made again from its tree. -/
theorem Part.ofJson?_toJson {part : Part} (h : part.Fits) : ofJson? part.toJson = some part := by
  cases part with
  | entry e => rw [toJson, ofJson?_entry, Entry.ofJson?_toJson h, Option.map_some]
  | table entries => exact congrArg (Option.map table) (Entry.table?_tree h)
  | tables first rest =>
    have hrest : (rest.map Entry.tree).mapM Entry.table? = some rest :=
      mapM_map_eq_some fun entries hentries =>
        Entry.table?_tree (h entries (List.mem_cons_of_mem first hentries))
    have hread : ofJson? (tables first rest).toJson =
        (Entry.table? (Entry.tree first)).bind fun first =>
          ((rest.map Entry.tree).mapM Entry.table?).bind fun rest => some (tables first rest) := rfl
    rw [hread, Entry.table?_tree (h first List.mem_cons_self), hrest]
    rfl

/-- The parts of a document are made again from its tree. -/
theorem parts?_members {parts : List (String × Part)} (h : IsDocument parts) :
    parts? (.object (members parts)) = some parts :=
  mapM_map_eq_some fun x hx =>
    congrArg (Option.map (x.1, ·)) (Part.ofJson?_toJson (h.fits x hx))

end Parts

section Tables

variable {members : Members} {key : String}

/-- A key that is not there is not found. -/
theorem Members.lookup_eq_none (h : key ∉ members.map (·.1)) : List.lookup key members = none := by
  rw [List.lookup_eq_none_iff]
  intro member hmember
  have hne : key ≠ member.1 := by
    rintro rfl
    exact h (List.mem_map_of_mem hmember)
  simpa using hne

/-- What a key stands for behind all others. -/
theorem Members.lookup_concat (node : Node) (h : key ∉ members.map (·.1)) :
    List.lookup key (members ++ [(key, node)]) = some node := by
  rw [List.lookup_append, Members.lookup_eq_none h]
  simp

/-- What is put under a new key comes last. -/
theorem Members.put_of_notMem (node : Node) (h : key ∉ members.map (·.1)) :
    members.put key node = members ++ [(key, node)] := by
  induction members with
  | nil => rfl
  | cons member members ih =>
    obtain ⟨k, old⟩ := member
    rw [List.map_cons, List.mem_cons, not_or] at h
    rw [Members.put, if_neg (Ne.symm h.1), ih h.2, List.cons_append]

/-- A key behind all others stands for something else. -/
theorem Members.put_concat (old node : Node) (h : key ∉ members.map (·.1)) :
    Members.put key node (members ++ [(key, old)]) = members ++ [(key, node)] := by
  induction members with
  | nil => simp [Members.put]
  | cons member members ih =>
    obtain ⟨k, other⟩ := member
    rw [List.map_cons, List.mem_cons, not_or] at h
    rw [List.cons_append, Members.put, if_neg (Ne.symm h.1), ih h.2, List.cons_append]

/-- The table that entries under different keys make. -/
def Members.ofEntries (entries : List (String × Entry)) : Members :=
  entries.map fun x => (x.1, .value x.2.toJson)

/-- Entries with new keys are defined one after another. -/
theorem Members.defineAll_keyed {entries : List (String × Entry)}
    (h : (members.map (·.1) ++ entries.map (·.1)).Nodup) :
    members.defineAll (entries.map fun x => ([x.1], x.2.toJson)) =
      some (members ++ Members.ofEntries entries) := by
  induction entries generalizing members with
  | nil => simp [Members.defineAll, Members.ofEntries]
  | cons x entries ih =>
    have hfresh : x.1 ∉ members.map (·.1) := by
      intro hmem
      exact (List.nodup_append.mp h).2.2 _ hmem _ List.mem_cons_self rfl
    have hdefine : Members.define x.2.toJson true [x.1] members =
        some (members ++ [(x.1, .value x.2.toJson)]) := by
      rw [Members.define, Members.lookup_eq_none hfresh, Members.put_of_notMem _ hfresh]
      rfl
    have hnodup : ((members ++ [(x.1, Node.value x.2.toJson)]).map (·.1) ++
        entries.map (·.1)).Nodup := by
      simpa using h
    calc members.defineAll ((x :: entries).map fun x => ([x.1], x.2.toJson))
      _ = (Members.define x.2.toJson true [x.1] members).bind fun next =>
          next.defineAll (entries.map fun x => ([x.1], x.2.toJson)) := rfl
      _ = some (members ++ [(x.1, .value x.2.toJson)] ++ Members.ofEntries entries) := by
        rw [hdefine, Option.bind_some, ih hnodup]
      _ = some (members ++ Members.ofEntries (x :: entries)) := by
        rw [List.append_assoc]
        rfl

/-- Entries under different keys make a table. -/
theorem Members.defineAll_entries {entries : List (String × Entry)}
    (h : (entries.map (·.1)).Nodup) :
    Members.defineAll [] (entries.map fun x => ([x.1], x.2.toJson)) =
      some (Members.ofEntries entries) := by
  have hnil : (List.map (·.1) ([] : Members) ++ entries.map (·.1)).Nodup := by simpa using h
  rw [Members.defineAll_keyed hnil, List.nil_append]

/-- The tree of the members of some entries is the tree of the entries. -/
theorem Members.toJson_ofEntries (entries : List (String × Entry)) :
    Json.object (Members.toJsonMembers (Members.ofEntries entries)) = Entry.tree entries := by
  rw [Members.toJsonMembers_eq, Members.ofEntries, List.map_map, Entry.tree]
  rfl

/-- The lines of a headed part are its heading and its entries. -/
theorem trees_headed (heading : Heading) (entries : List (String × Entry)) :
    (Part.headed heading entries).trees =
      ⟨heading, entries.map fun x => ([x.1], x.2.toJson)⟩ := by
  simp [Section.trees, Part.headed]

/-- A headed part is simple if its heading and its keys are and its entries fit. -/
theorem simple_headed {heading : Heading} (hheading : heading.Simple)
    {entries : List (String × Entry)} (hbare : ∀ x ∈ entries, IsBare x.1)
    (hfits : ∀ x ∈ entries, x.2.Fits) : (Part.headed heading entries).Simple where
  heading := hheading
  entries := by
    intro x hx
    obtain ⟨y, hy, rfl⟩ := List.mem_map.mp hx
    exact ⟨⟨y.1, rfl, hbare y hy⟩, hfits y hy⟩

variable {entries : List (String × Entry)}

/-- A table comes behind what is there. -/
theorem Members.add_table (hkey : key ∉ members.map (·.1)) (h : IsTable entries) :
    Members.add members (Part.headed (.table [key]) entries).trees =
      some (members ++ [(key, .table .headed (Members.ofEntries entries))]) := by
  rw [trees_headed, Members.add]
  simp only [Members.change]
  rw [Members.lookup_eq_none hkey, Members.headed, Members.defineAll_entries h.nodup,
    Option.map_some, Option.bind_eq_bind, Option.bind_some, Members.put_of_notMem _ hkey]
  rfl

/-- The first one of a list of tables comes behind what is there. -/
theorem Members.add_first (hkey : key ∉ members.map (·.1)) (h : IsTable entries) :
    Members.add members (Part.headed (.element [key]) entries).trees =
      some (members ++ [(key, .tables (Members.ofEntries entries) [])]) := by
  rw [trees_headed, Members.add]
  simp only [Members.change]
  rw [Members.lookup_eq_none hkey, Members.extended, Members.defineAll_entries h.nodup,
    Option.map_some, Option.bind_eq_bind, Option.bind_some, Members.put_of_notMem _ hkey]
  rfl

/-- Another one of a list of tables is the latest. -/
theorem Members.add_next (hkey : key ∉ members.map (·.1)) (latest : Members)
    (earlier : List Members) (h : IsTable entries) :
    Members.add (members ++ [(key, .tables latest earlier)])
        (Part.headed (.element [key]) entries).trees =
      some (members ++ [(key, .tables (Members.ofEntries entries) (latest :: earlier))]) := by
  rw [trees_headed, Members.add]
  simp only [Members.change]
  rw [Members.lookup_concat _ hkey, Members.extended, Members.defineAll_entries h.nodup,
    Option.map_some, Option.bind_eq_bind, Option.bind_some, Members.put_concat _ _ hkey]
  rfl

/-- A list of tables grows by the tables that are added. -/
theorem Members.addAll_next (hkey : key ∉ members.map (·.1)) (latest : Members)
    (earlier : List Members) {rest : List (List (String × Entry))}
    (h : ∀ entries ∈ rest, IsTable entries) :
    ∃ node, (rest.map fun entries => (Part.headed (.element [key]) entries).trees).foldlM
        Members.add (members ++ [(key, .tables latest earlier)]) =
        some (members ++ [(key, node)]) ∧
      node.toJson = .array (((latest :: earlier).reverse.map fun members =>
        Json.object (Members.toJsonMembers members)) ++ rest.map Entry.tree) := by
  induction rest generalizing latest earlier with
  | nil =>
    refine ⟨_, rfl, ?_⟩
    simp [Node.toJson, Members.toJsonElements_eq]
  | cons entries rest ih =>
    rw [List.forall_mem_cons] at h
    obtain ⟨node, hfold, hjson⟩ := ih (Members.ofEntries entries) (latest :: earlier) h.2
    refine ⟨node, ?_, ?_⟩
    · rw [List.map_cons, List.foldlM_cons, Members.add_next hkey latest earlier h.1]
      exact hfold
    · simp [hjson, Members.toJson_ofEntries]

/-- The part is an entry of the outermost table. -/
def Part.isEntry : Part → Bool
  | entry _ => true
  | _ => false

/-- The sections of a part make what its tree says. -/
theorem Members.addAll_sections (hkey : key ∉ members.map (·.1)) {part : Part}
    (hpart : part.isEntry = false) (h : part.Fits) :
    ∃ node, ((part.sections key).map Section.trees).foldlM Members.add members =
        some (members ++ [(key, node)]) ∧ node.toJson = part.toJson := by
  cases part with
  | entry e => cases hpart
  | table entries =>
    refine ⟨.table .headed (Members.ofEntries entries), ?_, Members.toJson_ofEntries entries⟩
    rw [Part.sections, List.map_singleton, List.foldlM_cons, Members.add_table hkey h]
    rfl
  | tables first rest =>
    obtain ⟨hfirst, hrest⟩ := List.forall_mem_cons.mp h
    obtain ⟨node, hfold, hjson⟩ :=
      Members.addAll_next hkey (Members.ofEntries first) [] hrest
    refine ⟨node, ?_, ?_⟩
    · rw [Part.sections, List.map_map, List.map_cons, List.foldlM_cons, Function.comp_apply,
        Members.add_first hkey hfirst]
      exact hfold
    · simp [hjson, Part.toJson, Members.toJson_ofEntries]

/-- The sections of parts with different keys make what their trees say. -/
theorem Members.addAll_parts {parts : List (String × Part)}
    (hnodup : (members.map (·.1) ++ parts.map (·.1)).Nodup)
    (hparts : ∀ x ∈ parts, x.2.isEntry = false ∧ x.2.Fits) :
    ∃ nodes : Members, ((parts.flatMap fun x => x.2.sections x.1).map Section.trees).foldlM
        Members.add members = some (members ++ nodes) ∧
      nodes.map (fun x => (x.1, x.2.toJson)) = Toml.members parts := by
  induction parts generalizing members with
  | nil => exact ⟨[], by simp, rfl⟩
  | cons x parts ih =>
    rw [List.forall_mem_cons] at hparts
    have hkey : x.1 ∉ members.map (·.1) := by
      intro hmem
      exact (List.nodup_append.mp hnodup).2.2 _ hmem _ List.mem_cons_self rfl
    obtain ⟨node, hfold, hjson⟩ := Members.addAll_sections hkey hparts.1.1 hparts.1.2
    have hnext : ((members ++ [(x.1, node)]).map (·.1) ++ parts.map (·.1)).Nodup := by
      simpa using hnodup
    obtain ⟨nodes, hfolds, hjsons⟩ := ih hnext hparts.2
    refine ⟨(x.1, node) :: nodes, ?_, ?_⟩
    · rw [List.flatMap_cons, List.map_append, List.foldlM_append, hfold, Option.bind_eq_bind,
        Option.bind_some, hfolds, List.append_assoc]
      rfl
    · rw [List.map_cons, hjsons, hjson]
      rfl

end Tables

section Documents

variable {parts : List (String × Part)}

/-- The entries of the outermost table are its parts that are entries. -/
theorem map_topEntries (parts : List (String × Part)) :
    (topEntries parts).map (fun x => (x.1, Part.entry x.2)) = parts.filter (·.2.isEntry) := by
  induction parts with
  | nil => rfl
  | cons x parts ih =>
    obtain ⟨key, part⟩ := x
    cases part with
    | entry e =>
      rw [List.filter_cons_of_pos rfl, ← ih]
      rfl
    | table entries | tables first rest => exact ih

/-- Entries have no sections for themselves. -/
theorem flatMap_sections (parts : List (String × Part)) :
    (parts.flatMap fun x => x.2.sections x.1) =
      (parts.filter (!·.2.isEntry)).flatMap fun x => x.2.sections x.1 := by
  induction parts with
  | nil => rfl
  | cons x parts ih =>
    obtain ⟨key, part⟩ := x
    cases part with
    | entry e => exact ih
    | table entries | tables first rest =>
      rw [List.filter_cons_of_pos rfl, List.flatMap_cons, List.flatMap_cons, ih]

/-- Entries in front, all parts are there. -/
theorem perm_parts (parts : List (String × Part)) :
    (parts.filter (·.2.isEntry) ++ parts.filter (!·.2.isEntry)).Perm parts :=
  List.filter_append_perm _ _

/-- The sections of a part with a bare key are simple, and none of them is the first. -/
theorem simple_sections {x : String × Part} (hbare : IsBare x.1) (hfits : x.2.Fits) :
    ∀ part ∈ x.2.sections x.1, part.Simple ∧ part.heading ≠ .top := by
  obtain ⟨key, part⟩ := x
  have hkey : IsSimple [key] := ⟨key, rfl, hbare⟩
  cases part with
  | entry e => simp [Part.sections]
  | table entries =>
    have htable : IsTable entries := hfits
    have hheading : (Heading.table [key]).Simple := hkey
    rw [Part.sections, List.forall_mem_singleton]
    exact ⟨simple_headed hheading htable.bare htable.fits, Heading.noConfusion⟩
  | tables first rest =>
    have hheading : (Heading.element [key]).Simple := hkey
    rw [Part.sections, List.forall_mem_map]
    intro entries hentries
    have htable : IsTable entries := hfits entries hentries
    exact ⟨simple_headed hheading htable.bare htable.fits, Heading.noConfusion⟩

/-- The entries above all headings are parts of the document. -/
theorem mem_topEntries {x : String × Entry} (h : x ∈ topEntries parts) :
    (x.1, Part.entry x.2) ∈ parts := by
  have hmem : (x.1, Part.entry x.2) ∈ parts.filter (·.2.isEntry) := by
    rw [← map_topEntries]
    exact List.mem_map_of_mem h
  exact List.mem_of_mem_filter hmem

/-- The section in front, if there are entries for it. -/
def topSections (parts : List (String × Part)) : List (Section Entry) :=
  if (topEntries parts).isEmpty then [] else [Part.headed .top (topEntries parts)]

/-- A document is laid out with its entries first, and then its other parts in their order. -/
theorem layout_eq (parts : List (String × Part)) :
    layout parts =
      topSections parts ++ (parts.filter (!·.2.isEntry)).flatMap fun x => x.2.sections x.1 := by
  rw [← flatMap_sections]
  rfl

/-- The section above all headings is simple. -/
theorem simple_topSections (h : IsDocument parts) : ∀ part ∈ topSections parts, part.Simple := by
  unfold topSections
  split
  · simp
  · have hheading : Heading.top.Simple := trivial
    rw [List.forall_mem_singleton]
    refine simple_headed hheading (fun x hx => ?_) fun x hx => ?_
    · exact h.bare _ (mem_topEntries hx)
    · exact h.fits _ (mem_topEntries hx)

/-- Adding the section above all headings defines its entries. -/
theorem foldlM_topSections (h : ((topEntries parts).map (·.1)).Nodup) :
    ((topSections parts).map Section.trees).foldlM Members.add [] =
      some (Members.ofEntries (topEntries parts)) := by
  unfold topSections
  split
  · rename_i hempty
    rw [List.isEmpty_iff.mp hempty]
    rfl
  · rw [List.map_singleton, List.foldlM_cons, trees_headed, Members.add]
    simp only
    rw [Members.defineAll_entries h]
    rfl

/-- Every section of a document can be written, and only the first may be without a heading. -/
theorem simple_layout (h : IsDocument parts) :
    (∀ part ∈ layout parts, part.Simple) ∧ ∀ part ∈ (layout parts).tail, part.heading ≠ .top := by
  have hsections : ∀ part ∈ (parts.filter (!·.2.isEntry)).flatMap fun x => x.2.sections x.1,
      part.Simple ∧ part.heading ≠ .top := by
    intro part hpart
    obtain ⟨x, hx, hpart⟩ := List.mem_flatMap.mp hpart
    have hx := List.mem_of_mem_filter hx
    exact simple_sections (h.bare x hx) (h.fits x hx) part hpart
  rw [layout_eq]
  refine ⟨fun part hpart => ?_, fun part hpart => ?_⟩
  · rcases List.mem_append.mp hpart with htop | hrest
    · exact simple_topSections h part htop
    · exact (hsections part hrest).1
  · refine (hsections part ?_).2
    unfold topSections at hpart
    split at hpart
    · exact List.mem_of_mem_tail hpart
    · exact hpart

/-- The tree of a document is read back, with the entries of the outermost table in front. -/
theorem read_layout (h : IsDocument parts) :
    ∃ tree, read (write (layout parts)) = some (.object tree) ∧ tree.Perm (members parts) := by
  have hperm := perm_parts parts
  have hentries : (topEntries parts).map (·.1) = (parts.filter (·.2.isEntry)).map (·.1) := by
    rw [← map_topEntries, List.map_map]
    rfl
  have hnodup : ((Members.ofEntries (topEntries parts)).map (·.1) ++
      (parts.filter (!·.2.isEntry)).map (·.1)).Nodup := by
    have hkeys : (Members.ofEntries (topEntries parts)).map (·.1) =
        (topEntries parts).map (·.1) := by
      rw [Members.ofEntries, List.map_map]
      rfl
    rw [hkeys, hentries, ← List.map_append]
    exact (hperm.map _).nodup_iff.mpr h.nodup
  have hkept : ((topEntries parts).map (·.1)).Nodup := by
    rw [hentries]
    exact h.nodup.sublist (List.filter_sublist.map _)
  have hfits : ∀ x ∈ parts.filter (!·.2.isEntry), x.2.isEntry = false ∧ x.2.Fits := by
    intro x hx
    obtain ⟨hx, hentry⟩ := List.mem_filter.mp hx
    exact ⟨by simpa using hentry, h.fits x hx⟩
  obtain ⟨nodes, hfold, hjson⟩ := Members.addAll_parts hnodup hfits
  have hall : ((layout parts).map Section.trees).foldlM Members.add [] =
      some (Members.ofEntries (topEntries parts) ++ nodes) := by
    rw [layout_eq, List.map_append, List.foldlM_append, foldlM_topSections hkept]
    exact hfold
  obtain ⟨hsimple, htop⟩ := simple_layout h
  have hread : read (write (layout parts)) = some (.object (Members.toJsonMembers
      (Members.ofEntries (topEntries parts) ++ nodes))) := by
    rw [read_write hsimple htop, assemble, hall]
    rfl
  refine ⟨_, hread, ?_⟩
  rw [Members.toJsonMembers_eq, List.map_append, hjson]
  have htopMembers : (Members.ofEntries (topEntries parts)).map (fun x => (x.1, x.2.toJson)) =
      members (parts.filter (·.2.isEntry)) := by
    rw [← map_topEntries, Members.ofEntries, members, List.map_map, List.map_map]
    rfl
  rw [htopMembers, members, members, members, ← List.map_append]
  exact hperm.map _

end Documents

end Toml

/-- Texts with sections carry the trees of documents. -/
theorem Medium.faithful_toml : Medium.toml.Faithful where
  carries {parts} h := by
    obtain ⟨tree, hread, hperm⟩ := Toml.read_layout h
    have hwrite : Toml.writeTree (.object (Toml.members parts)) =
        some (Toml.write (Toml.layout parts)) := by
      rw [Toml.writeTree, Toml.parts?_members h, Option.map_some]
    exact ⟨_, tree, hwrite, hread, hperm⟩
  signed hread := Toml.signed_read hread

end SqlAlgebra
