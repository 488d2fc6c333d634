import Mathlib.Data.List.Basic
import SqlAlgebra.Toml.Reading

/-!
# Integers in documents

An integer in a document has 64 bits with its sign. However a tree is put together from the lines of
a text, its integers are those that were read from numbers, so none is larger than that.
-/

namespace SqlAlgebra

namespace Json

mutual

/-- No integer in the tree needs more than 64 bits with its sign. -/
def Signed : Json → Prop
  | null | bool _ | float _ | text _ => True
  | int n => n ≤ Int64.maxValue.toInt
  | array items => SignedItems items
  | object members => SignedMembers members
termination_by structural j => j

def SignedItems : List Json → Prop
  | [] => True
  | j :: js => j.Signed ∧ SignedItems js
termination_by structural js => js

def SignedMembers : List (String × Json) → Prop
  | [] => True
  | (_, j) :: members => j.Signed ∧ SignedMembers members
termination_by structural members => members

end

/-- No integer in an array is too large if none in its items is. -/
theorem signed_array {items : List Json} : (array items).Signed ↔ ∀ j ∈ items, j.Signed := by
  change SignedItems items ↔ _
  induction items with
  | nil => simp [SignedItems]
  | cons j js ih => simp [SignedItems, ih]

/-- No integer in an object is too large if none in its members is. -/
theorem signed_object {members : List (String × Json)} :
    (object members).Signed ↔ ∀ member ∈ members, member.2.Signed := by
  change SignedMembers members ↔ _
  induction members with
  | nil => simp [SignedMembers]
  | cons member members ih =>
    obtain ⟨name, j⟩ := member
    simp [SignedMembers, ih]

end Json

namespace Toml

section Tables

/-- No integer among what the keys stand for is too large. -/
def Members.Signed (members : Members) : Prop := ∀ member ∈ members, member.2.toJson.Signed

/-- The tree of members is made member by member. -/
theorem Members.toJsonMembers_eq (members : Members) :
    Members.toJsonMembers members = members.map fun member => (member.1, member.2.toJson) := by
  induction members with
  | nil => rfl
  | cons member members ih => rw [List.map_cons, ← ih, Members.toJsonMembers]

/-- The trees of the elements of an array of tables are made one by one. -/
theorem Members.toJsonElements_eq (elements : List Members) :
    Members.toJsonElements elements =
      elements.map fun members => .object (Members.toJsonMembers members) := by
  induction elements with
  | nil => rfl
  | cons members elements ih => rw [List.map_cons, ← ih, Members.toJsonElements]

/-- No integer in the tree of a table is too large if none in its members is. -/
theorem Members.signed_object {members : Members} :
    (Json.object (Members.toJsonMembers members)).Signed ↔ members.Signed := by
  rw [Json.signed_object, Members.toJsonMembers_eq, List.forall_mem_map]
  rfl

/-- No integer in a table is too large if none in its members is. -/
theorem Node.signed_table {origin : Origin} {members : Members} :
    (Node.table origin members).toJson.Signed ↔ members.Signed :=
  Members.signed_object

/-- No integer in an array of tables is too large if none in one of the tables is. -/
theorem Node.signed_tables {latest : Members} {earlier : List Members} :
    (Node.tables latest earlier).toJson.Signed ↔
      latest.Signed ∧ ∀ members ∈ earlier, members.Signed := by
  simp only [Node.toJson, Json.signed_array, List.mem_reverse, Members.toJsonElements_eq,
    List.forall_mem_cons, List.forall_mem_map, Members.signed_object]

namespace Members

variable {members members' : Members} {key : String} {node : Node}

/-- What is found under a key has no integer that is too large, if no member has. -/
theorem signed_of_lookup (h : members.Signed) (hnode : List.lookup key members = some node) :
    node.toJson.Signed := by
  obtain ⟨before, after, rfl, -⟩ := List.lookup_eq_some_iff.mp hnode
  exact h (key, node) (by simp)

/-- Putting a node under a key brings no integer that is too large, if the node has none. -/
theorem signed_put (h : members.Signed) (hnode : node.toJson.Signed) :
    (members.put key node).Signed := by
  induction members with
  | nil => simpa [put, Signed] using hnode
  | cons member members ih =>
    obtain ⟨k, old⟩ := member
    have hcons : old.toJson.Signed ∧ Members.Signed members := List.forall_mem_cons.mp h
    rw [put]
    split
    · exact List.forall_mem_cons.mpr ⟨hnode, hcons.2⟩
    · exact List.forall_mem_cons.mpr ⟨hcons.1, ih hcons.2⟩

/-- Defining a key brings no integer that is too large, if the value has none. -/
theorem signed_define {value : Json} (hvalue : value.Signed) {allowed : Bool}
    {path : List String} (h : members.Signed)
    (hread : define value allowed path members = some members') : members'.Signed := by
  fun_induction define value allowed path members generalizing members' with
  | case1 => cases hread
  | case2 allowed key members hfree =>
    cases hread
    exact signed_put h hvalue
  | case3 => cases hread
  | case4 allowed key path members hpath hnone ih =>
    obtain ⟨inner, hinner, hput⟩ := Option.bind_eq_some_iff.mp hread
    cases hput
    exact signed_put h (Node.signed_table.mpr (ih (List.forall_mem_nil _) hinner))
  | case5 => cases hread
  | case6 allowed key path members hpath origin inner hheaded hsome ih =>
    obtain ⟨inner', hinner, hput⟩ := Option.bind_eq_some_iff.mp hread
    cases hput
    have hnode := Node.signed_table.mp (signed_of_lookup h hsome)
    exact signed_put h (Node.signed_table.mpr (ih hnode hinner))
  | case7 allowed key path members hpath latest earlier hsome ih =>
    obtain ⟨latest', hlatest, hput⟩ := Option.bind_eq_some_iff.mp hread
    cases hput
    have hnode := Node.signed_tables.mp (signed_of_lookup h hsome)
    exact signed_put h (Node.signed_tables.mpr ⟨ih hnode.1 hlatest, hnode.2⟩)
  | case8 => cases hread

/-- Defining keys brings no integer that is too large, if no value has one. -/
theorem signed_defineAll {entries : List (List String × Json)}
    (hentries : ∀ entry ∈ entries, entry.2.Signed) (h : members.Signed)
    (hread : defineAll members entries = some members') : members'.Signed := by
  induction entries generalizing members with
  | nil =>
    cases hread
    exact h
  | cons entry entries ih =>
    rw [List.forall_mem_cons] at hentries
    rw [defineAll, List.foldlM_cons] at hread
    obtain ⟨next, hnext, hread⟩ := Option.bind_eq_some_iff.mp hread
    exact ih hentries.2 (signed_define hentries.1 h hnext) hread

/-- Changing what is under a path brings no integer that is too large, if the change does not. -/
theorem signed_change {f : Option Node → Option Node}
    (hf : ∀ old node, (∀ node ∈ old, node.toJson.Signed) → f old = some node → node.toJson.Signed)
    {path : List String} (h : members.Signed) (hread : change f path members = some members') :
    members'.Signed := by
  fun_induction change f path members generalizing members' with
  | case1 => cases hread
  | case2 key members =>
    obtain ⟨node, hnode, hput⟩ := Option.bind_eq_some_iff.mp hread
    cases hput
    exact signed_put h (hf _ node (fun _ hold => signed_of_lookup h hold) hnode)
  | case3 key path members hpath hnone ih =>
    obtain ⟨inner, hinner, hput⟩ := Option.bind_eq_some_iff.mp hread
    cases hput
    exact signed_put h (Node.signed_table.mpr (ih (List.forall_mem_nil _) hinner))
  | case4 key path members hpath origin inner hsome ih =>
    obtain ⟨inner', hinner, hput⟩ := Option.bind_eq_some_iff.mp hread
    cases hput
    have hnode := Node.signed_table.mp (signed_of_lookup h hsome)
    exact signed_put h (Node.signed_table.mpr (ih hnode hinner))
  | case5 key path members hpath latest earlier hsome ih =>
    obtain ⟨latest', hlatest, hput⟩ := Option.bind_eq_some_iff.mp hread
    cases hput
    have hnode := Node.signed_tables.mp (signed_of_lookup h hsome)
    exact signed_put h (Node.signed_tables.mpr ⟨ih hnode.1 hlatest, hnode.2⟩)
  | case6 => cases hread

/-- A section that starts a table has no integer that is too large, if no entry has. -/
theorem signed_headed {entries : List (List String × Json)}
    (hentries : ∀ entry ∈ entries, entry.2.Signed) {old : Option Node} {node : Node}
    (hold : ∀ node ∈ old, node.toJson.Signed) (hread : headed entries old = some node) :
    node.toJson.Signed := by
  unfold headed at hread
  split at hread
  · obtain ⟨members, hmembers, rfl⟩ := Option.map_eq_some_iff.mp hread
    exact Node.signed_table.mpr (signed_defineAll hentries (List.forall_mem_nil _) hmembers)
  · obtain ⟨members, hmembers, rfl⟩ := Option.map_eq_some_iff.mp hread
    have hinner := Node.signed_table.mp (hold _ rfl)
    exact Node.signed_table.mpr (signed_defineAll hentries hinner hmembers)
  · cases hread

/-- A section that starts an element of an array has no integer that is too large, if no entry
has. -/
theorem signed_extended {entries : List (List String × Json)}
    (hentries : ∀ entry ∈ entries, entry.2.Signed) {old : Option Node} {node : Node}
    (hold : ∀ node ∈ old, node.toJson.Signed) (hread : extended entries old = some node) :
    node.toJson.Signed := by
  unfold extended at hread
  split at hread
  · obtain ⟨members, hmembers, rfl⟩ := Option.map_eq_some_iff.mp hread
    have hlatest := signed_defineAll hentries (List.forall_mem_nil _) hmembers
    exact Node.signed_tables.mpr ⟨hlatest, List.forall_mem_nil _⟩
  · obtain ⟨members, hmembers, rfl⟩ := Option.map_eq_some_iff.mp hread
    have hlatest := signed_defineAll hentries (List.forall_mem_nil _) hmembers
    have htables := Node.signed_tables.mp (hold _ rfl)
    exact Node.signed_tables.mpr ⟨hlatest, List.forall_mem_cons.mpr htables⟩
  · cases hread

/-- Adding a section brings no integer that is too large, if none of its entries has one. -/
theorem signed_add {part : Section Json} (hpart : ∀ entry ∈ part.entries, entry.2.Signed)
    (h : members.Signed) (hread : add members part = some members') : members'.Signed := by
  unfold add at hread
  split at hread
  · exact signed_defineAll hpart h hread
  · exact signed_change (fun _ _ => signed_headed hpart) h hread
  · exact signed_change (fun _ _ => signed_extended hpart) h hread

/-- Adding sections brings no integer that is too large, if none of their entries has one. -/
theorem signed_addAll {parts : List (Section Json)}
    (hparts : ∀ part ∈ parts, ∀ entry ∈ part.entries, entry.2.Signed) (h : members.Signed)
    (hread : parts.foldlM add members = some members') : members'.Signed := by
  induction parts generalizing members with
  | nil =>
    cases hread
    exact h
  | cons part parts ih =>
    rw [List.forall_mem_cons] at hparts
    rw [List.foldlM_cons] at hread
    obtain ⟨next, hnext, hread⟩ := Option.bind_eq_some_iff.mp hread
    exact ih hparts.2 (signed_add hparts.1 h hnext) hread

end Members

/-- The tree of a document has no other integers than its sections. -/
theorem signed_assemble {parts : List (Section Json)} {j : Json}
    (hparts : ∀ part ∈ parts, ∀ entry ∈ part.entries, entry.2.Signed)
    (hread : assemble parts = some j) : j.Signed := by
  obtain ⟨members, hmembers, hobject⟩ := Option.bind_eq_some_iff.mp hread
  cases hobject
  exact Members.signed_object.mpr (Members.signed_addAll hparts (List.forall_mem_nil _) hmembers)

/-- An inline table has no integer that is too large, if no entry has. -/
theorem signed_inlineTable {entries : List (List String × Json)} {j : Json}
    (hentries : ∀ entry ∈ entries, entry.2.Signed) (hread : inlineTable entries = some j) :
    j.Signed :=
  signed_assemble (List.forall_mem_singleton.mpr hentries) hread

end Tables

section Reading

variable {cs rest : List Char} {j : Json}

/-- An integer that is accepted is not too large. -/
theorem signed_integerOf {n : Int} (hread : integerOf n = some j) : j.Signed := by
  unfold integerOf at hread
  split at hread
  · rename_i hbounds
    cases hread
    exact hbounds.2
  · cases hread

/-- A floating-point number is no integer. -/
theorem signed_floatOf {negative : Bool} {ds : List Char} {exponent : Int}
    (hread : floatOf negative ds exponent = some j) : j.Signed := by
  unfold floatOf at hread
  dsimp only at hread
  split at hread
  · cases hread
    trivial
  · cases hread

/-- A decimal number that is read is not too large an integer. -/
theorem signed_decimal (hread : decimal cs = some (j, rest)) : j.Signed := by
  unfold decimal at hread
  dsimp only at hread
  split at hread
  · cases hread
    trivial
  · cases hread
    trivial
  · obtain ⟨⟨ds, rest'⟩, -, hread⟩ := Option.bind_eq_some_iff.mp hread
    dsimp only at hread
    split at hread
    · obtain ⟨⟨fraction, rest'⟩, -, hread⟩ := Option.bind_eq_some_iff.mp hread
      obtain ⟨⟨exponent, rest'⟩, -, hread⟩ := Option.bind_eq_some_iff.mp hread
      obtain ⟨j', hj', hread⟩ := Option.bind_eq_some_iff.mp hread
      cases hread
      exact signed_floatOf hj'
    · obtain ⟨j', hj', hread⟩ := Option.bind_eq_some_iff.mp hread
      cases hread
      exact signed_integerOf hj'

/-- A number that is read is not too large an integer. -/
theorem signed_number (hread : number cs = some (j, rest)) : j.Signed := by
  have hbase {isDigit : Char → Bool} {base : Nat} {cs : List Char}
      (hread : (digits isDigit cs).bind (fun p =>
        (integerOf (ofDigits base p.1)).bind fun j => some (j, p.2)) = some (j, rest)) :
      j.Signed := by
    obtain ⟨⟨ds, rest'⟩, -, hread⟩ := Option.bind_eq_some_iff.mp hread
    obtain ⟨j', hj', hread⟩ := Option.bind_eq_some_iff.mp hread
    cases hread
    exact signed_integerOf hj'
  unfold number at hread
  split at hread
  · exact hbase hread
  · exact hbase hread
  · exact hbase hread
  · exact signed_decimal hread

/-- A date or time has no integer that is too large. -/
theorem signed_moment (hread : moment cs = some (j, rest)) : j.Signed := by
  obtain ⟨rest', -, hread⟩ := Option.bind_eq_some_iff.mp hread
  cases hread
  exact ⟨trivial, trivial⟩

/-- A scalar that is read is not too large an integer. -/
theorem signed_scalar (hread : scalar cs = some (j, rest)) : j.Signed := by
  have htext {cs : List Char} (hread : (string cs).map (fun p => (Json.text (.ofList p.1), p.2)) =
      some (j, rest)) : j.Signed := by
    obtain ⟨p, -, hread⟩ := Option.map_eq_some_iff.mp hread
    cases hread
    trivial
  have hother {cs : List Char} (hread : (moment cs <|> number cs) = some (j, rest)) :
      j.Signed := by
    cases hmoment : moment cs with
    | some read =>
      rw [hmoment] at hread
      cases hread
      exact signed_moment hmoment
    | none =>
      rw [hmoment] at hread
      exact signed_number hread
  unfold scalar at hread
  split at hread
  · cases hread
    trivial
  · cases hread
    trivial
  · exact htext hread
  · exact htext hread
  · exact hother hread

/-- The values that are read with so much fuel have no integer that is too large. -/
structure ReadsSigned (fuel : Nat) : Prop where
  value : ∀ {room cs j rest}, Toml.value fuel room cs = some (j, rest) → j.Signed
  items : ∀ {room cs items rest}, arrayItems fuel room cs = some (items, rest) →
    ∀ j ∈ items, j.Signed
  entries : ∀ {room cs entries rest}, tableEntries fuel room cs = some (entries, rest) →
    ∀ entry ∈ entries, entry.2.Signed

/-- With one more step, what is read has still no integer that is too large. -/
theorem readsSigned_succ {fuel : Nat} (h : ReadsSigned fuel) : ReadsSigned (fuel + 1) where
  value := by
    intro room cs j rest hread
    unfold Toml.value at hread
    split at hread
    · cases hread
    · rename_i heq
      cases heq
      obtain ⟨⟨items, rest'⟩, hitems, hread⟩ := Option.bind_eq_some_iff.mp hread
      cases hread
      exact Json.signed_array.mpr (h.items hitems)
    · rename_i heq
      cases heq
      dsimp only at hread
      split at hread
      · cases hread
        trivial
      · obtain ⟨⟨entries, rest'⟩, hentries, hread⟩ := Option.bind_eq_some_iff.mp hread
        obtain ⟨j', hj', hread⟩ := Option.bind_eq_some_iff.mp hread
        cases hread
        exact signed_inlineTable (h.entries hentries) hj'
    · exact signed_scalar hread
  items := by
    intro room cs items rest hread
    unfold arrayItems at hread
    split at hread
    · cases hread
    · cases hread
      exact List.forall_mem_nil _
    · rename_i hfuel hbracket
      cases hfuel
      obtain ⟨⟨item, rest'⟩, hitem, hread⟩ := Option.bind_eq_some_iff.mp hread
      dsimp only at hread
      split at hread
      · obtain ⟨⟨more, rest''⟩, hmore, hread⟩ := Option.bind_eq_some_iff.mp hread
        cases hread
        exact List.forall_mem_cons.mpr ⟨h.value hitem, h.items hmore⟩
      · cases hread
        exact List.forall_mem_singleton.mpr (h.value hitem)
      · cases hread
  entries := by
    intro room cs entries rest hread
    unfold tableEntries at hread
    obtain ⟨⟨path, rest'⟩, -, hread⟩ := Option.bind_eq_some_iff.mp hread
    obtain ⟨rest', -, hread⟩ := Option.bind_eq_some_iff.mp hread
    obtain ⟨⟨item, rest'⟩, hitem, hread⟩ := Option.bind_eq_some_iff.mp hread
    dsimp only at hread
    split at hread
    · obtain ⟨⟨more, rest''⟩, hmore, hread⟩ := Option.bind_eq_some_iff.mp hread
      cases hread
      exact List.forall_mem_cons.mpr ⟨h.value hitem, h.entries hmore⟩
    · cases hread
      exact List.forall_mem_singleton.mpr (h.value hitem)
    · cases hread

/-- What is read has no integer that is too large, however many steps there are. -/
theorem readsSigned (fuel : Nat) : ReadsSigned fuel := by
  induction fuel with
  | zero => exact ⟨nofun, nofun, nofun⟩
  | succ fuel ih => exact readsSigned_succ ih

/-- The integers that a statement gives are not too large. -/
def Statement.Signed : Statement → Prop
  | .heading _ => True
  | .entry _ value => value.Signed

/-- A line that is read has no integer that is too large. -/
theorem signed_statement {said : Statement} (hread : statement cs = some (said, rest)) :
    said.Signed := by
  unfold statement at hread
  split at hread
  · obtain ⟨⟨path, rest'⟩, -, hread⟩ := Option.bind_eq_some_iff.mp hread
    obtain ⟨rest', -, hread⟩ := Option.bind_eq_some_iff.mp hread
    obtain ⟨rest', -, hread⟩ := Option.bind_eq_some_iff.mp hread
    cases hread
    trivial
  · obtain ⟨⟨path, rest'⟩, -, hread⟩ := Option.bind_eq_some_iff.mp hread
    obtain ⟨rest', -, hread⟩ := Option.bind_eq_some_iff.mp hread
    cases hread
    trivial
  · obtain ⟨⟨path, rest'⟩, -, hread⟩ := Option.bind_eq_some_iff.mp hread
    obtain ⟨rest', -, hread⟩ := Option.bind_eq_some_iff.mp hread
    obtain ⟨⟨item, rest'⟩, hitem, hread⟩ := Option.bind_eq_some_iff.mp hread
    cases hread
    exact (readsSigned _).value hitem

/-- Lines that are read have no integer that is too large. -/
theorem signed_statements {fuel : Nat} {said : List Statement}
    (hread : statements fuel cs = some said) : ∀ s ∈ said, s.Signed := by
  induction fuel generalizing cs said with
  | zero => cases hread
  | succ fuel ih =>
    unfold statements at hread
    split at hread
    · cases hread
      exact List.forall_mem_nil _
    · exact ih hread
    · obtain ⟨⟨first, rest⟩, hfirst, hread⟩ := Option.bind_eq_some_iff.mp hread
      obtain ⟨rest', -, hread⟩ := Option.bind_eq_some_iff.mp hread
      obtain ⟨more, hmore, hread⟩ := Option.bind_eq_some_iff.mp hread
      cases hread
      exact List.forall_mem_cons.mpr ⟨signed_statement hfirst, ih hmore⟩

/-- Sections have no integer that is too large, if the lines they are made of have none. -/
theorem signed_sections {said : List Statement} (h : ∀ s ∈ said, s.Signed) (heading : Heading) :
    ∀ part ∈ sections heading said, ∀ entry ∈ part.entries, entry.2.Signed := by
  induction said generalizing heading with
  | nil => simp [sections]
  | cons s said ih =>
    rw [List.forall_mem_cons] at h
    cases s with
    | heading next =>
      rw [sections, List.forall_mem_cons]
      exact ⟨List.forall_mem_nil _, ih h.2 next⟩
    | entry path item =>
      have hitem : item.Signed := h.1
      have hparts := ih h.2 heading
      rw [sections]
      split
      · simpa using hitem
      · rename_i part parts heq
        rw [heq, List.forall_mem_cons] at hparts
        rw [List.forall_mem_cons, List.forall_mem_cons]
        exact ⟨⟨hitem, hparts.1⟩, hparts.2⟩

/-- **Integers of a text.** No integer in a document is larger than 63 bits can hold. -/
theorem signed_read {text : String} (hread : read text = some j) : j.Signed := by
  obtain ⟨said, hsaid, hread⟩ := Option.bind_eq_some_iff.mp hread
  exact signed_assemble (signed_sections (signed_statements hsaid) .top) hread

end Reading

end Toml

end SqlAlgebra
