import SqlAlgebra.Format.Basic
import SqlAlgebra.Json.Reading

/-!
# JSON as a format

A kind is written as its name, or as an object whose only member has that name. Readers are more
lenient: a kind to which nothing belongs may be such an object with null in it, a record may be an
array of all its fields, and unknown members are ignored. Whether a document is read from its text
or from a tree in memory makes a difference, and so there are rules.
-/

namespace SqlAlgebra

/-- What readers of JSON do not agree on. -/
structure JsonRules where
  /-- How many arrays and objects may stand inside one another, if there is a limit. -/
  limit : Option Nat
  /-- The fields of a kind may be an array, as those of a record may. -/
  listed : Bool
  /-- A member may be given again, and the last one counts. -/
  repeated : Bool

namespace JsonRules

/-- The rules for a document that is read from its text. -/
def text : JsonRules := ⟨some 127, true, false⟩

/-- The rules for a tree in memory. -/
def tree : JsonRules := ⟨none, false, true⟩

/-- The last one of members with the same name. -/
def lastMembers : List (String × Json) → List (String × Json)
  | [] => []
  | (name, j) :: members =>
    if members.any (·.1 == name) then lastMembers members else (name, j) :: lastMembers members

/-- The members of an object that count. -/
def members (rules : JsonRules) (members : List (String × Json)) : List (String × Json) :=
  if rules.repeated then lastMembers members else members

end JsonRules

/-- A place in a document: the tree that is there, and how many arrays and objects may stand inside
one another in it. -/
structure JsonPlace where
  room : Option Nat
  tree : Json

namespace JsonPlace

/-- The room inside an array or an object, unless it must not be there itself. -/
def inside? (x : JsonPlace) : Option (Option Nat) :=
  match x.room with
  | none => some none
  | some 0 => none
  | some (room + 1) => some (some room)

def option? (x : JsonPlace) : Option (Option JsonPlace) :=
  match x.tree with
  | .null => some none
  | _ => some (some x)

def list? (x : JsonPlace) : Option (List JsonPlace) :=
  match x.tree with
  | .array items => x.inside?.map fun room => items.map (mk room)
  | _ => none

def pair? (x : JsonPlace) : Option (JsonPlace × JsonPlace) :=
  match x.list? with
  | some [y, z] => some (y, z)
  | _ => none

/-- All fields, in an array. -/
def listed? (names : List String) (x : JsonPlace) : Option (List (Option JsonPlace)) :=
  match x.list? with
  | some places => if places.length = names.length then some (places.map some) else none
  | none => none

end JsonPlace

namespace JsonRules

variable (rules : JsonRules)

/-- The members of an object under given names, as far as they are there. None of them may be there
twice. -/
def members? (names : List String) (x : JsonPlace) : Option (List (Option JsonPlace)) :=
  match x.tree with
  | .object given =>
    let members := rules.members given
    if names.all fun name => members.countP (·.1 == name) ≤ 1 then
      x.inside?.map fun room =>
        names.map fun name => (List.lookup name members).map (JsonPlace.mk room)
    else none
  | _ => none

def record? (names : List String) (x : JsonPlace) : Option (List (Option JsonPlace)) :=
  match x.tree with
  | .array _ => x.listed? names
  | _ => rules.members? names x

def fields? (names : List String) (x : JsonPlace) : Option (List (Option JsonPlace)) :=
  match x.tree with
  | .array _ => if rules.listed then x.listed? names else none
  | _ => rules.members? names x

def variant? (x : JsonPlace) : Option (String × Option JsonPlace) :=
  match x.tree with
  | .text name => some (name, none)
  | .object given =>
    match rules.members given with
    | [(name, j)] => x.inside?.map fun room => (name, some ⟨room, j⟩)
    | _ => none
  | _ => none

end JsonRules

/-- JSON, as read by rules. A number that is not finite is written as null, and none is read. -/
def Format.json (rules : JsonRules) : Format Json JsonPlace where
  bool := .bool
  text := .text
  int64 n := .int n.toInt
  uint64 n := .int n.toNat
  binary64 x := if x.isFinite then .float x else .null
  absent := .null
  present j := j
  list := .array
  pair j k := .array [j, k]
  record := .object
  constant := .text
  wrapped name j := .object [(name, j)]
  tagged name fields := .object [(name, .object fields)]
  start j := ⟨rules.limit, j⟩
  levels x := x.tree.depth
  bool? x := x.tree.bool?
  text? x := x.tree.text?
  int64? x := x.tree.int64?
  uint64? x := x.tree.uint64?
  binary64? x := x.tree.binary64?.filter Binary64.isFinite
  option? := JsonPlace.option?
  list? := JsonPlace.list?
  pair? := JsonPlace.pair?
  record? := rules.record?
  variant? := rules.variant?
  isEmpty
    | none => true
    | some x => match x.tree with
      | .null => true
      | _ => false
  fields? := rules.fields?

end SqlAlgebra
