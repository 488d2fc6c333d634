import SqlAlgebra.Proofs.JsonFormat
import SqlAlgebra.Proofs.StoredQueries

/-!
# Storing and reading are inverse

In a faithful format, what was written is read back if its numbers are finite and it fits into a
document. Whatever is read from a document, in whatever form, is read again from the form in which
it is written: records may have been written as lists, with unknown members, or without the members
that mean nothing.
-/

namespace SqlAlgebra

open Format.Faithful

variable {ω δ α : Type} {f : Format ω δ}

/-- Expressions are carried, with as many readers as there are levels. -/
theorem Expr.carries (h : f.Faithful) (limit : Nat) :
    h.Carries limit (write f) (read? f) (fun e => e.isFinite = true) where
  read_of_within he hx :=
    (NodeReader.carries_upTo h _).expr.read_of_within he ⟨Nat.lt_succ_self _, hx.2⟩
  fits_of_read he := (NodeReader.carries_upTo h _).expr.fits_of_read he

/-- Queries are carried, with as many readers as there are levels. -/
theorem Query.carries (h : f.Faithful) (limit : Nat) :
    h.Carries limit (write f) (read? f) (fun q => q.isFinite = true) where
  read_of_within hq hx :=
    (NodeReader.carries_upTo h _).query.read_of_within hq ⟨Nat.lt_succ_self _, hx.2⟩
  fits_of_read hq := (NodeReader.carries_upTo h _).query.fits_of_read hq

/-- Order keys are carried, with as many readers as there are levels. -/
theorem OrderKey.carries (h : f.Faithful) (limit : Nat) :
    h.Carries limit (write f) (read? f) (fun key => key.isFinite = true) where
  read_of_within hkey hx :=
    (NodeReader.carries_upTo h _).orderKey.read_of_within hkey ⟨Nat.lt_succ_self _, hx.2⟩
  fits_of_read hkey := (NodeReader.carries_upTo h _).orderKey.fits_of_read hkey

namespace Command

/-- A finite command is read back from where it was written. -/
theorem read?_write {h : f.Faithful} {limit : Nat} {x : δ} {command : Command}
    (hcommand : command.isFinite = true) (hx : h.Within limit x (command.write f)) :
    read? f x = some command := by
  replace hx := hx.mono (Nat.le_succ limit)
  cases command with
  | savepoint name =>
    obtain ⟨y, hvariant, hy⟩ := hx.wrapped
    rw [read?, hvariant]
    exact congrArg (Option.map savepoint) (h.holds_text hy.2)
  | releaseSavepoint name =>
    obtain ⟨y, hvariant, hy⟩ := hx.wrapped
    rw [read?, hvariant]
    exact congrArg (Option.map releaseSavepoint) (h.holds_text hy.2)
  | rollbackToSavepoint name =>
    obtain ⟨y, hvariant, hy⟩ := hx.wrapped
    rw [read?, hvariant]
    exact congrArg (Option.map rollbackToSavepoint) (h.holds_text hy.2)
  | advisoryLock key =>
    obtain ⟨y, ys, hvariant, hfields, hys⟩ := hx.tagged (by simp)
    obtain _ | ⟨hkey, _ | _⟩ := hys
    rw [read?, hvariant]
    exact read_bind hfields <|
      congrArg (Option.map advisoryLock) ((Expr.carries h limit).read_of_within hcommand hkey)
  | advisoryUnlock key =>
    obtain ⟨y, ys, hvariant, hfields, hys⟩ := hx.tagged (by simp)
    obtain _ | ⟨hkey, _ | _⟩ := hys
    rw [read?, hvariant]
    exact read_bind hfields <|
      congrArg (Option.map advisoryUnlock) ((Expr.carries h limit).read_of_within hcommand hkey)
  | copyIn table columns =>
    obtain ⟨y, ys, hvariant, hfields, hys⟩ := hx.tagged (by simp)
    obtain _ | ⟨htable, _ | ⟨hcolumns, _ | _⟩⟩ := hys
    rw [read?, hvariant]
    exact read_bind hfields <|
      read_bind (h.holds_text htable.2) <|
      read_bind ((Carries.texts h limit).read_of_within trivial hcolumns) rfl

/-- A command that is read could have been written there, and is finite. -/
theorem fits_of_read? (h : f.Faithful) {x : δ} {command : Command}
    (hcommand : read? f x = some command) :
    h.Fits x (command.write f) ∧ command.isFinite = true := by
  unfold read? at hcommand
  split at hcommand
  case h_1 hvariant | h_2 hvariant | h_3 hvariant =>
    obtain ⟨name, hname, rfl⟩ := Option.map_eq_some_iff.mp hcommand
    exact ⟨h.fits_wrapped hvariant (h.fits_text hname), rfl⟩
  case h_4 hvariant | h_5 hvariant =>
    obtain ⟨parts, hfields, hcommand⟩ := Option.bind_eq_some_iff.mp hcommand
    split at hcommand
    · obtain ⟨key, hkey, rfl⟩ := Option.map_eq_some_iff.mp hcommand
      obtain ⟨hkey, hfinite⟩ := (Expr.carries h 0).required hkey
      exact ⟨h.fits_tagged hvariant hfields (.cons hkey .nil), hfinite⟩
    · cases hcommand
  case h_6 hvariant =>
    obtain ⟨parts, hfields, hcommand⟩ := Option.bind_eq_some_iff.mp hcommand
    split at hcommand
    · simp only [Option.bind_eq_bind, Option.bind_eq_some_iff, Option.pure_def,
        Option.some.injEq] at hcommand
      obtain ⟨table, htable, columns, hcolumns, rfl⟩ := hcommand
      obtain ⟨htable, -⟩ := (Carries.text h 0).required htable
      obtain ⟨hcolumns, -⟩ := (Carries.texts h 0).required hcolumns
      exact ⟨h.fits_tagged hvariant hfields (.cons htable (.cons hcolumns .nil)), rfl⟩
    · cases hcommand
  case h_7 => cases hcommand

/-- Commands are carried. -/
theorem carries (h : f.Faithful) (limit : Nat) :
    h.Carries limit (write f) (read? f) (fun command => command.isFinite = true) :=
  ⟨read?_write, fits_of_read? h⟩

end Command

namespace Format

/-- Values of some kind survive being stored: a value is read back from its own document if it can
be stored and fits into one, and only then, and whatever is read from a document is read again from
its own. -/
structure RoundTrips (f : Format ω δ) (fits : ω → Prop) (write : α → ω) (read : δ → Option α)
    (storable : α → Bool) : Prop where
  read_write_iff : ∀ a,
    read (f.start (write a)) = some a ↔ storable a = true ∧ fits (write a)
  read_again : ∀ doc a, read (f.start doc) = some a → read (f.start (write a)) = some a

/-- What is carried survives being stored. -/
theorem RoundTrips.of_carries {h : f.Faithful} {write : α → ω} {read : δ → Option α}
    {storable : α → Bool}
    (hc : ∀ limit, h.Carries limit write read (fun a => storable a = true)) :
    f.RoundTrips (fun w => h.Fits (f.start w) w) write read storable := by
  have hread {v : ω} {a : α} (ha : storable a = true) (hfits : h.Fits (f.start v) (write a)) :
      read (f.start (write a)) = some a :=
    (hc _).read_of_within ha ⟨Nat.lt_succ_self _, h.holds_start hfits⟩
  refine ⟨fun a => ⟨fun ha => ((hc 0).fits_of_read ha).symm, fun ⟨ha, hfits⟩ => hread ha hfits⟩,
    fun doc a ha => ?_⟩
  obtain ⟨hfits, ha⟩ := (hc 0).fits_of_read ha
  exact hread ha hfits

/-- Everything that is stored survives it, as far as it fits into documents. -/
structure Preserves (f : Format ω δ) (fits : ω → Prop) : Prop where
  query : f.RoundTrips fits (Query.write f) (Query.read? f) Query.isFinite
  expr : f.RoundTrips fits (Expr.write f) (Expr.read? f) Expr.isFinite
  command : f.RoundTrips fits (Command.write f) (Command.read? f) Command.isFinite
  orderKey : f.RoundTrips fits (OrderKey.write f) (OrderKey.read? f) OrderKey.isFinite
  frame : f.RoundTrips fits (Frame.write f) (Frame.read? f) (fun _ => true)
  shape : f.RoundTrips fits (Shape.write f) (Shape.read? f) (fun _ => true)
  type : f.RoundTrips fits (SqlType.write f) (SqlType.read? f) (fun _ => true)
  value : f.RoundTrips fits (Value.write f) (Value.read? f) Value.isFinite

/-- A faithful format gives back each of the eight kinds as it was written, as far as there is
room. -/
theorem Faithful.preserves (h : f.Faithful) : f.Preserves fun w => h.Fits (f.start w) w where
  query := .of_carries (Query.carries h)
  expr := .of_carries (Expr.carries h)
  command := .of_carries (Command.carries h)
  orderKey := .of_carries (OrderKey.carries h)
  frame := .of_carries fun limit => (Frame.carries h limit).congr (by simp)
  shape := .of_carries fun limit => (Shape.carries h limit).congr (by simp)
  type := .of_carries fun limit => (SqlType.carries h limit).congr (by simp)
  value := .of_carries (Value.carries h)

end Format

/-- Queries, expressions, commands, order keys, frames, shapes, types and constants survive being
stored in any faithful format. In JSON they fit if they are not deeper than the limit of the rules,
if there is one. -/
theorem survives_storing :
    (∀ (ω δ : Type) (f : Format ω δ) (h : f.Faithful),
      f.Preserves fun w => h.Fits (f.start w) w) ∧
    ∀ rules : JsonRules,
      (Format.json rules).Preserves fun j => ∀ limit ∈ rules.limit, j.depth ≤ limit :=
  ⟨fun _ _ _ h => h.preserves, fun rules => (Format.faithful_json rules).preserves⟩

namespace Query

/-- A query with a negative zero, an ELSE that is NULL and not missing, and the largest distance
that a frame can have. -/
def extremes : Query :=
  .step (.table "t") (.select .unit [
    ⟨.literal (.float ⟨9223372036854775808⟩), none⟩,
    ⟨.choice [⟨.wildcard, .literal (.int Int64.minValue)⟩] (some (.literal .null)), none⟩,
    ⟨.window "SUM" [.placeholder "n"] [] []
      (some ⟨.rows, .preceding (some 18446744073709551615), some (.following none)⟩), none⟩])

/-- An order by a column and by the number -3. -/
def ordered : Query :=
  .step (.table "t") (.orderBy [⟨.column none "a", .asc, some .first⟩,
    ⟨.literal (.float ⟨13837309855095848960⟩), .desc, none⟩])

/-- The same order, but in a document that is not its written form: the table, the order, one key
and its column are lists, and the other key has a member too many and one too few. -/
def orderedTree : Json :=
  .object [("OrderBy", .array [.object [("From", .array [.text "t"])], .array [
    .array [.object [("Column", .array [.null, .text "a"])], .text "Asc", .text "First"],
    .object [("expr", .object [("Literal", .object [("Float", .int (-3))])]),
      ("note", .bool true), ("direction", .text "Desc")]]])]

/-- A table with as many DISTINCTs as are asked for. -/
def distincts : Nat → Query
  | 0 => .table "t"
  | n + 1 => .step (distincts n) .distinct

/-- Every stage is two objects inside one another. -/
theorem depth_distincts (rules : JsonRules) (n : Nat) :
    ((distincts n).write (Format.json rules)).depth = 2 * n + 2 := by
  induction n with
  | zero => rfl
  | succ n ih =>
    have hdepth : ((distincts (n + 1)).write (Format.json rules)).depth =
        max ((distincts n).write (Format.json rules)).depth 0 + 1 + 1 := by
      simp [distincts, Query.write, Stage.parts, Format.json, Json.depth, Json.depthMembers]
    omega

/-- The sample has no numbers, so none that is not finite. -/
theorem isFinite_distincts (n : Nat) : (distincts n).isFinite = true := by
  induction n with
  | zero => rfl
  | succ n ih => simp [distincts, Query.isFinite, Stage.isFinite, ih]

end Query

/-- From its text, the order is read although it is in another form, and 62 DISTINCTs are read but
63 are not. From a tree in memory they are. -/
theorem survives_storing_extremes :
    Query.read? (.json .text) ((Format.json .text).start (Query.extremes.write (.json .text))) =
      some Query.extremes ∧
    Query.read? (.json .text) ((Format.json .text).start Query.orderedTree) = some Query.ordered ∧
    Query.read? (.json .text) ((Format.json .text).start (Query.ordered.write (.json .text))) =
      some Query.ordered ∧
    Query.read? (.json .text)
        ((Format.json .text).start ((Query.distincts 62).write (.json .text))) =
      some (Query.distincts 62) ∧
    ¬ Query.read? (.json .text)
        ((Format.json .text).start ((Query.distincts 63).write (.json .text))) =
      some (Query.distincts 63) ∧
    Query.read? (.json .tree)
        ((Format.json .tree).start ((Query.distincts 63).write (.json .tree))) =
      some (Query.distincts 63) := by
  have hread : Query.read? (.json .text) ((Format.json .text).start Query.orderedTree) =
      some Query.ordered := rfl
  have htext := (survives_storing.2 .text).query
  have htree := (survives_storing.2 .tree).query
  refine ⟨(htext.read_write_iff _).mpr ⟨rfl, ?_⟩, hread, htext.read_again _ _ hread,
    (htext.read_write_iff _).mpr ⟨Query.isFinite_distincts 62, ?_⟩, fun hdeep => ?_,
    (htree.read_write_iff _).mpr ⟨Query.isFinite_distincts 63, ?_⟩⟩
  · intro limit hlimit
    cases hlimit
    decide
  · intro limit hlimit
    cases hlimit
    rw [Query.depth_distincts]
    decide
  · have hdepth := ((htext.read_write_iff _).mp hdeep).2 127 rfl
    rw [Query.depth_distincts] at hdepth
    omega
  · intro limit hlimit
    cases hlimit

end SqlAlgebra
