import SqlAlgebra.Dialect.Profile
import SqlAlgebra.Proofs.Expressions
import SqlAlgebra.Query.Build

/-!
# The columns of the rows

The shape of a query is read off its stages, and the columns that its statement puts out are read
off the projection that the outermost SELECT has or passes on. The two agree: what a projection
declares comes out in the same order, however many stages, set operations and WITH clauses there are
above it, unless a join adds columns of its own.
-/

namespace SqlAlgebra

/-- The items of a stage that declares a shape. -/
def Stage.declared? : Stage → Option (List SelectItem)
  | .select _ items | .returning _ items => some items
  | _ => none

/-- The items that the shape of a query goes back to, and the scope of their placeholders. -/
def Query.declaration? : Query → Option (Scope × List SelectItem)
  | .table _ | .insertInto .. | .update _ | .deleteFrom _ => none
  | .setOperation _ _ left _ => left.declaration?
  | .withCtes _ _ main => main.declaration?
  | .step source stage =>
    match stage.declared? with
    | some items => some ((Query.step source stage).scope, items)
    | none => source.declaration?

/-- Something is joined to the rows above the stage that declares their shape. -/
def Query.joinsShape : Query → Bool
  | .table _ | .insertInto .. | .update _ | .deleteFrom _ => false
  | .setOperation _ _ left _ => left.joinsShape
  | .withCtes _ _ main => main.joinsShape
  | .step source stage =>
    stage.declared?.isNone && (decide (stage.kind = .join) || source.joinsShape)

/-- The shape that a query declares is that of its items: it was built so. -/
inductive Query.Built : Query → Prop where
  | table (name : String) : Built (.table name)
  | insertInto (name : String) (columns : List String) : Built (.insertInto name columns)
  | update (name : String) : Built (.update name)
  | deleteFrom (name : String) : Built (.deleteFrom name)
  | setOperation (op : SetOperator) (all : Bool) {left right : Query} (hleft : Built left)
      (hright : Built right) : Built (.setOperation op all left right)
  | withCtes (recursive : Bool) {ctes : List (Cte Query)} {main : Query}
      (hctes : ∀ cte ∈ ctes, Built cte.body) (hmain : Built main) :
      Built (.withCtes recursive ctes main)
  | select {q : Query} (hq : Built q) (items : List SelectItem) (name : Option String) :
      Built (q.select items name)
  | returning {q : Query} (hq : Built q) (items : List SelectItem) : Built (q.returning items)
  | step {q : Query} (hq : Built q) {stage : Stage} (hstage : stage.declared? = none) :
      Built (q.step stage)

mutual

/-- The items that the rows of a statement consist of. Where everything is selected, they are those
of the statement below, if nothing is joined to it. -/
def Statement.output? : Statement → Option (List SelectItem)
  | .select block => block.output?
  | .setOperation _ _ left _ => left.output?
  | .withCtes _ _ body => body.output?
  | .insert i => i.returning
  | .update u => u.returning
  | .delete x => x.returning
termination_by structural s => s

def Block.output? : Block → Option (List SelectItem)
  | ⟨origin, joins, _, _, _, projection, _, _, _, _⟩ =>
    projection.or (if joins.isEmpty then origin.output? else none)
termination_by structural b => b

def Origin.output? : Origin → Option (List SelectItem)
  | .table _ => none
  | .derived body _ => body.output?
termination_by structural o => o

end

section Lowering

variable {d : Dialect} {scope : Scope} {source : Source} {stage : Stage} {s : Statement}

/-- The output of a SELECT is what it projects or, without joins, that of what it reads from. -/
theorem Block.output?_eq (b : Block) :
    b.output? = b.projection.or (if b.joins.isEmpty then b.origin.output? else none) := by
  cases b
  rfl

/-- A SELECT opened over a statement puts out what the statement does. -/
theorem Statement.output?_blockFor (clause : Clause) (name : String) (s : Statement) :
    (s.blockFor clause name).output? = s.output? := by
  cases s with
  | select block =>
    by_cases haccepts : block.accepts clause = true
    · rw [Statement.blockFor, if_pos haccepts]
      rfl
    · rw [Statement.blockFor, if_neg haccepts]
      rfl
  | _ => rfl

/-- A clause that neither selects nor joins leaves the output as it is. -/
theorem Block.output?_add (b : Block) {a : Addition} (hselect : a.clause ≠ .select)
    (hjoin : a.clause ≠ .join) : (b.add a).output? = b.output? := by
  rw [Block.output?_eq, Block.output?_eq]
  cases a with
  | select items => exact absurd rfl hselect
  | join added => exact absurd rfl hjoin
  | _ => rfl

/-- A stage that adds a projection or a join says so by its kind. -/
theorem Stage.Adds.clause_ne {a : Addition} (h : stage.Adds d scope (some a))
    (hdeclared : stage.declared? = none) (hjoin : stage.kind ≠ .join) :
    a.clause ≠ .select ∧ a.clause ≠ .join := by
  cases h with
  | select => cases hdeclared
  | join => exact absurd rfl hjoin
  | _ => exact ⟨nofun, nofun⟩

/-- The guard of an INSERT does not change what it returns. -/
theorem Insert.returning_guardJoin (d : Dialect) (i : Insert) :
    (i.guardJoin d).returning = i.returning := by
  unfold Insert.guardJoin
  split <;> rfl

/-- A stage that declares no shape and joins nothing puts out what its source does. -/
theorem Stage.output?_lower (hdeclared : stage.declared? = none) (hjoin : stage.kind ≠ .join)
    (h : stage.lower d scope source = .ok s) :
    ∃ s₀, source.statement = .ok s₀ ∧ s.output? = s₀.output? := by
  cases hrow : stage.kind.isRowStage with
  | true =>
    obtain ⟨a, s₀, ha, hs₀, -, rfl⟩ := (Stage.lower_rowStage_eq_ok hrow).mp h
    refine ⟨s₀, hs₀, ?_⟩
    cases a with
    | none => rfl
    | some a =>
      obtain ⟨hselect, hjoin⟩ := (Stage.adds_of_addition ha).clause_ne hdeclared hjoin
      calc ((s₀.extend source.derivedName (some a)).output?)
          = ((s₀.blockFor a.clause source.derivedName).add a).output? := rfl
        _ = (s₀.blockFor a.clause source.derivedName).output? := Block.output?_add _ hselect hjoin
        _ = s₀.output? := s₀.output?_blockFor _ _
  | false =>
    cases stage with
    | values rows =>
      obtain ⟨i, rows', hi, -, -, -, -, rfl⟩ := Stage.lower_values.mp h
      exact ⟨_, hi, rfl⟩
    | insertSelect rows =>
      obtain ⟨i, body, hi, -, -, -, rfl⟩ := Stage.lower_insertSelect.mp h
      exact ⟨_, hi, rfl⟩
    | onConflict target action =>
      obtain ⟨-, i, action', hi, -, -, -, -, rfl⟩ := Stage.lower_onConflict.mp h
      exact ⟨_, hi, Insert.returning_guardJoin d _⟩
    | set assignments =>
      obtain ⟨-, u, assignments', hu, -, -, -, rfl⟩ := Stage.lower_set.mp h
      exact ⟨_, hu, rfl⟩
    | updateWhere predicate =>
      obtain ⟨u, predicate', hu, -, -, rfl⟩ := Stage.lower_updateWhere.mp h
      exact ⟨_, hu, rfl⟩
    | deleteWhere predicate =>
      obtain ⟨x, predicate', hx, -, -, rfl⟩ := Stage.lower_deleteWhere.mp h
      exact ⟨_, hx, rfl⟩
    | returning => cases hdeclared
    | _ => cases hrow

/-- A stage that declares a shape puts out its items, resolved. -/
theorem Stage.output?_lower_of_declared {items : List SelectItem}
    (hdeclared : stage.declared? = some items) (h : stage.lower d scope source = .ok s) :
    ∃ items', scope.resolveItems items = .ok items' ∧ s.output? = some items' := by
  cases stage with
  | select shape items =>
    cases hdeclared
    obtain ⟨a, s₀, ha, -, -, rfl⟩ := (Stage.lower_rowStage_eq_ok rfl).mp h
    cases Stage.adds_of_addition ha with
    | nothing hreads => cases hreads
    | @select _ _ items' hitems =>
      refine ⟨items', hitems, ?_⟩
      rw [Statement.extend, Statement.output?, Block.output?_eq]
      rfl
  | returning shape items =>
    cases hdeclared
    obtain ⟨-, -, items', s₀, hitems, -, hadd⟩ := Stage.lower_returning.mp h
    refine ⟨items', hitems, ?_⟩
    rcases Statement.addReturning_eq_ok.mp hadd with
      ⟨i, -, -, rfl⟩ | ⟨u, -, -, rfl⟩ | ⟨x, -, -, rfl⟩
    · rfl
    · rfl
    · rfl
  | _ => cases hdeclared

/-- The statement of a query puts out the items that the query declares, resolved. -/
theorem Query.output?_lower {items : List SelectItem} : ∀ {q : Query} {s : Statement},
    q.declaration? = some (scope, items) → q.joinsShape = false → q.lower d = .ok s →
    ∃ items', scope.resolveItems items = .ok items' ∧ s.output? = some items'
  | .table _, _, hdecl, _, _ | .insertInto .., _, hdecl, _, _ | .update _, _, hdecl, _, _
  | .deleteFrom _, _, hdecl, _, _ => by cases hdecl
  | .setOperation op all left right, s, hdecl, hjoins, h => by
    obtain ⟨-, left', right', hleft, -, rfl⟩ := Query.lower_setOperation.mp h
    have hlowered := (Query.lowerRows_eq_ok.mp hleft).1
    exact Query.output?_lower (q := left) (s := left') hdecl hjoins hlowered
  | .withCtes recursive ctes main, s, hdecl, hjoins, h => by
    obtain ⟨-, -, ctes', body, -, hbody, rfl⟩ := Query.lower_withCtes.mp h
    exact Query.output?_lower (q := main) (s := body) hdecl hjoins hbody
  | .step source stage, s, hdecl, hjoins, h => by
    cases hdeclared : stage.declared? with
    | some declared =>
      simp only [Query.declaration?, hdeclared, Option.some.injEq, Prod.mk.injEq] at hdecl
      obtain ⟨rfl, rfl⟩ := hdecl
      exact Stage.output?_lower_of_declared hdeclared h
    | none =>
      simp only [Query.declaration?, hdeclared] at hdecl
      simp only [Query.joinsShape, hdeclared, Option.isNone_none, Bool.true_and,
        Bool.or_eq_false_iff, decide_eq_false_iff_not] at hjoins
      obtain ⟨s₀, hs₀, houtput⟩ := Stage.output?_lower hdeclared hjoins.1 h
      rw [houtput]
      exact Query.output?_lower hdecl hjoins.2 hs₀
termination_by structural q => q

end Lowering

section Names

/-- The expression gives its output column a name of its own. -/
def Expr.isNamed : Expr → Bool
  | .column .. | .placeholder _ | .call .. | .window .. => true
  | _ => false

/-- The item has a name, or its expression has one to give. -/
def SelectItem.isNamed (item : SelectItem) : Bool := item.name.isSome || item.expr.isNamed

/-- Qualifying keeps the output name of an expression that has one. -/
theorem Expr.outputName_qualify (table : String) {e : Expr} (h : (e.qualify table).isNamed = true) :
    (e.qualify table).outputName = e.outputName := by
  cases e with
  | column | placeholder | call | window => rfl
  | _ => cases h

/-- Resolving an expression does not change the name that it gives. -/
theorem Expr.outputName_resolve {scope : Scope} {e e' : Expr} (h : e.resolve scope = .ok e')
    (hnamed : e'.isNamed = true) : e'.outputName = e.outputName := by
  rcases Expr.resolve_eq_ok.mp h with ⟨table, -, rfl⟩ | ⟨reason, -, -, rfl⟩
  · exact Expr.outputName_qualify table hnamed
  · rfl

/-- Items that name their output keep the name when they are resolved. -/
theorem Scope.outputName_resolveItems {scope : Scope} {items items' : List SelectItem}
    (h : scope.resolveItems items = .ok items') :
    List.Forall₂ (fun item item' => item'.isNamed = true → item'.outputName = item.outputName)
      items items' := by
  refine (mapM_eq_ok.mp h).imp ?_
  rintro ⟨e, name⟩ item' hitem hnamed
  simp only [bind_eq_ok, pure_eq_ok] at hitem
  obtain ⟨e', he', rfl⟩ := hitem
  cases name with
  | some name => rfl
  | none => exact Expr.outputName_resolve he' hnamed

/-- A stage that declares no items keeps the shape of the rows. -/
theorem Query.shape_step {stage : Stage} (h : stage.declared? = none) (source : Query) :
    (Query.step source stage).shape = source.shape := by
  cases stage with
  | select | returning => cases h
  | _ => rfl

/-- Where a built query has a row for its shape, there are items that declare it. -/
theorem Query.Built.declaration?_of_shape {q : Query} (hbuilt : q.Built) {name : Option String}
    {fields : List String} (hshape : q.shape = .row name fields) :
    ∃ scope items, q.declaration? = some (scope, items) ∧
      fields = items.map SelectItem.outputName := by
  induction hbuilt with
  | table | insertInto | update | deleteFrom => cases hshape
  | setOperation op all _ _ ihleft _ => exact ihleft hshape
  | withCtes recursive _ _ _ ihmain => exact ihmain hshape
  | select _ items _ _ =>
    cases hshape
    exact ⟨_, items, rfl, rfl⟩
  | returning _ items _ =>
    cases hshape
    exact ⟨_, items, rfl, rfl⟩
  | step _ hstage ih =>
    rw [Query.shape_step hstage] at hshape
    obtain ⟨scope, items, hdecl, hfields⟩ := ih hshape
    exact ⟨scope, items, by simpa [Query.declaration?, hstage] using hdecl, hfields⟩

end Names

/-- A built query whose shape is a row, with nothing joined above the stage that declares it, is
lowered to a statement that puts out the items of that stage, resolved: as many as the row has
fields, and in their order under their names, as far as an item has a name or gives one. -/
theorem output?_of_shape {d : Dialect} {q : Query} {s : Statement} {name : Option String}
    {fields : List String} (hbuilt : q.Built) (hshape : q.shape = .row name fields)
    (hjoins : q.joinsShape = false) (hs : q.lower d = .ok s) :
    ∃ scope items items', q.declaration? = some (scope, items) ∧
      scope.resolveItems items = .ok items' ∧ s.output? = some items' ∧
      items'.length = fields.length ∧
      List.Forall₂ (fun field item => item.isNamed = true → item.outputName = field)
        fields items' := by
  obtain ⟨scope, items, hdecl, rfl⟩ := hbuilt.declaration?_of_shape hshape
  obtain ⟨items', hitems, houtput⟩ := Query.output?_lower hdecl hjoins hs
  have hnames := Scope.outputName_resolveItems hitems
  refine ⟨scope, items, items', hdecl, hitems, houtput, ?_, ?_⟩
  · rw [List.length_map, hnames.length_eq]
  · exact List.forall₂_map_left_iff.mpr hnames

/-- Items with a field, a call, a name of their own and a sum. -/
def SelectItem.sample : List SelectItem :=
  [⟨.placeholder "id", none⟩, ⟨.call "COUNT" [.wildcard] false, none⟩,
    ⟨.placeholder "total", some "sum"⟩, ⟨.binary .plus (.placeholder "a") (.placeholder "b"), none⟩]

/-- The items under a filter, a page, a set operation, a WITH and an order. -/
def Query.stacked : Query :=
  (Query.withCtes false [⟨"old", [], .table "log"⟩]
    (.setOperation .union true
      ((((Query.table "sales").select SelectItem.sample (some "Sale")).filter
        (.literal (.bool true))).limit (.literal (.int 3)))
      (.table "old"))).orderBy [⟨.column none "id", .desc, none⟩]

/-- The declared fields reach the output through all the stages upon them. -/
theorem output?_of_shape_stacked : ∃ s items,
    Query.stacked.shape = .row (some "Sale") ["id", "count", "sum", "(_.a + _.b)"] ∧
    Query.stacked.lower Profile.postgres.dialect = .ok s ∧ s.output? = some items ∧
    items.length = 4 ∧
    List.Forall₂ (fun field item => item.isNamed = true → item.outputName = field)
      ["id", "count", "sum", "(_.a + _.b)"] items := by
  have hbuilt : Query.stacked.Built :=
    .step (.withCtes false (List.forall_mem_singleton.mpr (.table "log"))
      (.setOperation .union true (.step (.step (.select (.table "sales") _ _) rfl) rfl)
        (.table "old"))) rfl
  have hlower : Query.stacked.lower Profile.postgres.dialect = .ok _ := rfl
  have hshape : Query.stacked.shape =
      .row (some "Sale") ["id", "count", "sum", "(_.a + _.b)"] := by decide
  obtain ⟨-, -, items, -, -, houtput, hlength, hnames⟩ :=
    output?_of_shape hbuilt hshape rfl hlower
  exact ⟨_, items, hshape, hlower, houtput, hlength, hnames⟩

end SqlAlgebra
