import SqlAlgebra.Proofs.Validity

/-!
# A query compiles exactly if it is valid

Lowering checks some of the conditions of a query, resolving its expressions checks others, and
writing the rest; the queries in expressions are not looked at before writing comes to them. Taken
together they check all conditions and no others.
-/

namespace SqlAlgebra

/-- A list is nested as deeply as the deepest of its expressions. -/
theorem Expr.depthAll_le {es : List Expr} {k : Nat} :
    Expr.depthAll es ≤ k ↔ ∀ e ∈ es, e.depth ≤ k := by
  induction es with
  | nil => simp [Expr.depthAll]
  | cons e es ih => simp [Expr.depthAll, ih]

/-- Rows are nested as deeply as the deepest of their values. -/
theorem Expr.depthRows_le {rows : List (List Expr)} {k : Nat} :
    Expr.depthRows rows ≤ k ↔ ∀ e ∈ rows.flatten, e.depth ≤ k := by
  induction rows with
  | nil => simp [Expr.depthRows]
  | cons row rows ih =>
    rw [Expr.depthRows, max_le_iff, ih, Expr.depthAll_le, List.flatten_cons, List.forall_mem_append]

/-- Order keys are nested as deeply as the deepest of their expressions. -/
theorem OrderKey.depthAll_le {keys : List OrderKey} {k : Nat} :
    OrderKey.depthAll keys ≤ k ↔ ∀ key ∈ keys, key.expr.depth ≤ k := by
  induction keys with
  | nil => simp [OrderKey.depthAll]
  | cons key keys ih =>
    obtain ⟨e, direction, nulls⟩ := key
    simp [OrderKey.depthAll, ih]

/-- Projected items are nested as deeply as the deepest of their expressions. -/
theorem SelectItem.depthAll_le {items : List SelectItem} {k : Nat} :
    SelectItem.depthAll items ≤ k ↔ ∀ item ∈ items, item.expr.depth ≤ k := by
  induction items with
  | nil => simp [SelectItem.depthAll]
  | cons item items ih =>
    obtain ⟨e, name⟩ := item
    simp [SelectItem.depthAll, ih]

/-- Assignments are nested as deeply as the deepest of their values. -/
theorem Assignment.depthAll_le {assignments : List Assignment} {k : Nat} :
    Assignment.depthAll assignments ≤ k ↔ ∀ a ∈ assignments, a.value.depth ≤ k := by
  induction assignments with
  | nil => simp [Assignment.depthAll]
  | cons a assignments ih =>
    obtain ⟨column, e⟩ := a
    simp [Assignment.depthAll, ih]

/-- Queries that are nested less than `k` deep are written exactly if they are valid. -/
def WritesBelow (d : Dialect) (nested : Query → Rendered) (k : Nat) : Prop :=
  ∀ q : Query, q.depth < k → (Succeeds (nested q) ↔ q.ValidRows d)

namespace WritesBelow

variable {d : Dialect} {nested : Query → Rendered} {k : Nat} {scope : Scope}

/-- An expression can be resolved and written exactly if its nodes are allowed, provided that this
holds of the queries inside it. -/
theorem expr (h : WritesBelow d nested k) {e : Expr} (he : e.depth ≤ k) :
    (∃ x, e.resolve scope = .ok x ∧ x.Writable d nested) ↔ ∀ n ∈ e.nodes scope, n.Allowed d := by
  refine Expr.resolves_writable_iff fun q hq => h q ?_
  have hdepth := Expr.depth_queries e q hq
  omega

/-- The same for a list whose parts each hold an expression. -/
theorem mapM (h : WritesBelow d nested k) {α : Type} (expr : α → Expr)
    {f : α → Except CompileError α}
    (hf : ∀ a (P : Expr → Prop),
      (∃ b, f a = .ok b ∧ P (expr b)) ↔ ∃ x, (expr a).resolve scope = .ok x ∧ P x)
    {as : List α} (has : ∀ a ∈ as, (expr a).depth ≤ k) :
    (∃ bs, as.mapM f = .ok bs ∧ ∀ x ∈ bs.map expr, x.Writable d nested) ↔
      ∀ n ∈ Expr.nodesAll scope (as.map expr), n.Allowed d := by
  simp only [List.forall_mem_map, exists_mapM_eq_ok, hf]
  constructor
  · intro hmem n hn
    obtain ⟨e, he, hn⟩ := Expr.mem_nodesAll.mp hn
    obtain ⟨a, ha, rfl⟩ := List.mem_map.mp he
    exact (h.expr (has a ha)).mp (hmem a ha) n hn
  · intro hnodes a ha
    refine (h.expr (has a ha)).mpr fun n hn => hnodes n ?_
    exact Expr.mem_nodesAll.mpr ⟨expr a, List.mem_map_of_mem ha, hn⟩

/-- A list can be resolved and written exactly if its nodes are allowed. -/
theorem resolveAll (h : WritesBelow d nested k) {es : List Expr} (hes : ∀ e ∈ es, e.depth ≤ k) :
    (∃ xs, scope.resolveAll es = .ok xs ∧ ∀ x ∈ xs, x.Writable d nested) ↔
      ∀ n ∈ Expr.nodesAll scope es, n.Allowed d := by
  have hmap := h.mapM id (f := Expr.resolve scope) (fun _ _ => Iff.rfl) hes
  simp only [List.map_id] at hmap
  exact hmap

/-- An expression that may be missing can be resolved and written exactly if its nodes are
allowed. -/
theorem resolveOption (h : WritesBelow d nested k) {e : Option Expr}
    (he : Expr.depthOption e ≤ k) :
    (∃ e', scope.resolveOption e = .ok e' ∧ ∀ x ∈ e'.toList, x.Writable d nested) ↔
      ∀ n ∈ Expr.nodesOption scope e, n.Allowed d := by
  cases e with
  | none => simp [Scope.resolveOption, Expr.nodesOption]
  | some e =>
    rw [Scope.resolveOption, exists_bind_pure_eq_ok]
    simpa [Expr.nodesOption] using h.expr he

/-- Projected items can be resolved and written exactly if their nodes are allowed. -/
theorem resolveItems (h : WritesBelow d nested k) {items : List SelectItem}
    (hitems : SelectItem.depthAll items ≤ k) :
    (∃ items', scope.resolveItems items = .ok items' ∧
        ∀ x ∈ items'.map (·.expr), x.Writable d nested) ↔
      ∀ n ∈ SelectItem.nodesAll scope items, n.Allowed d := by
  rw [SelectItem.nodesAll_eq]
  exact h.mapM SelectItem.expr (fun _ _ => exists_bind_pure_eq_ok)
    (SelectItem.depthAll_le.mp hitems)

/-- Order keys can be resolved and written exactly if their nodes are allowed. -/
theorem resolveKeys (h : WritesBelow d nested k) {keys : List OrderKey}
    (hkeys : OrderKey.depthAll keys ≤ k) :
    (∃ keys', scope.resolveKeys keys = .ok keys' ∧
        ∀ x ∈ keys'.map (·.expr), x.Writable d nested) ↔
      ∀ n ∈ OrderKey.nodesAll scope keys, n.Allowed d := by
  rw [OrderKey.nodesAll_eq]
  exact h.mapM OrderKey.expr (fun _ _ => exists_bind_pure_eq_ok) (OrderKey.depthAll_le.mp hkeys)

/-- Assignments can be resolved and written exactly if their nodes are allowed. -/
theorem resolveAssignments (h : WritesBelow d nested k) {assignments : List Assignment}
    (hassignments : Assignment.depthAll assignments ≤ k) :
    (∃ assignments', scope.resolveAssignments assignments = .ok assignments' ∧
        ∀ x ∈ assignments'.map (·.value), x.Writable d nested) ↔
      ∀ n ∈ Assignment.nodesAll scope assignments, n.Allowed d := by
  rw [Assignment.nodesAll_eq]
  exact h.mapM Assignment.value (fun _ _ => exists_bind_pure_eq_ok)
    (Assignment.depthAll_le.mp hassignments)

/-- Rows can be resolved and written exactly if their nodes are allowed. -/
theorem resolveRows (h : WritesBelow d nested k) {rows : List (List Expr)}
    (hrows : Expr.depthRows rows ≤ k) :
    (∃ rows', scope.resolveRows rows = .ok rows' ∧ ∀ x ∈ rows'.flatten, x.Writable d nested) ↔
      ∀ n ∈ Expr.nodesRows scope rows, n.Allowed d := by
  rw [Expr.depthRows_le] at hrows
  simp only [Scope.resolveRows, List.forall_mem_flatten, exists_mapM_eq_ok]
  induction rows with
  | nil => simp [Expr.nodesRows]
  | cons row rows ih =>
    rw [List.flatten_cons, List.forall_mem_append] at hrows
    rw [List.forall_mem_cons, Expr.nodesRows, List.forall_mem_append, h.resolveAll hrows.1,
      ih hrows.2]

/-- A rule upon a conflict can be resolved and written exactly if the dialect has such rules and
allows this one, and its nodes are allowed. -/
theorem resolveAction (h : WritesBelow d nested k) {target : List String} {action : ConflictAction}
    (haction : action.depth ≤ k) :
    (∃ action', action.resolve scope = .ok action' ∧
        Upsert.Writable d nested (some ⟨target, action'⟩)) ↔
      (d.upsert ≠ none ∧ action.Allowed d target) ∧ ∀ n ∈ action.nodes scope, n.Allowed d := by
  cases action with
  | doNothing =>
    simp [ConflictAction.resolve, Upsert.Writable, ConflictAction.Allowed, ConflictAction.nodes,
      ConflictAction.exprs]
  | doUpdate assignments =>
    cases assignments with
    | nil => simp [ConflictAction.resolve, ConflictAction.Allowed]
    | cons a assignments =>
      have haction : Assignment.depthAll (a :: assignments) ≤ k := haction
      rw [ConflictAction.resolve, if_neg (by simp), exists_bind_pure_eq_ok, ConflictAction.nodes,
        ← h.resolveAssignments haction]
      constructor
      · rintro ⟨assignments', hassignments, hspelling, hexprs, htarget⟩
        exact ⟨⟨hspelling, by simp, fun hd => htarget hd (by simp)⟩, assignments', hassignments,
          hexprs⟩
      · rintro ⟨⟨hspelling, -, htarget⟩, assignments', hassignments, hexprs⟩
        exact ⟨assignments', hassignments, hspelling, hexprs, fun hd _ => htarget hd⟩

end WritesBelow

/-- A join is accepted if it has a condition exactly where it needs one and the dialect has joins of
its kind. -/
theorem JoinKind.check_eq_ok {d : Dialect} {kind : JoinKind} {condition : Option Expr} :
    kind.check d condition = .ok () ↔
      (kind = .cross ↔ condition = none) ∧ d.supportsJoin kind = true := by
  by_cases hkind : kind = .cross <;> cases condition <;> cases hjoin : d.supportsJoin kind <;>
    simp_all [JoinKind.check]

/-- Rows fit if all are as long as the columns or, where none are named, as the first row. -/
theorem rowsFit_cons {columns : List String} {first : List Expr} {rows : List (List Expr)} :
    RowsFit columns (first :: rows) ↔ ∀ row ∈ first :: rows,
      row.length = if columns.isEmpty then first.length else columns.length := by
  cases columns with
  | cons column columns => simp [RowsFit]
  | nil =>
    simp only [RowsFit, if_true, List.isEmpty_nil]
    constructor
    · rintro ⟨-, h⟩ row hrow
      exact h row hrow first List.mem_cons_self
    · intro h
      refine ⟨List.cons_ne_nil _ _, fun row hrow row' hrow' => ?_⟩
      rw [h row hrow, h row' hrow']

/-- The check of the rows of an INSERT accepts those that fit. -/
theorem Insert.checkRows_eq_ok {i : Insert} {rows : List (List Expr)} :
    i.checkRows rows = .ok () ↔ RowsFit i.columns rows := by
  cases rows with
  | nil => simp [Insert.checkRows, RowsFit]
  | cons first rows =>
    rw [rowsFit_cons]
    unfold Insert.checkRows
    dsimp only
    split
    · rename_i row hrow
      have hmem := List.mem_of_find?_eq_some hrow
      have hlength := List.find?_some hrow
      simp only [bne_iff_ne, ne_eq] at hlength
      simp only [reduceCtorEq, false_iff]
      exact fun h => hlength (h row hmem)
    · rename_i hnone
      simpa using hnone

/-- The queries that a stage holds directly. -/
def Stage.bodies : Stage → List Query
  | .join (.lateral body _) _ _ => [body]
  | .insertSelect rows => [rows]
  | _ => []

/-- The query is lowered to rows that can be written exactly if it is valid. -/
def Query.RowsWritable (d : Dialect) (nested : Query → Rendered) (q : Query) : Prop :=
  (∃ s, q.lowerRows d = .ok s ∧ Succeeds (s.render d nested)) ↔ q.ValidRows d

section Stages

variable {d : Dialect} {nested : Query → Rendered} {k : Nat} {scope : Scope}

/-- What is joined can be lowered and written exactly if the dialect has lateral joins where it
needs them and its nodes are allowed. -/
theorem JoinTarget.lower_writable {target : JoinTarget Query} {condition : Option Expr}
    {kind : JoinKind}
    (hbodies : ∀ q ∈ (Stage.join target condition kind).bodies, q.RowsWritable d nested) :
    (∃ target', JoinTarget.lower d target = .ok target' ∧
        Succeeds (JoinTarget.render d nested target')) ↔
      (target.IsLateral → d.supports .lateral = true) ∧
        ∀ n ∈ JoinTarget.nodes target, n.Allowed d := by
  cases target with
  | table name =>
    simp [JoinTarget.lower, JoinTarget.render, JoinTarget.nodes, JoinTarget.IsLateral]
  | lateral body name =>
    have hbody := hbodies body (by simp [Stage.bodies])
    have hlateral : (JoinTarget.lateral body name).IsLateral := ⟨body, name, rfl⟩
    rw [Query.RowsWritable] at hbody
    rw [JoinTarget.nodes, ← Query.ValidRows, ← hbody]
    constructor
    · rintro ⟨target', htarget, hwritten⟩
      obtain ⟨hd, body', hbody', rfl⟩ := JoinTarget.lower_lateral.mp htarget
      refine ⟨fun _ => hd, body', hbody', ?_⟩
      simpa [JoinTarget.render] using hwritten
    · rintro ⟨hd, body', hbody', hwritten⟩
      refine ⟨_, JoinTarget.lower_lateral.mpr ⟨hd hlateral, body', hbody', rfl⟩, ?_⟩
      simpa [JoinTarget.render] using hwritten

/-- What a stage on rows adds is found and can be written exactly if the stage meets its
conditions. -/
theorem Stage.addition_writable (h : WritesBelow d nested k) {stage : Stage} (base : Query)
    (hrow : stage.kind.isRowStage = true) (hdepth : stage.depth ≤ k)
    (hbodies : ∀ q ∈ stage.bodies, q.RowsWritable d nested) :
    (∃ a, stage.addition d scope = .ok a ∧ ∀ b ∈ a, b.Writable d nested) ↔
      stage.Allowed d base ∧ ∀ n ∈ stage.nodes scope, n.Allowed d := by
  cases stage with
  | filter e | having e | limit e | offset e =>
    have hdepth : e.depth ≤ k := hdepth
    simp only [Stage.addition, exists_bind_pure_eq_ok, Option.mem_some_iff, forall_eq',
      Addition.Writable, Stage.Allowed, true_and, Stage.nodes, h.expr hdepth]
  | distinct => simp [Stage.addition, Stage.Allowed, Stage.nodes, Addition.Writable, pure_eq_ok]
  | select shape items =>
    cases items with
    | nil => simp [Stage.addition, Stage.Allowed]
    | cons item items =>
      have hdepth : SelectItem.depthAll (item :: items) ≤ k := hdepth
      simp only [Stage.addition, List.isEmpty_cons, Bool.false_eq_true, if_false,
        exists_bind_pure_eq_ok, Option.mem_some_iff, forall_eq', Addition.Writable, Stage.nodes,
        h.resolveItems hdepth, Stage.Allowed]
      simp
  | orderBy keys =>
    cases keys with
    | nil => simp [Stage.addition, Stage.Allowed]
    | cons key keys =>
      have hdepth : OrderKey.depthAll (key :: keys) ≤ k := hdepth
      simp only [Stage.addition, List.isEmpty_cons, Bool.false_eq_true, if_false,
        exists_bind_pure_eq_ok, Option.mem_some_iff, forall_eq', Addition.Writable, Stage.nodes,
        h.resolveKeys hdepth, Stage.Allowed]
      simp
  | groupBy keys =>
    cases keys with
    | nil => simp [Stage.addition, Stage.Allowed, Stage.nodes, Expr.nodesAll, pure_eq_ok]
    | cons key keys =>
      have hdepth : Expr.depthAll (key :: keys) ≤ k := hdepth
      simp only [Stage.addition, exists_bind_pure_eq_ok, Option.mem_some_iff, forall_eq',
        Addition.Writable, Stage.nodes, h.resolveAll (Expr.depthAll_le.mp hdepth), Stage.Allowed,
        true_and]
  | join target condition kind =>
    have hdepth : JoinTarget.depth target ≤ k ∧ Expr.depthOption condition ≤ k :=
      max_le_iff.mp hdepth
    rw [Stage.nodes, List.forall_mem_append, ← h.resolveOption hdepth.2]
    constructor
    · rintro ⟨a, ha, hwritten⟩
      simp only [Stage.addition, bind_eq_ok, pure_eq_ok] at ha
      obtain ⟨_, hcheck, condition', hcondition, target', htarget, rfl⟩ := ha
      have hparts := Join.succeeds_renderAll_cons.mp (hwritten _ rfl)
      have hkind := JoinKind.check_eq_ok.mp hcheck
      have hlateral := (JoinTarget.lower_writable hbodies).mp ⟨target', htarget, hparts.1⟩
      exact ⟨⟨hkind.1, hkind.2, hlateral.1⟩, hlateral.2, condition', hcondition, hparts.2.1⟩
    · rintro ⟨⟨hcross, hsupport, hlateral⟩, hnodes, condition', hcondition, hwritten⟩
      obtain ⟨target', htarget, hbody⟩ := (JoinTarget.lower_writable hbodies).mpr ⟨hlateral, hnodes⟩
      refine ⟨some (.join ⟨kind, target', condition'⟩), ?_, ?_⟩
      · simp only [Stage.addition, JoinKind.check_eq_ok.mpr ⟨hcross, hsupport⟩, hcondition, htarget]
        rfl
      · rintro _ ⟨⟩
        exact Join.succeeds_renderAll_cons.mpr ⟨hbody, hwritten, succeeds_ok _⟩
  | values | insertSelect | onConflict | set | updateWhere | deleteWhere | returning =>
    cases hrow

end Stages

/-- Row stages follow rows, and nothing else. -/
theorem Form.advance_rowStage {f : Form} {kind : QueryKind} (hkind : kind.isRowStage = true) :
    (f.advance kind).isSome = true ↔ f = .rows := by
  revert hkind
  fun_cases Form.advance f kind <;> simp_all [QueryKind.isRowStage]

namespace Statement

variable {s : Statement}

/-- Rows are given to an INSERT that has none and returns nothing yet. -/
theorem advance_source {kind : QueryKind} (hkind : kind = .values ∨ kind = .insertSelect) :
    (s.form.advance kind).isSome = true ↔
      ∃ i, s = .insert i ∧ i.returning = none ∧ i.source = none := by
  cases s with
  | insert i =>
    obtain ⟨name, columns, source, upsert, returning⟩ := i
    rcases hkind with rfl | rfl <;> cases source <;> cases upsert <;> cases returning <;>
      simp [form, Form.advance]
  | _ => rcases hkind with rfl | rfl <;> simp [form, Form.advance, QueryKind.isRowStage]

/-- A rule upon a conflict is given to an INSERT that has rows but no such rule, and returns nothing
yet. -/
theorem advance_onConflict :
    (s.form.advance .onConflict).isSome = true ↔
      ∃ i, s = .insert i ∧ i.returning = none ∧ i.source.isSome = true ∧ i.upsert = none := by
  cases s with
  | insert i =>
    obtain ⟨name, columns, source, upsert, returning⟩ := i
    cases source <;> cases upsert <;> cases returning <;> simp [form, Form.advance]
  | _ => simp [form, Form.advance, QueryKind.isRowStage]

/-- Assignments are given to an UPDATE that has no conditions and returns nothing yet. -/
theorem advance_set :
    (s.form.advance .set).isSome = true ↔
      ∃ u, s = .update u ∧ u.returning = none ∧ u.filters = [] := by
  cases s with
  | update u =>
    obtain ⟨name, assignments, filters, returning⟩ := u
    cases assignments <;> cases filters <;> cases returning <;> simp [form, Form.advance]
  | _ => simp [form, Form.advance, QueryKind.isRowStage]

/-- A condition is given to an UPDATE that returns nothing yet. -/
theorem advance_updateWhere :
    (s.form.advance .updateWhere).isSome = true ↔ ∃ u, s = .update u ∧ u.returning = none := by
  cases s with
  | update u =>
    obtain ⟨name, assignments, filters, returning⟩ := u
    cases assignments <;> cases filters <;> cases returning <;> simp [form, Form.advance]
  | _ => simp [form, Form.advance, QueryKind.isRowStage]

/-- A condition is given to a DELETE that returns nothing yet. -/
theorem advance_deleteWhere :
    (s.form.advance .deleteWhere).isSome = true ↔ ∃ x, s = .delete x ∧ x.returning = none := by
  cases s with
  | delete x =>
    obtain ⟨name, filters, returning⟩ := x
    cases returning <;> simp [form, Form.advance]
  | _ => simp [form, Form.advance, QueryKind.isRowStage]

/-- What is to be returned is given to a modification that returns nothing yet. -/
theorem advance_returning :
    (s.form.advance .returning).isSome = true ↔
      (∃ i, s = .insert i ∧ i.returning = none) ∨ (∃ u, s = .update u ∧ u.returning = none) ∨
        ∃ x, s = .delete x ∧ x.returning = none := by
  cases s with
  | insert i =>
    obtain ⟨name, columns, source, upsert, returning⟩ := i
    cases source <;> cases upsert <;> cases returning <;> simp [form, Form.advance]
  | update u =>
    obtain ⟨name, assignments, filters, returning⟩ := u
    cases assignments <;> cases filters <;> cases returning <;> simp [form, Form.advance]
  | delete x =>
    obtain ⟨name, filters, returning⟩ := x
    cases returning <;> simp [form, Form.advance]
  | _ => simp [form, Form.advance, QueryKind.isRowStage]

/-- A modification without items to return can be written with them exactly if both can be. -/
theorem writable_addReturning {items : List SelectItem} {kind : QueryKind} {s' : Statement}
    {nested : Query → Rendered} {d : Dialect} (h : s.addReturning items kind = .ok s') :
    s'.Writable d nested ↔
      s.Writable d nested ∧ ∀ e ∈ items.map (·.expr), e.Writable d nested := by
  rcases Statement.addReturning_eq_ok.mp h with
    ⟨i, rfl, hr, rfl⟩ | ⟨u, rfl, hr, rfl⟩ | ⟨x, rfl, hr, rfl⟩
  · simp only [Statement.Writable, Insert.Writable, hr, SelectItem.exprs]
    tauto
  · simp only [Statement.Writable, Update.exprs, hr, SelectItem.exprs, List.forall_mem_append]
    tauto
  · simp only [Statement.Writable, Delete.exprs, hr, SelectItem.exprs, List.forall_mem_append]
    tauto

end Statement

section Stages

variable {d : Dialect} {nested : Query → Rendered} {k : Nat} {scope : Scope} {source : Source}

/-- The source of a stage is lowered, can be written so far, and takes a stage of the kind. -/
def Source.Takes (d : Dialect) (nested : Query → Rendered) (source : Source) (kind : QueryKind) :
    Prop :=
  ∃ s, source.statement = .ok s ∧ s.Writable d nested ∧ (s.form.advance kind).isSome = true

/-- A stage that inserts rows can be lowered and written exactly if it has its place, the rows fit
and their nodes are allowed. -/
theorem Stage.lower_values_writable (h : WritesBelow d nested k) {rows : List (List Expr)}
    {base : Query} (hdepth : Expr.depthRows rows ≤ k)
    (hcolumns : ∀ i, source.statement = .ok (.insert i) → base.columns = i.columns) :
    (∃ s, (Stage.values rows).lower d scope source = .ok s ∧ s.Writable d nested) ↔
      source.Takes d nested .values ∧ RowsFit base.columns rows ∧
        ∀ n ∈ Expr.nodesRows scope rows, n.Allowed d := by
  simp only [Stage.lower_values, Source.Takes, Statement.advance_source (.inl rfl),
    ← h.resolveRows hdepth]
  constructor
  · rintro ⟨_, ⟨i, rows', hi, hr, hsource, hcheck, hrows, rfl⟩, hwritten, hupsert, hreturning⟩
    refine ⟨⟨_, hi, ⟨by simp [hsource], hupsert, hreturning⟩, i, rfl, hr, hsource⟩, ?_, rows',
      hrows, ?_⟩
    · rw [hcolumns i hi]
      exact Insert.checkRows_eq_ok.mp hcheck
    · simpa [InsertSource.render, Expr.succeeds_renderRows] using hwritten
  · rintro ⟨⟨_, hi, hsofar, i, rfl, hr, hsource⟩, hfit, rows', hrows, hwritten⟩
    obtain ⟨-, hupsert, hreturning⟩ := hsofar
    rw [hcolumns i hi] at hfit
    refine ⟨_, ⟨i, rows', hi, hr, hsource, Insert.checkRows_eq_ok.mpr hfit, hrows, rfl⟩, ?_,
      hupsert, hreturning⟩
    simpa [InsertSource.render, Expr.succeeds_renderRows] using hwritten

/-- A stage that inserts the rows of a query can be lowered and written exactly if it has its place
and the query is valid. -/
theorem Stage.lower_insertSelect_writable {rows : Query} (hrows : rows.RowsWritable d nested) :
    (∃ s, (Stage.insertSelect rows).lower d scope source = .ok s ∧ s.Writable d nested) ↔
      source.Takes d nested .insertSelect ∧ rows.ValidRows d := by
  simp only [Stage.lower_insertSelect, Source.Takes, Statement.advance_source (.inr rfl)]
  rw [Query.RowsWritable] at hrows
  rw [← hrows]
  constructor
  · rintro ⟨_, ⟨i, body, hi, hr, hsource, hbody, rfl⟩, hwritten, hupsert, hreturning⟩
    refine ⟨⟨_, hi, ⟨by simp [hsource], hupsert, hreturning⟩, i, rfl, hr, hsource⟩, body, hbody, ?_⟩
    simpa [InsertSource.render] using hwritten
  · rintro ⟨⟨_, hi, hsofar, i, rfl, hr, hsource⟩, body, hbody, hwritten⟩
    obtain ⟨-, hupsert, hreturning⟩ := hsofar
    refine ⟨_, ⟨i, body, hi, hr, hsource, hbody, rfl⟩, ?_, hupsert, hreturning⟩
    simpa [InsertSource.render] using hwritten

/-- A rule upon a conflict can be lowered and written exactly if it has its place, the dialect
allows it and its nodes are allowed. -/
theorem Stage.lower_onConflict_writable (h : WritesBelow d nested k) {target : List String}
    {action : ConflictAction} (hdepth : action.depth ≤ k) :
    (∃ s, (Stage.onConflict target action).lower d scope source = .ok s ∧
        s.Writable d nested) ↔
      source.Takes d nested .onConflict ∧
        (d.supports .upsert = true ∧ d.upsert ≠ none ∧ action.Allowed d target) ∧
        ∀ n ∈ action.nodes scope, n.Allowed d := by
  simp only [Stage.lower_onConflict, Source.Takes, Statement.advance_onConflict]
  constructor
  · rintro ⟨_, ⟨hd, i, action', hi, hr, hsource, hupsert, haction, rfl⟩, hwritten⟩
    obtain ⟨hrows, hwritten, hreturning⟩ := Insert.writable_guardJoin.mp hwritten
    have hallowed := (h.resolveAction hdepth).mp ⟨action', haction, hwritten⟩
    refine ⟨⟨_, hi, ⟨hrows, ?_, hreturning⟩, i, rfl, hr, hsource, hupsert⟩, ⟨hd, hallowed.1⟩,
      hallowed.2⟩
    rw [hupsert]
    trivial
  · rintro ⟨⟨_, hi, hsofar, i, rfl, hr, hsource, hupsert⟩, ⟨hd, hallowed⟩, hn⟩
    obtain ⟨hrows, -, hreturning⟩ := hsofar
    obtain ⟨action', haction, hwritten⟩ := (h.resolveAction hdepth).mpr ⟨hallowed, hn⟩
    refine ⟨_, ⟨hd, i, action', hi, hr, hsource, hupsert, haction, rfl⟩, ?_⟩
    exact Insert.writable_guardJoin.mpr ⟨hrows, hwritten, hreturning⟩

/-- A stage that assigns can be lowered and written exactly if it has its place, assigns something
and its nodes are allowed. -/
theorem Stage.lower_set_writable (h : WritesBelow d nested k) {assignments : List Assignment}
    (hdepth : Assignment.depthAll assignments ≤ k) :
    (∃ s, (Stage.set assignments).lower d scope source = .ok s ∧ s.Writable d nested) ↔
      source.Takes d nested .set ∧ assignments ≠ [] ∧
        ∀ n ∈ Assignment.nodesAll scope assignments, n.Allowed d := by
  simp only [Stage.lower_set, Source.Takes, Statement.advance_set, ← h.resolveAssignments hdepth]
  constructor
  · rintro ⟨_, ⟨hne, u, assignments', hu, hr, hfilters, hassignments, rfl⟩, hwritten⟩
    simp only [Statement.Writable, Update.exprs, List.map_append, List.forall_mem_append]
      at hwritten
    refine ⟨⟨_, hu, ?_, u, rfl, hr, hfilters⟩, hne, assignments', hassignments, hwritten.1.1.2⟩
    simp only [Statement.Writable, Update.exprs, List.forall_mem_append]
    exact ⟨⟨hwritten.1.1.1, hwritten.1.2⟩, hwritten.2⟩
  · rintro ⟨⟨_, hu, hsofar, u, rfl, hr, hfilters⟩, hne, assignments', hassignments, hwritten⟩
    simp only [Statement.Writable, Update.exprs, List.forall_mem_append] at hsofar
    refine ⟨_, ⟨hne, u, assignments', hu, hr, hfilters, hassignments, rfl⟩, ?_⟩
    simp only [Statement.Writable, Update.exprs, List.map_append, List.forall_mem_append]
    exact ⟨⟨⟨hsofar.1.1, hwritten⟩, hsofar.1.2⟩, hsofar.2⟩

/-- The condition of an UPDATE can be lowered and written exactly if it has its place and its nodes
are allowed. -/
theorem Stage.lower_updateWhere_writable (h : WritesBelow d nested k) {e : Expr}
    (hdepth : e.depth ≤ k) :
    (∃ s, (Stage.updateWhere e).lower d scope source = .ok s ∧ s.Writable d nested) ↔
      source.Takes d nested .updateWhere ∧ ∀ n ∈ e.nodes scope, n.Allowed d := by
  simp only [Stage.lower_updateWhere, Source.Takes, Statement.advance_updateWhere, ← h.expr hdepth]
  constructor
  · rintro ⟨_, ⟨u, e', hu, hr, he, rfl⟩, hwritten⟩
    simp only [Statement.Writable, Update.exprs, List.forall_mem_append,
      List.forall_mem_singleton] at hwritten
    refine ⟨⟨_, hu, ?_, u, rfl, hr⟩, e', he, hwritten.1.2.2⟩
    simp only [Statement.Writable, Update.exprs, List.forall_mem_append]
    exact ⟨⟨hwritten.1.1, hwritten.1.2.1⟩, hwritten.2⟩
  · rintro ⟨⟨_, hu, hsofar, u, rfl, hr⟩, e', he, hwritten⟩
    simp only [Statement.Writable, Update.exprs, List.forall_mem_append] at hsofar
    refine ⟨_, ⟨u, e', hu, hr, he, rfl⟩, ?_⟩
    simp only [Statement.Writable, Update.exprs, List.forall_mem_append, List.forall_mem_singleton]
    exact ⟨⟨hsofar.1.1, hsofar.1.2, hwritten⟩, hsofar.2⟩

/-- The condition of a DELETE can be lowered and written exactly if it has its place and its nodes
are allowed. -/
theorem Stage.lower_deleteWhere_writable (h : WritesBelow d nested k) {e : Expr}
    (hdepth : e.depth ≤ k) :
    (∃ s, (Stage.deleteWhere e).lower d scope source = .ok s ∧ s.Writable d nested) ↔
      source.Takes d nested .deleteWhere ∧ ∀ n ∈ e.nodes scope, n.Allowed d := by
  simp only [Stage.lower_deleteWhere, Source.Takes, Statement.advance_deleteWhere, ← h.expr hdepth]
  constructor
  · rintro ⟨_, ⟨x, e', hx, hr, he, rfl⟩, hwritten⟩
    simp only [Statement.Writable, Delete.exprs, List.forall_mem_append,
      List.forall_mem_singleton] at hwritten
    refine ⟨⟨_, hx, ?_, x, rfl, hr⟩, e', he, hwritten.1.2⟩
    simp only [Statement.Writable, Delete.exprs, List.forall_mem_append]
    exact ⟨hwritten.1.1, hwritten.2⟩
  · rintro ⟨⟨_, hx, hsofar, x, rfl, hr⟩, e', he, hwritten⟩
    simp only [Statement.Writable, Delete.exprs, List.forall_mem_append] at hsofar
    refine ⟨_, ⟨x, e', hx, hr, he, rfl⟩, ?_⟩
    simp only [Statement.Writable, Delete.exprs, List.forall_mem_append, List.forall_mem_singleton]
    exact ⟨⟨hsofar.1, hwritten⟩, hsofar.2⟩

/-- A stage that returns items can be lowered and written exactly if it has its place, the dialect
allows it, there is an item and its nodes are allowed. -/
theorem Stage.lower_returning_writable (h : WritesBelow d nested k) {shape : Shape}
    {items : List SelectItem} (hdepth : SelectItem.depthAll items ≤ k) :
    (∃ s, (Stage.returning shape items).lower d scope source = .ok s ∧ s.Writable d nested) ↔
      source.Takes d nested .returning ∧ (d.supports .returning = true ∧ items ≠ []) ∧
        ∀ n ∈ SelectItem.nodesAll scope items, n.Allowed d := by
  have hadd (s : Statement) (items : List SelectItem) (kind : QueryKind) :
      (s.form.advance .returning).isSome = true ↔ ∃ s', s.addReturning items kind = .ok s' := by
    simp only [Statement.advance_returning, Statement.addReturning_eq_ok]
    constructor
    · rintro (⟨i, rfl, hr⟩ | ⟨u, rfl, hr⟩ | ⟨x, rfl, hr⟩)
      · exact ⟨_, .inl ⟨i, rfl, hr, rfl⟩⟩
      · exact ⟨_, .inr (.inl ⟨u, rfl, hr, rfl⟩)⟩
      · exact ⟨_, .inr (.inr ⟨x, rfl, hr, rfl⟩)⟩
    · rintro ⟨_, ⟨i, rfl, hr, -⟩ | ⟨u, rfl, hr, -⟩ | ⟨x, rfl, hr, -⟩⟩
      · exact .inl ⟨i, rfl, hr⟩
      · exact .inr (.inl ⟨u, rfl, hr⟩)
      · exact .inr (.inr ⟨x, rfl, hr⟩)
  simp only [Stage.lower_returning, Source.Takes, ← h.resolveItems hdepth]
  constructor
  · rintro ⟨s, ⟨hd, hne, items', s', hitems, hs', hs⟩, hwritten⟩
    have hparts := (Statement.writable_addReturning hs).mp hwritten
    exact ⟨⟨s', hs', hparts.1, (hadd s' items' source.kind).mpr ⟨s, hs⟩⟩, ⟨hd, hne⟩, items', hitems,
      hparts.2⟩
  · rintro ⟨⟨s', hs', hsofar, hadvance⟩, ⟨hd, hne⟩, items', hitems, hwritten⟩
    obtain ⟨s, hs⟩ := (hadd s' items' source.kind).mp hadvance
    exact ⟨s, ⟨hd, hne, items', s', hitems, hs', hs⟩,
      (Statement.writable_addReturning hs).mpr ⟨hsofar, hwritten⟩⟩

/-- A row stage can be lowered and written exactly if it has its place, the dialect allows it and
its nodes are allowed. -/
theorem Stage.lower_rowStage_writable (h : WritesBelow d nested k) {stage : Stage} (base : Query)
    (hrow : stage.kind.isRowStage = true) (hdepth : stage.depth ≤ k)
    (hbodies : ∀ q ∈ stage.bodies, q.RowsWritable d nested) :
    (∃ s, stage.lower d scope source = .ok s ∧ s.Writable d nested) ↔
      source.Takes d nested stage.kind ∧ stage.Allowed d base ∧
        ∀ n ∈ stage.nodes scope, n.Allowed d := by
  have hwritable {s : Statement} (hs : s.form = .rows) :
      s.Writable d nested ↔ Succeeds (s.render d nested) := by
    simp [Statement.succeeds_render, hs, Form.isComplete]
  simp only [Stage.lower_rowStage_eq_ok hrow, Source.Takes, Form.advance_rowStage hrow,
    ← Stage.addition_writable h base hrow hdepth hbodies]
  constructor
  · rintro ⟨_, ⟨a, s', ha, hs', hform, rfl⟩, hwritten⟩
    rw [hwritable (Statement.form_extend _ hform a), Statement.succeeds_render_extend,
      ← hwritable hform] at hwritten
    exact ⟨⟨s', hs', hwritten.1, hform⟩, a, ha, hwritten.2⟩
  · rintro ⟨⟨s', hs', hsofar, hform⟩, a, ha, hwritten⟩
    refine ⟨_, ⟨a, s', ha, hs', hform, rfl⟩, ?_⟩
    rw [hwritable (Statement.form_extend _ hform a), Statement.succeeds_render_extend,
      ← hwritable hform]
    exact ⟨hsofar, hwritten⟩

/-- A stage is lowered to a statement that can be written so far exactly if its source takes it and
the stage meets its conditions. -/
theorem Stage.lower_writable (h : WritesBelow d nested k) {stage : Stage} {base : Query}
    (hdepth : stage.depth ≤ k) (hbodies : ∀ q ∈ stage.bodies, q.RowsWritable d nested)
    (hcolumns : ∀ i, source.statement = .ok (.insert i) → base.columns = i.columns) :
    (∃ s, stage.lower d scope source = .ok s ∧ s.Writable d nested) ↔
      source.Takes d nested stage.kind ∧ stage.Allowed d base ∧
        ∀ n ∈ stage.nodes scope, n.Allowed d := by
  cases stage with
  | values rows => exact Stage.lower_values_writable h hdepth hcolumns
  | insertSelect rows =>
    rw [Stage.lower_insertSelect_writable (hbodies rows (by simp [Stage.bodies]))]
    simp [Stage.kind, Stage.Allowed, Stage.nodes, Query.ValidRows]
  | onConflict target action => exact Stage.lower_onConflict_writable h hdepth
  | set assignments => exact Stage.lower_set_writable h hdepth
  | updateWhere e =>
    rw [Stage.lower_updateWhere_writable h hdepth]
    simp [Stage.kind, Stage.Allowed, Stage.nodes]
  | deleteWhere e =>
    rw [Stage.lower_deleteWhere_writable h hdepth]
    simp [Stage.kind, Stage.Allowed, Stage.nodes]
  | returning shape items => exact Stage.lower_returning_writable h hdepth
  | _ => exact Stage.lower_rowStage_writable h base rfl hdepth hbodies

/-- A stage upon an insertion keeps its columns. -/
theorem Stage.columns_lower {stage : Stage} {i : Insert}
    (h : stage.lower d scope source = .ok (.insert i)) :
    ∃ i', source.statement = .ok (.insert i') ∧ i'.columns = i.columns := by
  cases hrow : stage.kind.isRowStage with
  | true =>
    obtain ⟨a, s, -, -, hform, hs⟩ := (Stage.lower_rowStage_eq_ok hrow).mp h
    have hrows := Statement.form_extend source.derivedName hform a
    rw [← hs] at hrows
    cases hrows
  | false =>
    cases stage with
    | values rows =>
      obtain ⟨i', rows', hi, -, -, -, -, hs⟩ := Stage.lower_values.mp h
      cases hs
      exact ⟨i', hi, rfl⟩
    | insertSelect rows =>
      obtain ⟨i', body, hi, -, -, -, hs⟩ := Stage.lower_insertSelect.mp h
      cases hs
      exact ⟨i', hi, rfl⟩
    | onConflict target action =>
      obtain ⟨-, i', action', hi, -, -, -, -, hs⟩ := Stage.lower_onConflict.mp h
      refine ⟨i', hi, ?_⟩
      simp only [Statement.insert.injEq] at hs
      rw [hs]
      unfold Insert.guardJoin
      split <;> rfl
    | set assignments =>
      obtain ⟨-, u, assignments', -, -, -, -, hs⟩ := Stage.lower_set.mp h
      cases hs
    | updateWhere e =>
      obtain ⟨u, e', -, -, -, hs⟩ := Stage.lower_updateWhere.mp h
      cases hs
    | deleteWhere e =>
      obtain ⟨x, e', -, -, -, hs⟩ := Stage.lower_deleteWhere.mp h
      cases hs
    | returning shape items =>
      obtain ⟨-, -, items', s, -, hs, hadd⟩ := Stage.lower_returning.mp h
      rcases Statement.addReturning_eq_ok.mp hadd with
        ⟨i', rfl, -, heq⟩ | ⟨u, rfl, -, heq⟩ | ⟨x, rfl, -, heq⟩
      · cases heq
        exact ⟨i', hs, rfl⟩
      · cases heq
      · cases heq
    | _ => cases hrow

end Stages

/-- An insertion has the columns that its root names. -/
theorem Query.columns_lower {d : Dialect} : ∀ {q : Query} {i : Insert},
    q.lower d = .ok (.insert i) → q.root.columns = i.columns
  | .table _, _, h | .update _, _, h | .deleteFrom _, _, h => by
    cases h
  | .insertInto name columns, _, h => by
    cases h
    rfl
  | .setOperation op all left right, _, h => by
    obtain ⟨-, left', right', -, -, hs⟩ := Query.lower_setOperation.mp h
    cases hs
  | .withCtes recursive ctes main, _, h => by
    obtain ⟨-, -, ctes', body, -, -, hs⟩ := Query.lower_withCtes.mp h
    cases hs
  | .step source stage, i, h => by
    obtain ⟨i', hi', hcolumns⟩ := Stage.columns_lower h
    have hsource : source.lower d = .ok (.insert i') := hi'
    rw [Query.root, Query.columns_lower hsource, hcolumns]
termination_by structural q => q

section Queries

variable {d : Dialect} {nested : Query → Rendered} {k : Nat}

/-- The query is lowered to a statement that can be written so far exactly if its stages may follow
one another and its nodes meet their conditions. -/
def Query.Lowers (d : Dialect) (nested : Query → Rendered) (q : Query) : Prop :=
  (∃ s, q.lower d = .ok s ∧ s.Writable d nested) ↔
    q.form?.isSome = true ∧ ∀ n ∈ q.nodes, n.Allowed d

/-- What holds of lowering a query holds of lowering it for its rows. -/
theorem Query.Lowers.rowsWritable {q : Query} (h : q.Lowers d nested) :
    q.RowsWritable d nested := by
  unfold Query.RowsWritable Query.ValidRows
  rw [List.forall_mem_cons, Node.allowed_query_true]
  constructor
  · rintro ⟨s, hs, hwritten⟩
    obtain ⟨hlower, hform⟩ := Query.lowerRows_eq_ok.mp hs
    have hnodes := (h.mp ⟨s, hlower, (Statement.succeeds_render.mp hwritten).1⟩).2
    exact ⟨by rw [Query.form_lower hlower, hform], hnodes⟩
  · rintro ⟨hform, hnodes⟩
    obtain ⟨s, hlower, hwritten⟩ := h.mpr ⟨by rw [hform]; rfl, hnodes⟩
    have hrows : s.form = .rows := by
      have hs := Query.form_lower hlower
      rw [hform] at hs
      exact (Option.some.inj hs).symm
    refine ⟨s, Query.lowerRows_eq_ok.mpr ⟨hlower, hrows⟩, ?_⟩
    exact Statement.succeeds_render.mpr ⟨hwritten, by rw [hrows]; rfl⟩

/-- A query can be lowered and written as a whole exactly if it is valid. -/
theorem Query.Lowers.writable_iff_valid {q : Query} (h : q.Lowers d nested) :
    (∃ s, q.lower d = .ok s ∧ Succeeds (s.render d nested)) ↔ q.Valid d := by
  unfold Query.Valid
  rw [List.forall_mem_cons, Node.allowed_query_false]
  constructor
  · rintro ⟨s, hlower, hwritten⟩
    obtain ⟨hwritten, hcomplete⟩ := Statement.succeeds_render.mp hwritten
    exact ⟨⟨s.form, Query.form_lower hlower, hcomplete⟩, (h.mp ⟨s, hlower, hwritten⟩).2⟩
  · rintro ⟨⟨f, hform, hcomplete⟩, hnodes⟩
    obtain ⟨s, hlower, hwritten⟩ := h.mpr ⟨by rw [hform]; rfl, hnodes⟩
    refine ⟨s, hlower, Statement.succeeds_render.mpr ⟨hwritten, ?_⟩⟩
    have hs := Query.form_lower hlower
    rw [hform] at hs
    rw [← Option.some.inj hs]
    exact hcomplete

/-- A stage keeps to the conditions if what it follows does, and the queries it holds do. -/
theorem Query.Lowers.step (h : WritesBelow d nested k) {source : Query} {stage : Stage}
    (hsource : source.Lowers d nested) (hdepth : stage.depth ≤ k)
    (hbodies : ∀ q ∈ stage.bodies, q.RowsWritable d nested) :
    (Query.step source stage).Lowers d nested := by
  have hcolumns (i : Insert) (hi : source.lower d = .ok (.insert i)) :
      source.root.columns = i.columns := Query.columns_lower hi
  have hform {s : Statement} (hs : source.lower d = .ok s) :
      (Query.step source stage).form? = s.form.advance stage.kind := by
    rw [Query.form?, Query.form_lower hs, Option.bind_some]
  unfold Query.Lowers
  rw [Query.lower, Stage.lower_writable h hdepth hbodies hcolumns, Query.nodes,
    List.forall_mem_append, List.forall_mem_cons]
  constructor
  · rintro ⟨⟨s, hs, hwritten, hadvance⟩, hallowed, hnodes⟩
    have hbelow := (hsource.mp ⟨s, hs, hwritten⟩).2
    exact ⟨by rw [hform hs]; exact hadvance, hbelow, hallowed, hnodes⟩
  · rintro ⟨hsome, hbelow, hallowed, hnodes⟩
    have hsourceForm : source.form?.isSome = true := by
      rw [Query.form?] at hsome
      exact Option.isSome_of_isSome_bind hsome
    obtain ⟨s, hs, hwritten⟩ := hsource.mpr ⟨hsourceForm, hbelow⟩
    rw [hform hs] at hsome
    exact ⟨⟨s, hs, hwritten, hsome⟩, hallowed, hnodes⟩

mutual

/-- Every query that is not too deeply nested keeps to the conditions. -/
theorem Query.lowers (h : WritesBelow d nested k) : ∀ {q : Query}, q.depth ≤ k →
    q.Lowers d nested
  | .table _, _ => by
    simp [Query.Lowers, Query.lower, Query.form?, Query.nodes, Node.Allowed, Query.RootAllowed,
      Statement.Writable, Block.succeeds_render, Block.ofOrigin, SelectItem.exprs, Origin.render,
      Join.renderAll]
  | .insertInto .., _ => by
    simp [Query.Lowers, Query.lower, Query.form?, Query.nodes, Node.Allowed, Query.RootAllowed,
      Statement.Writable, Insert.Writable, Upsert.Writable, SelectItem.exprs]
  | .update _, _ => by
    simp [Query.Lowers, Query.lower, Query.form?, Query.nodes, Node.Allowed, Query.RootAllowed,
      Statement.Writable, Update.exprs, SelectItem.exprs]
  | .deleteFrom _, _ => by
    simp [Query.Lowers, Query.lower, Query.form?, Query.nodes, Node.Allowed, Query.RootAllowed,
      Statement.Writable, Delete.exprs, SelectItem.exprs]
  | .setOperation op all left right, hdepth => by
    have hdepth : left.depth ≤ k ∧ right.depth ≤ k := max_le_iff.mp hdepth
    have hleft := (Query.lowers h hdepth.1).rowsWritable
    have hright := (Query.lowers h hdepth.2).rowsWritable
    unfold Query.RowsWritable Query.ValidRows at hleft hright
    unfold Query.Lowers
    rw [Query.nodes, List.forall_mem_cons, List.forall_mem_append, ← hleft, ← hright]
    simp only [Query.lower_setOperation]
    constructor
    · rintro ⟨_, ⟨hall, left', right', hleft', hright', rfl⟩, hwritten⟩
      exact ⟨rfl, hall, ⟨left', hleft', hwritten.1⟩, right', hright', hwritten.2⟩
    · rintro ⟨-, hall, ⟨left', hleft', hwrittenLeft⟩, right', hright', hwrittenRight⟩
      exact ⟨_, ⟨hall, left', right', hleft', hright', rfl⟩, hwrittenLeft, hwrittenRight⟩
  | .withCtes recursive ctes main, hdepth => by
    have hdepth : Cte.depthAll ctes ≤ k ∧ main.depth ≤ k := max_le_iff.mp hdepth
    have hctes := Cte.lowersAll h hdepth.1
    have hmain := (Query.lowers h hdepth.2).writable_iff_valid
    unfold Query.Valid at hmain
    unfold Query.Lowers
    rw [Query.nodes, List.forall_mem_cons, List.forall_mem_append, ← hctes, ← hmain]
    simp only [Query.lower_withCtes]
    constructor
    · rintro ⟨_, ⟨hd, hne, ctes', body, hctes', hbody, rfl⟩, hwritten⟩
      exact ⟨rfl, ⟨hd, hne⟩, ⟨ctes', hctes', hwritten.1⟩, body, hbody, hwritten.2⟩
    · rintro ⟨-, ⟨hd, hne⟩, ⟨ctes', hctes', hwrittenCtes⟩, body, hbody, hwrittenBody⟩
      exact ⟨_, ⟨hd, hne, ctes', body, hctes', hbody, rfl⟩, hwrittenCtes, hwrittenBody⟩
  | .step source stage, hdepth => by
    have hdepth : source.depth ≤ k ∧ stage.depth ≤ k := max_le_iff.mp hdepth
    exact Query.Lowers.step h (Query.lowers h hdepth.1) hdepth.2
      (Stage.rowsWritable_bodies h hdepth.2)
termination_by structural q => q

/-- The entries of a WITH can be lowered and written exactly if their nodes are allowed. -/
theorem Cte.lowersAll (h : WritesBelow d nested k) : ∀ {ctes : List (Cte Query)},
    Cte.depthAll ctes ≤ k →
      ((∃ ctes', Cte.lowerAll d ctes = .ok ctes' ∧ Succeeds (Cte.renderAll d nested ctes')) ↔
        ∀ n ∈ Cte.nodesAll ctes, n.Allowed d)
  | [], _ => by simp [Cte.lowerAll, Cte.renderAll, Cte.nodesAll]
  | ⟨name, columns, body⟩ :: ctes, hdepth => by
    have hdepth : body.depth ≤ k ∧ Cte.depthAll ctes ≤ k := max_le_iff.mp hdepth
    have hbody := (Query.lowers h hdepth.1).writable_iff_valid
    have hctes := Cte.lowersAll h hdepth.2
    unfold Query.Valid at hbody
    rw [Cte.nodesAll, List.forall_mem_append, ← hbody, ← hctes]
    simp only [Cte.lowerAll, bind_eq_ok, pure_eq_ok]
    constructor
    · rintro ⟨_, ⟨body', hbody', ctes', hctes', rfl⟩, hwritten⟩
      simp only [Cte.renderAll, succeeds_bind, succeeds_pure, and_true, exists_and_right,
        exists_eq_ok] at hwritten
      exact ⟨⟨body', hbody', hwritten.1⟩, ctes', hctes', hwritten.2⟩
    · rintro ⟨⟨body', hbody', hwrittenBody⟩, ctes', hctes', hwrittenCtes⟩
      refine ⟨_, ⟨body', hbody', ctes', hctes', rfl⟩, ?_⟩
      simp only [Cte.renderAll, succeeds_bind, succeeds_pure, and_true, exists_and_right,
        exists_eq_ok]
      exact ⟨hwrittenBody, hwrittenCtes⟩
termination_by structural ctes => ctes

/-- The query of a lateral join can be written exactly if it is valid. -/
theorem JoinTarget.rowsWritable_body (h : WritesBelow d nested k) : ∀ {target : JoinTarget Query},
    JoinTarget.depth target ≤ k → ∀ {body name}, target = .lateral body name →
      body.RowsWritable d nested
  | .table _, _, _, _, heq => by cases heq
  | .lateral body _, hdepth, _, _, heq => by
    cases heq
    exact (Query.lowers h (q := body) hdepth).rowsWritable
termination_by structural target => target

/-- The queries that a stage holds can be written exactly if they are valid. -/
theorem Stage.rowsWritable_bodies (h : WritesBelow d nested k) : ∀ {stage : Stage},
    stage.depth ≤ k → ∀ q ∈ stage.bodies, q.RowsWritable d nested
  | .join target condition kind, hdepth, q, hq => by
    have hdepth : JoinTarget.depth target ≤ k ∧ Expr.depthOption condition ≤ k :=
      max_le_iff.mp hdepth
    have hbody {body : Query} {name : String} (heq : target = .lateral body name) :
        body.RowsWritable d nested := JoinTarget.rowsWritable_body h hdepth.1 heq
    cases target with
    | table _ => cases hq
    | lateral body name =>
      cases List.mem_singleton.mp hq
      exact hbody rfl
  | .insertSelect rows, hdepth, q, hq => by
    cases List.mem_singleton.mp hq
    exact (Query.lowers h (q := rows) hdepth).rowsWritable
  | .filter _, _, _, hq | .select .., _, _, hq | .orderBy _, _, _, hq | .limit _, _, _, hq
  | .offset _, _, _, hq | .distinct, _, _, hq | .groupBy _, _, _, hq | .having _, _, _, hq
  | .values _, _, _, hq | .onConflict .., _, _, hq | .set _, _, _, hq | .updateWhere _, _, _, hq
  | .deleteWhere _, _, _, hq | .returning .., _, _, hq => by
    cases hq
termination_by structural stage => stage

end

/-- A query that is read for its rows is written exactly if it is valid, where the limit is beyond
its depth. -/
theorem writesBelow_renderRows (d : Dialect) : ∀ limit : Nat,
    WritesBelow d (Query.renderRows d limit) limit := by
  intro limit
  induction limit with
  | zero =>
    intro q hdepth
    omega
  | succ limit ih =>
    intro q hdepth
    have hrows := (Query.lowers ih (Nat.le_of_lt_succ hdepth)).rowsWritable
    unfold Query.RowsWritable at hrows
    rw [Query.renderRows, succeeds_bind, hrows]

/-- A query compiles exactly if it is valid for the dialect. -/
theorem compile_eq_ok_iff_valid (d : Dialect) (q : Query) :
    (∃ plan, q.compile d = .ok plan) ↔ q.Valid d := by
  have hlowers := Query.lowers (writesBelow_renderRows d q.depth) (Nat.le_refl q.depth)
  rw [exists_eq_ok, Query.compile, ← hlowers.writable_iff_valid, Query.render]
  simp only [succeeds_bind, succeeds_pure, and_true, exists_eq_ok]

end Queries

end SqlAlgebra
