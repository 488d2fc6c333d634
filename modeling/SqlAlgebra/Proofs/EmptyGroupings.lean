import SqlAlgebra.Proofs.Acceptance
import SqlAlgebra.Proofs.ExprMaps

/-!
# Grouping by nothing

A stage that groups by nothing does nothing. A query that compiles can therefore be freed of all
such stages, in its pipelines as well as in the queries nested in it, and its plan stays the same.
-/

namespace SqlAlgebra

section Trimming

mutual

/-- The expression without the stages that group by nothing in the queries nested in it. -/
def Expr.trim : Expr → Expr
  | .column table name => .column table name
  | .placeholder name => .placeholder name
  | .literal value => .literal value
  | .parameter type name => .parameter type name
  | .binary op left right => .binary op left.trim right.trim
  | .unary op operand => .unary op operand.trim
  | .call name args distinct => .call name (Expr.trimAll args) distinct
  | .between subject low high negated => .between subject.trim low.trim high.trim negated
  | .inList subject values negated => .inList subject.trim (Expr.trimAll values) negated
  | .cast operand type => .cast operand.trim type
  | .subquery query => .subquery query.trim
  | .existence query negated => .existence query.trim negated
  | .choice branches otherwise => .choice (Branch.trimAll branches) (Expr.trimOption otherwise)
  | .window name args partition order frame =>
    .window name (Expr.trimAll args) (Expr.trimAll partition) (OrderKey.trimAll order) frame
  | .wildcard => .wildcard
termination_by structural e => e

def Expr.trimAll : List Expr → List Expr
  | [] => []
  | e :: es => e.trim :: Expr.trimAll es
termination_by structural es => es

def Expr.trimOption : Option Expr → Option Expr
  | none => none
  | some e => some e.trim
termination_by structural e => e

def Expr.trimRows : List (List Expr) → List (List Expr)
  | [] => []
  | row :: rows => Expr.trimAll row :: Expr.trimRows rows
termination_by structural rows => rows

def Branch.trimAll : List Branch → List Branch
  | [] => []
  | ⟨condition, result⟩ :: branches => ⟨condition.trim, result.trim⟩ :: Branch.trimAll branches
termination_by structural branches => branches

def OrderKey.trimAll : List OrderKey → List OrderKey
  | [] => []
  | ⟨e, direction, nulls⟩ :: keys => ⟨e.trim, direction, nulls⟩ :: OrderKey.trimAll keys
termination_by structural keys => keys

def SelectItem.trimAll : List SelectItem → List SelectItem
  | [] => []
  | ⟨e, name⟩ :: items => ⟨e.trim, name⟩ :: SelectItem.trimAll items
termination_by structural items => items

def Assignment.trimAll : List Assignment → List Assignment
  | [] => []
  | ⟨column, e⟩ :: assignments => ⟨column, e.trim⟩ :: Assignment.trimAll assignments
termination_by structural assignments => assignments

def ConflictAction.trim : ConflictAction → ConflictAction
  | .doNothing => .doNothing
  | .doUpdate assignments => .doUpdate (Assignment.trimAll assignments)
termination_by structural action => action

def JoinTarget.trim : JoinTarget Query → JoinTarget Query
  | .table name => .table name
  | .lateral body name => .lateral body.trim name
termination_by structural target => target

def Cte.trimAll : List (Cte Query) → List (Cte Query)
  | [] => []
  | ⟨name, columns, body⟩ :: ctes => ⟨name, columns, body.trim⟩ :: Cte.trimAll ctes
termination_by structural ctes => ctes

def Stage.trim : Stage → Stage
  | .filter predicate => .filter predicate.trim
  | .join target condition kind => .join (JoinTarget.trim target) (Expr.trimOption condition) kind
  | .select shape items => .select shape (SelectItem.trimAll items)
  | .orderBy keys => .orderBy (OrderKey.trimAll keys)
  | .limit count => .limit count.trim
  | .offset count => .offset count.trim
  | .distinct => .distinct
  | .groupBy keys => .groupBy (Expr.trimAll keys)
  | .having predicate => .having predicate.trim
  | .values rows => .values (Expr.trimRows rows)
  | .insertSelect rows => .insertSelect rows.trim
  | .onConflict target action => .onConflict target action.trim
  | .set assignments => .set (Assignment.trimAll assignments)
  | .updateWhere predicate => .updateWhere predicate.trim
  | .deleteWhere predicate => .deleteWhere predicate.trim
  | .returning shape items => .returning shape (SelectItem.trimAll items)
termination_by structural stage => stage

/-- The query without the stages that group by nothing, wherever they are in it. -/
def Query.trim : Query → Query
  | .table name => .table name
  | .insertInto table columns => .insertInto table columns
  | .update table => .update table
  | .deleteFrom table => .deleteFrom table
  | .setOperation op all left right => .setOperation op all left.trim right.trim
  | .withCtes recursive ctes main => .withCtes recursive (Cte.trimAll ctes) main.trim
  | .step source (.groupBy []) => source.trim
  | .step source stage => .step source.trim stage.trim
termination_by structural q => q

end

/-- The stage groups by nothing. -/
def Stage.isEmptyGrouping : Stage → Bool
  | .groupBy [] => true
  | _ => false

/-- The stage that is left out groups by nothing. -/
theorem Stage.isEmptyGrouping_iff {stage : Stage} :
    stage.isEmptyGrouping = true ↔ stage = .groupBy [] := by
  cases stage with
  | groupBy keys => cases keys <;> simp [Stage.isEmptyGrouping]
  | _ => simp [Stage.isEmptyGrouping]

/-- Any other stage stays. -/
theorem Query.trim_step {source : Query} {stage : Stage} (h : stage.isEmptyGrouping = false) :
    (Query.step source stage).trim = .step source.trim stage.trim := by
  cases stage with
  | groupBy keys =>
    cases keys with
    | nil => cases h
    | cons key keys => rfl
  | _ => rfl

/-- A list is trimmed expression by expression. -/
theorem Expr.trimAll_eq (es : List Expr) : Expr.trimAll es = es.map Expr.trim := by
  induction es with
  | nil => rfl
  | cons e es ih => rw [Expr.trimAll, ih, List.map_cons]

/-- An expression that may be missing is trimmed where there is one. -/
theorem Expr.trimOption_eq (e : Option Expr) : Expr.trimOption e = e.map Expr.trim := by
  cases e <;> rfl

/-- Rows are trimmed value by value. -/
theorem Expr.trimRows_eq (rows : List (List Expr)) :
    Expr.trimRows rows = rows.map (List.map Expr.trim) := by
  induction rows with
  | nil => rfl
  | cons row rows ih => rw [Expr.trimRows, ih, List.map_cons, Expr.trimAll_eq]

/-- Order keys are trimmed in their expressions. -/
theorem OrderKey.trimAll_eq (keys : List OrderKey) :
    OrderKey.trimAll keys = keys.map (OrderKey.mapExpr Expr.trim) := by
  induction keys with
  | nil => rfl
  | cons key keys ih =>
    obtain ⟨e, direction, nulls⟩ := key
    rw [OrderKey.trimAll, ih, List.map_cons, OrderKey.mapExpr]

/-- Projected items are trimmed in their expressions. -/
theorem SelectItem.trimAll_eq (items : List SelectItem) :
    SelectItem.trimAll items = items.map (SelectItem.mapExpr Expr.trim) := by
  induction items with
  | nil => rfl
  | cons item items ih =>
    obtain ⟨e, name⟩ := item
    rw [SelectItem.trimAll, ih, List.map_cons, SelectItem.mapExpr]

/-- Assignments are trimmed in their values. -/
theorem Assignment.trimAll_eq (assignments : List Assignment) :
    Assignment.trimAll assignments = assignments.map (Assignment.mapExpr Expr.trim) := by
  induction assignments with
  | nil => rfl
  | cons a assignments ih =>
    obtain ⟨column, e⟩ := a
    rw [Assignment.trimAll, ih, List.map_cons, Assignment.mapExpr]

/-- An action upon a conflict is trimmed in its expressions. -/
theorem ConflictAction.trim_eq (action : ConflictAction) :
    action.trim = action.mapExprs Expr.trim := by
  cases action with
  | doNothing => rfl
  | doUpdate assignments =>
    rw [ConflictAction.trim, Assignment.trimAll_eq, ConflictAction.mapExprs]

end Trimming

section Resolving

mutual

/-- An expression may be qualified before or after trimming. -/
theorem Expr.trim_qualify (table : String) : ∀ e : Expr,
    (e.qualify table).trim = e.trim.qualify table
  | .column .. | .placeholder _ | .literal _ | .parameter .. | .subquery _ | .existence ..
  | .wildcard => rfl
  | .binary op left right => by
    simp only [Expr.qualify, Expr.trim, Expr.trim_qualify table left, Expr.trim_qualify table right]
  | .unary op operand => by
    simp only [Expr.qualify, Expr.trim, Expr.trim_qualify table operand]
  | .call name args distinct => by
    simp only [Expr.qualify, Expr.trim, Expr.trimAll_qualifyAll table args]
  | .between subject low high negated => by
    simp only [Expr.qualify, Expr.trim, Expr.trim_qualify table subject,
      Expr.trim_qualify table low, Expr.trim_qualify table high]
  | .inList subject values negated => by
    simp only [Expr.qualify, Expr.trim, Expr.trim_qualify table subject,
      Expr.trimAll_qualifyAll table values]
  | .cast operand type => by
    simp only [Expr.qualify, Expr.trim, Expr.trim_qualify table operand]
  | .choice branches otherwise => by
    simp only [Expr.qualify, Expr.trim, Branch.trimAll_qualifyAll table branches,
      Expr.trimOption_qualifyOption table otherwise]
  | .window name args partition order frame => by
    simp only [Expr.qualify, Expr.trim, Expr.trimAll_qualifyAll table args,
      Expr.trimAll_qualifyAll table partition, OrderKey.trimAll_qualifyAll table order]
termination_by structural e => e

/-- A list may be qualified before or after trimming. -/
theorem Expr.trimAll_qualifyAll (table : String) : ∀ es : List Expr,
    Expr.trimAll (Expr.qualifyAll table es) = Expr.qualifyAll table (Expr.trimAll es)
  | [] => rfl
  | e :: es => by
    simp only [Expr.qualifyAll, Expr.trimAll, Expr.trim_qualify table e,
      Expr.trimAll_qualifyAll table es]
termination_by structural es => es

/-- An expression that may be missing may be qualified before or after trimming. -/
theorem Expr.trimOption_qualifyOption (table : String) : ∀ e : Option Expr,
    Expr.trimOption (Expr.qualifyOption table e) = Expr.qualifyOption table (Expr.trimOption e)
  | none => rfl
  | some e => by
    simp only [Expr.qualifyOption, Expr.trimOption, Expr.trim_qualify table e]
termination_by structural e => e

/-- Branches may be qualified before or after trimming. -/
theorem Branch.trimAll_qualifyAll (table : String) : ∀ branches : List Branch,
    Branch.trimAll (Branch.qualifyAll table branches) =
      Branch.qualifyAll table (Branch.trimAll branches)
  | [] => rfl
  | ⟨condition, result⟩ :: branches => by
    simp only [Branch.qualifyAll, Branch.trimAll, Expr.trim_qualify table condition,
      Expr.trim_qualify table result, Branch.trimAll_qualifyAll table branches]
termination_by structural branches => branches

/-- Order keys may be qualified before or after trimming. -/
theorem OrderKey.trimAll_qualifyAll (table : String) : ∀ keys : List OrderKey,
    OrderKey.trimAll (OrderKey.qualifyAll table keys) =
      OrderKey.qualifyAll table (OrderKey.trimAll keys)
  | [] => rfl
  | ⟨e, direction, nulls⟩ :: keys => by
    simp only [OrderKey.qualifyAll, OrderKey.trimAll, Expr.trim_qualify table e,
      OrderKey.trimAll_qualifyAll table keys]
termination_by structural keys => keys

end

mutual

/-- Trimming an expression keeps its first placeholder. -/
theorem Expr.firstPlaceholder?_trim : ∀ e : Expr, e.trim.firstPlaceholder? = e.firstPlaceholder?
  | .column .. | .placeholder _ | .literal _ | .parameter .. | .subquery _ | .existence ..
  | .wildcard => rfl
  | .binary _ left right => by
    simp only [Expr.trim, Expr.firstPlaceholder?, Expr.firstPlaceholder?_trim left,
      Expr.firstPlaceholder?_trim right]
  | .unary _ operand => by
    simp only [Expr.trim, Expr.firstPlaceholder?, Expr.firstPlaceholder?_trim operand]
  | .call _ args _ => by
    simp only [Expr.trim, Expr.firstPlaceholder?, Expr.firstPlaceholderIn?_trim args]
  | .between subject low high _ => by
    simp only [Expr.trim, Expr.firstPlaceholder?, Expr.firstPlaceholder?_trim subject,
      Expr.firstPlaceholder?_trim low, Expr.firstPlaceholder?_trim high]
  | .inList subject values _ => by
    simp only [Expr.trim, Expr.firstPlaceholder?, Expr.firstPlaceholder?_trim subject,
      Expr.firstPlaceholderIn?_trim values]
  | .cast operand _ => by
    simp only [Expr.trim, Expr.firstPlaceholder?, Expr.firstPlaceholder?_trim operand]
  | .choice branches otherwise => by
    simp only [Expr.trim, Expr.firstPlaceholder?, Branch.firstPlaceholderIn?_trim branches,
      Expr.firstPlaceholderOption?_trim otherwise]
  | .window _ args partition order _ => by
    simp only [Expr.trim, Expr.firstPlaceholder?, Expr.firstPlaceholderIn?_trim args,
      Expr.firstPlaceholderIn?_trim partition, OrderKey.firstPlaceholderIn?_trim order]
termination_by structural e => e

/-- Trimming a list keeps its first placeholder. -/
theorem Expr.firstPlaceholderIn?_trim : ∀ es : List Expr,
    Expr.firstPlaceholderIn? (Expr.trimAll es) = Expr.firstPlaceholderIn? es
  | [] => rfl
  | e :: es => by
    simp only [Expr.trimAll, Expr.firstPlaceholderIn?, Expr.firstPlaceholder?_trim e,
      Expr.firstPlaceholderIn?_trim es]
termination_by structural es => es

/-- Trimming an expression that may be missing keeps its first placeholder. -/
theorem Expr.firstPlaceholderOption?_trim : ∀ e : Option Expr,
    Expr.firstPlaceholderOption? (Expr.trimOption e) = Expr.firstPlaceholderOption? e
  | none => rfl
  | some e => by
    simp only [Expr.trimOption, Expr.firstPlaceholderOption?, Expr.firstPlaceholder?_trim e]
termination_by structural e => e

/-- Trimming branches keeps their first placeholder. -/
theorem Branch.firstPlaceholderIn?_trim : ∀ branches : List Branch,
    Branch.firstPlaceholderIn? (Branch.trimAll branches) = Branch.firstPlaceholderIn? branches
  | [] => rfl
  | ⟨condition, result⟩ :: branches => by
    simp only [Branch.trimAll, Branch.firstPlaceholderIn?, Expr.firstPlaceholder?_trim condition,
      Expr.firstPlaceholder?_trim result, Branch.firstPlaceholderIn?_trim branches]
termination_by structural branches => branches

/-- Trimming order keys keeps their first placeholder. -/
theorem OrderKey.firstPlaceholderIn?_trim : ∀ keys : List OrderKey,
    OrderKey.firstPlaceholderIn? (OrderKey.trimAll keys) = OrderKey.firstPlaceholderIn? keys
  | [] => rfl
  | ⟨e, _, _⟩ :: keys => by
    simp only [OrderKey.trimAll, OrderKey.firstPlaceholderIn?, Expr.firstPlaceholder?_trim e,
      OrderKey.firstPlaceholderIn?_trim keys]
termination_by structural keys => keys

end

/-- Nested queries have scopes of their own, so nothing changes for the placeholders around them. -/
theorem Expr.resolve_trim {scope : Scope} {e e' : Expr} (h : e.resolve scope = .ok e') :
    e.trim.resolve scope = .ok e'.trim := by
  cases scope with
  | table name =>
    cases h
    rw [Expr.resolve, Expr.trim_qualify]
  | ambiguous reason =>
    simp only [Expr.resolve, Expr.firstPlaceholder?_trim] at h ⊢
    cases hfirst : e.firstPlaceholder? with
    | some field => simp [hfirst] at h
    | none =>
      rw [hfirst] at h
      cases h
      rfl

/-- The same for something that is made from the resolved expression. -/
theorem Expr.resolve_bind_trim {α : Type} {scope : Scope} {e : Expr} {make make' : Expr → α}
    {map : α → α} {a : α} (h : (e.resolve scope >>= fun e => pure (make e)) = .ok a)
    (hmake : ∀ e, make' e.trim = map (make e)) :
    (e.trim.resolve scope >>= fun e => pure (make' e)) = .ok (map a) := by
  obtain ⟨e', he, hpure⟩ := bind_eq_ok.mp h
  rw [Expr.resolve_trim he, ok_bind, hmake, pure_eq_ok.mp hpure]
  rfl

/-- Steps that go through a change of their items go through it for a list. -/
theorem mapM_map_eq_ok {ε α β : Type} {f g : α → Except ε β} {k : α → α} {l : β → β}
    (h : ∀ a b, f a = .ok b → g (k a) = .ok (l b)) {as : List α} {bs : List β}
    (hbs : as.mapM f = .ok bs) : (as.map k).mapM g = .ok (bs.map l) := by
  rw [mapM_eq_ok] at hbs ⊢
  rw [List.forall₂_map_left_iff, List.forall₂_map_right_iff]
  exact hbs.imp h

namespace Scope

variable {scope : Scope}

/-- A list may be resolved before or after trimming. -/
theorem resolveAll_trim {es es' : List Expr} (h : scope.resolveAll es = .ok es') :
    scope.resolveAll (es.map Expr.trim) = .ok (es'.map Expr.trim) :=
  mapM_map_eq_ok (fun _ _ => Expr.resolve_trim) h

/-- Rows may be resolved before or after trimming. -/
theorem resolveRows_trim {rows rows' : List (List Expr)} (h : scope.resolveRows rows = .ok rows') :
    scope.resolveRows (rows.map (List.map Expr.trim)) = .ok (rows'.map (List.map Expr.trim)) :=
  mapM_map_eq_ok (fun _ _ => resolveAll_trim) h

/-- An expression that may be missing may be resolved before or after trimming. -/
theorem resolveOption_trim {e e' : Option Expr} (h : scope.resolveOption e = .ok e') :
    scope.resolveOption (e.map Expr.trim) = .ok (e'.map Expr.trim) := by
  cases e with
  | none =>
    cases h
    rfl
  | some e =>
    exact Expr.resolve_bind_trim h fun _ => rfl

/-- Projected items may be resolved before or after trimming. -/
theorem resolveItems_trim {items items' : List SelectItem}
    (h : scope.resolveItems items = .ok items') :
    scope.resolveItems (items.map (SelectItem.mapExpr Expr.trim)) =
      .ok (items'.map (SelectItem.mapExpr Expr.trim)) := by
  refine mapM_map_eq_ok (fun item item' hitem => ?_) h
  exact Expr.resolve_bind_trim hitem fun _ => rfl

/-- Order keys may be resolved before or after trimming. -/
theorem resolveKeys_trim {keys keys' : List OrderKey} (h : scope.resolveKeys keys = .ok keys') :
    scope.resolveKeys (keys.map (OrderKey.mapExpr Expr.trim)) =
      .ok (keys'.map (OrderKey.mapExpr Expr.trim)) := by
  refine mapM_map_eq_ok (fun key key' hkey => ?_) h
  exact Expr.resolve_bind_trim hkey fun _ => rfl

/-- Assignments may be resolved before or after trimming. -/
theorem resolveAssignments_trim {assignments assignments' : List Assignment}
    (h : scope.resolveAssignments assignments = .ok assignments') :
    scope.resolveAssignments (assignments.map (Assignment.mapExpr Expr.trim)) =
      .ok (assignments'.map (Assignment.mapExpr Expr.trim)) := by
  refine mapM_map_eq_ok (fun a a' ha => ?_) h
  exact Expr.resolve_bind_trim ha fun _ => rfl

end Scope

/-- An action upon a conflict may be resolved before or after trimming. -/
theorem ConflictAction.resolve_trim {scope : Scope} {action action' : ConflictAction}
    (h : action.resolve scope = .ok action') :
    (action.mapExprs Expr.trim).resolve scope = .ok (action'.mapExprs Expr.trim) := by
  cases action with
  | doNothing =>
    cases h
    rfl
  | doUpdate assignments =>
    cases assignments with
    | nil => cases h
    | cons a assignments =>
      obtain ⟨assignments', hassignments, hpure⟩ := bind_eq_ok.mp h
      cases hpure
      exact bind_eq_ok.mpr ⟨_, Scope.resolveAssignments_trim hassignments, rfl⟩

/-- The table that a query reads from is found past the stages that are left out. -/
theorem Query.scope_trim : ∀ q : Query, q.trim.scope = q.scope
  | .step source stage => by
    have hsource := Query.scope_trim source
    cases stage with
    | groupBy keys =>
      cases keys with
      | nil => exact hsource
      | cons key keys => exact hsource
    | join target condition kind => rfl
    | _ => exact hsource
  | .table _ | .insertInto .. | .update _ | .deleteFrom _ | .setOperation .. | .withCtes .. => rfl
termination_by structural q => q

end Resolving

section Depth

mutual

/-- Trimming an expression keeps its depth. -/
theorem Expr.depth_trim : ∀ e : Expr, e.trim.depth = e.depth
  | .column .. | .placeholder _ | .literal _ | .parameter .. | .wildcard => rfl
  | .binary _ left right => by
    simp only [Expr.trim, Expr.depth, Expr.depth_trim left, Expr.depth_trim right]
  | .unary _ operand => Expr.depth_trim operand
  | .call _ args _ => Expr.depthAll_trim args
  | .between subject low high _ => by
    simp only [Expr.trim, Expr.depth, Expr.depth_trim subject, Expr.depth_trim low,
      Expr.depth_trim high]
  | .inList subject values _ => by
    simp only [Expr.trim, Expr.depth, Expr.depth_trim subject, Expr.depthAll_trim values]
  | .cast operand _ => Expr.depth_trim operand
  | .subquery query | .existence query _ => by
    simp only [Expr.trim, Expr.depth, Query.depth_trim query]
  | .choice branches otherwise => by
    simp only [Expr.trim, Expr.depth, Branch.depthAll_trim branches,
      Expr.depthOption_trim otherwise]
  | .window _ args partition order _ => by
    simp only [Expr.trim, Expr.depth, Expr.depthAll_trim args, Expr.depthAll_trim partition,
      OrderKey.depthAll_trim order]
termination_by structural e => e

/-- Trimming a list keeps its depth. -/
theorem Expr.depthAll_trim : ∀ es : List Expr, Expr.depthAll (Expr.trimAll es) = Expr.depthAll es
  | [] => rfl
  | e :: es => by
    simp only [Expr.trimAll, Expr.depthAll, Expr.depth_trim e, Expr.depthAll_trim es]
termination_by structural es => es

/-- Trimming an expression that may be missing keeps its depth. -/
theorem Expr.depthOption_trim : ∀ e : Option Expr,
    Expr.depthOption (Expr.trimOption e) = Expr.depthOption e
  | none => rfl
  | some e => Expr.depth_trim e
termination_by structural e => e

/-- Trimming rows keeps their depth. -/
theorem Expr.depthRows_trim : ∀ rows : List (List Expr),
    Expr.depthRows (Expr.trimRows rows) = Expr.depthRows rows
  | [] => rfl
  | row :: rows => by
    simp only [Expr.trimRows, Expr.depthRows, Expr.depthAll_trim row, Expr.depthRows_trim rows]
termination_by structural rows => rows

/-- Trimming branches keeps their depth. -/
theorem Branch.depthAll_trim : ∀ branches : List Branch,
    Branch.depthAll (Branch.trimAll branches) = Branch.depthAll branches
  | [] => rfl
  | ⟨condition, result⟩ :: branches => by
    simp only [Branch.trimAll, Branch.depthAll, Expr.depth_trim condition, Expr.depth_trim result,
      Branch.depthAll_trim branches]
termination_by structural branches => branches

/-- Trimming order keys keeps their depth. -/
theorem OrderKey.depthAll_trim : ∀ keys : List OrderKey,
    OrderKey.depthAll (OrderKey.trimAll keys) = OrderKey.depthAll keys
  | [] => rfl
  | ⟨e, _, _⟩ :: keys => by
    simp only [OrderKey.trimAll, OrderKey.depthAll, Expr.depth_trim e, OrderKey.depthAll_trim keys]
termination_by structural keys => keys

/-- Trimming projected items keeps their depth. -/
theorem SelectItem.depthAll_trim : ∀ items : List SelectItem,
    SelectItem.depthAll (SelectItem.trimAll items) = SelectItem.depthAll items
  | [] => rfl
  | ⟨e, _⟩ :: items => by
    simp only [SelectItem.trimAll, SelectItem.depthAll, Expr.depth_trim e,
      SelectItem.depthAll_trim items]
termination_by structural items => items

/-- Trimming assignments keeps their depth. -/
theorem Assignment.depthAll_trim : ∀ assignments : List Assignment,
    Assignment.depthAll (Assignment.trimAll assignments) = Assignment.depthAll assignments
  | [] => rfl
  | ⟨_, e⟩ :: assignments => by
    simp only [Assignment.trimAll, Assignment.depthAll, Expr.depth_trim e,
      Assignment.depthAll_trim assignments]
termination_by structural assignments => assignments

/-- Trimming an action upon a conflict keeps its depth. -/
theorem ConflictAction.depth_trim : ∀ action : ConflictAction, action.trim.depth = action.depth
  | .doNothing => rfl
  | .doUpdate assignments => Assignment.depthAll_trim assignments
termination_by structural action => action

/-- Trimming what is joined keeps its depth. -/
theorem JoinTarget.depth_trim : ∀ target : JoinTarget Query,
    JoinTarget.depth (JoinTarget.trim target) = JoinTarget.depth target
  | .table _ => rfl
  | .lateral body _ => Query.depth_trim body
termination_by structural target => target

/-- Trimming the entries of a WITH keeps their depth. -/
theorem Cte.depthAll_trim : ∀ ctes : List (Cte Query),
    Cte.depthAll (Cte.trimAll ctes) = Cte.depthAll ctes
  | [] => rfl
  | ⟨_, _, body⟩ :: ctes => by
    simp only [Cte.trimAll, Cte.depthAll, Query.depth_trim body, Cte.depthAll_trim ctes]
termination_by structural ctes => ctes

/-- Trimming a stage keeps its depth. -/
theorem Stage.depth_trim : ∀ stage : Stage, stage.trim.depth = stage.depth
  | .filter e | .limit e | .offset e | .having e | .updateWhere e | .deleteWhere e =>
    Expr.depth_trim e
  | .join target condition _ => by
    simp only [Stage.trim, Stage.depth, JoinTarget.depth_trim target,
      Expr.depthOption_trim condition]
  | .select _ items | .returning _ items => SelectItem.depthAll_trim items
  | .orderBy keys => OrderKey.depthAll_trim keys
  | .distinct => rfl
  | .groupBy keys => Expr.depthAll_trim keys
  | .values rows => Expr.depthRows_trim rows
  | .insertSelect rows => Query.depth_trim rows
  | .onConflict _ action => ConflictAction.depth_trim action
  | .set assignments => Assignment.depthAll_trim assignments
termination_by structural stage => stage

/-- A stage that groups by nothing holds no queries. -/
theorem Query.depth_trim : ∀ q : Query, q.trim.depth = q.depth
  | .table _ | .insertInto .. | .update _ | .deleteFrom _ => rfl
  | .setOperation _ _ left right => by
    simp only [Query.trim, Query.depth, Query.depth_trim left, Query.depth_trim right]
  | .withCtes _ ctes main => by
    simp only [Query.trim, Query.depth, Cte.depthAll_trim ctes, Query.depth_trim main]
  | .step source stage => by
    have hsource := Query.depth_trim source
    have hstage := Stage.depth_trim stage
    cases hempty : stage.isEmptyGrouping with
    | true =>
      obtain rfl := Stage.isEmptyGrouping_iff.mp hempty
      simp only [Query.trim, hsource, Query.depth, Stage.depth, Expr.depthAll, Nat.max_zero]
    | false => rw [Query.trim_step hempty, Query.depth, Query.depth, hsource, hstage]
termination_by structural q => q

end

end Depth

section Rendering

variable {d : Dialect} {g h : Query → Rendered}

/-- Only a query is trimmed to a query. -/
theorem Expr.subquery_of_trim {e : Expr} {q : Query} (he : e.trim = .subquery q) :
    ∃ q', e = .subquery q' := by
  cases e with
  | subquery q' => exact ⟨q', rfl⟩
  | _ => cases he

mutual

/-- A trimmed expression keeps its text, if the queries in it do. -/
theorem Expr.keeps_render_trim (hgh : ∀ q : Query, Keeps (g q) (h q.trim)) : ∀ e : Expr,
    Keeps (e.render d g) (e.trim.render d h)
  | .column .. | .placeholder _ | .literal _ | .parameter .. | .wildcard => .refl _
  | .binary op left right => by
    have hleft := Expr.keeps_render_trim hgh left
    have hright := Expr.keeps_render_trim hgh right
    simp only [Expr.trim, Expr.render]
    cases d.operator? op with
    | none => exact .refl _
    | some entry => exact hleft.bind fun _ => hright.bind_left _
  | .unary op operand => (Expr.keeps_render_trim hgh operand).bind_left _
  | .call name args distinct => (Expr.keeps_renderAll_trim hgh args).bind_left _
  | .between subject low high negated =>
    (Expr.keeps_render_trim hgh subject).bind fun _ =>
      (Expr.keeps_render_trim hgh low).bind fun _ =>
        (Expr.keeps_render_trim hgh high).bind_left _
  | .inList subject values negated => by
    have hsubject := Expr.keeps_render_trim hgh subject
    have hvalues := Expr.keeps_renderAll_trim hgh values
    by_cases hne : values = []
    · subst hne
      exact keeps_error _ _
    by_cases hquery : ∃ q, values = [.subquery q]
    · obtain ⟨q, rfl⟩ := hquery
      exact hsubject.bind fun _ => (hgh q).bind_left _
    · -- Trimming makes no value a query, so that the list is still written value by value.
      have hquery' : ∀ q, Expr.trimAll values ≠ [.subquery q] := by
        intro q hq
        rw [Expr.trimAll_eq, List.map_eq_singleton_iff] at hq
        obtain ⟨e, rfl, he⟩ := hq
        obtain ⟨q', rfl⟩ := Expr.subquery_of_trim he
        exact hquery ⟨q', rfl⟩
      have hne' : Expr.trimAll values ≠ [] := by
        rw [Expr.trimAll_eq]
        exact List.map_eq_nil_iff.not.mpr hne
      rw [Expr.trim, Expr.render_inList hne fun q hq => hquery ⟨q, hq⟩,
        Expr.render_inList hne' hquery']
      exact hsubject.bind fun _ => hvalues.bind_left _
  | .cast operand type => by
    have hoperand := Expr.keeps_render_trim hgh operand
    simp only [Expr.trim, Expr.render]
    cases d.typeName? type with
    | none => exact .refl _
    | some name => exact hoperand.bind_left _
  | .subquery query => (hgh query).bind_left _
  | .existence query negated => (hgh query).bind_left _
  | .choice branches otherwise => by
    have hbranches := Branch.keeps_renderAll_trim hgh branches
    have hotherwise := Expr.keeps_renderElse_trim hgh otherwise
    cases branches with
    | nil => exact .refl _
    | cons branch branches =>
      cases branch
      exact hbranches.bind fun _ => hotherwise.bind_left _
  | .window name args partition order frame => by
    have hargs := Expr.keeps_renderAll_trim hgh args
    have hpartition := Expr.keeps_renderAll_trim hgh partition
    have horder := OrderKey.keeps_renderAll_trim hgh order
    exact .ite (hargs.bind fun _ => hpartition.bind fun _ => horder.bind_left _) (.refl _)
termination_by structural e => e

/-- A trimmed list keeps its texts, if the queries in it do. -/
theorem Expr.keeps_renderAll_trim (hgh : ∀ q : Query, Keeps (g q) (h q.trim)) : ∀ es : List Expr,
    Keeps (Expr.renderAll d g es) (Expr.renderAll d h (Expr.trimAll es))
  | [] => .refl _
  | e :: es =>
    (Expr.keeps_render_trim hgh e).bind fun _ => (Expr.keeps_renderAll_trim hgh es).bind_left _
termination_by structural es => es

/-- A trimmed ELSE keeps its text, if the queries in it do. -/
theorem Expr.keeps_renderElse_trim (hgh : ∀ q : Query, Keeps (g q) (h q.trim)) :
    ∀ e : Option Expr, Keeps (Expr.renderElse d g e) (Expr.renderElse d h (Expr.trimOption e))
  | none => .refl _
  | some e => (Expr.keeps_render_trim hgh e).bind_left _
termination_by structural e => e

/-- Trimmed branches keep their text, if the queries in them do. -/
theorem Branch.keeps_renderAll_trim (hgh : ∀ q : Query, Keeps (g q) (h q.trim)) :
    ∀ branches : List Branch,
      Keeps (Branch.renderAll d g branches) (Branch.renderAll d h (Branch.trimAll branches))
  | [] => .refl _
  | ⟨condition, result⟩ :: branches =>
    (Expr.keeps_render_trim hgh condition).bind fun _ =>
      (Expr.keeps_render_trim hgh result).bind fun _ =>
        (Branch.keeps_renderAll_trim hgh branches).bind_left _
termination_by structural branches => branches

/-- Trimmed order keys keep their texts, if the queries in them do. -/
theorem OrderKey.keeps_renderAll_trim (hgh : ∀ q : Query, Keeps (g q) (h q.trim)) :
    ∀ keys : List OrderKey,
      Keeps (OrderKey.renderAll d g keys) (OrderKey.renderAll d h (OrderKey.trimAll keys))
  | [] => .refl _
  | ⟨e, _, _⟩ :: keys =>
    (Expr.keeps_render_trim hgh e).bind fun _ =>
      (OrderKey.keeps_renderAll_trim hgh keys).bind_left _
termination_by structural keys => keys

end

end Rendering

section Lowering

variable {d : Dialect} {scope : Scope}

/-- Without the stages that group by nothing, the query has the statement that it had, up to the
queries in its expressions. -/
def Query.LowersTrimmed (d : Dialect) (q : Query) : Prop :=
  ∀ s : Statement, q.lower d = .ok s → q.trim.lower d = .ok (s.mapExprs Expr.trim)

/-- A query that is lowered as before when trimmed is so for its rows, too. -/
theorem Query.LowersTrimmed.rows {q : Query} (hq : q.LowersTrimmed d) {s : Statement}
    (h : q.lowerRows d = .ok s) : q.trim.lowerRows d = .ok (s.mapExprs Expr.trim) := by
  obtain ⟨hs, hform⟩ := Query.lowerRows_eq_ok.mp h
  exact Query.lowerRows_eq_ok.mpr ⟨hq s hs, by rw [Statement.form_mapExprs, hform]⟩

/-- What is joined is lowered as before when trimmed. -/
theorem JoinTarget.lower_trim {target : JoinTarget Query} {condition : Option Expr}
    {kind : JoinKind} (hbodies : ∀ q ∈ (Stage.join target condition kind).bodies, q.LowersTrimmed d)
    {target' : JoinTarget Statement} (h : JoinTarget.lower d target = .ok target') :
    JoinTarget.lower d (JoinTarget.trim target) = .ok (JoinTarget.mapExprs Expr.trim target') := by
  cases target with
  | table name =>
    cases h
    rfl
  | lateral body name =>
    have hbody := hbodies body (by simp [Stage.bodies])
    obtain ⟨hd, body', hbody', rfl⟩ := JoinTarget.lower_lateral.mp h
    exact JoinTarget.lower_lateral.mpr ⟨hd, _, hbody.rows hbody', rfl⟩

/-- A trimmed stage adds what the stage adds, trimmed. -/
theorem Stage.addition_trim {stage : Stage} (hbodies : ∀ q ∈ stage.bodies, q.LowersTrimmed d)
    {a : Option Addition} (h : stage.addition d scope = .ok a) :
    stage.trim.addition d scope = .ok (a.map (Addition.mapExprs Expr.trim)) := by
  cases stage with
  | filter e | having e | limit e | offset e =>
    exact Expr.resolve_bind_trim h fun _ => rfl
  | join target condition kind =>
    simp only [Stage.addition, bind_eq_ok, pure_eq_ok] at h
    obtain ⟨_, hcheck, condition', hcondition, target', htarget, rfl⟩ := h
    simp only [Stage.trim, Expr.trimOption_eq, Stage.addition, bind_eq_ok, pure_eq_ok]
    refine ⟨(), ?_, _, Scope.resolveOption_trim hcondition, _,
      JoinTarget.lower_trim hbodies htarget, rfl⟩
    rw [JoinKind.check_eq_ok] at hcheck ⊢
    simpa using hcheck
  | select shape items =>
    cases items with
    | nil => cases h
    | cons item items =>
      obtain ⟨items', hitems, hpure⟩ := bind_eq_ok.mp h
      cases hpure
      rw [Stage.trim, SelectItem.trimAll_eq]
      exact bind_eq_ok.mpr ⟨_, Scope.resolveItems_trim hitems, rfl⟩
  | orderBy keys =>
    cases keys with
    | nil => cases h
    | cons key keys =>
      obtain ⟨keys', hkeys, hpure⟩ := bind_eq_ok.mp h
      cases hpure
      rw [Stage.trim, OrderKey.trimAll_eq]
      exact bind_eq_ok.mpr ⟨_, Scope.resolveKeys_trim hkeys, rfl⟩
  | groupBy keys =>
    cases keys with
    | nil =>
      cases h
      rfl
    | cons key keys =>
      obtain ⟨keys', hkeys, hpure⟩ := bind_eq_ok.mp h
      cases hpure
      rw [Stage.trim, Expr.trimAll_eq]
      exact bind_eq_ok.mpr ⟨_, Scope.resolveAll_trim hkeys, rfl⟩
  | _ =>
    cases h
    rfl

/-- Whether rows fit does not depend on their values. -/
theorem RowsFit.map {columns : List String} {rows : List (List Expr)} (h : RowsFit columns rows)
    (f : Expr → Expr) : RowsFit columns (rows.map (List.map f)) := by
  unfold RowsFit at h ⊢
  simpa using h

/-- Items that can be returned can be so after trimming. -/
theorem Statement.addReturning_trim {items : List SelectItem} {kind kind' : QueryKind}
    {s s' : Statement} (h : s.addReturning items kind = .ok s') :
    (s.mapExprs Expr.trim).addReturning (items.map (SelectItem.mapExpr Expr.trim)) kind' =
      .ok (s'.mapExprs Expr.trim) := by
  rw [Statement.addReturning_eq_ok] at h ⊢
  rcases h with ⟨i, rfl, hr, rfl⟩ | ⟨u, rfl, hr, rfl⟩ | ⟨x, rfl, hr, rfl⟩
  · refine .inl ⟨_, rfl, ?_, ?_⟩
    · simp [Insert.mapExprs_eq, hr]
    · simp [Statement.mapExprs, Insert.mapExprs_eq]
  · exact .inr (.inl ⟨_, rfl, by simp [Update.mapExprs, hr], rfl⟩)
  · exact .inr (.inr ⟨_, rfl, by simp [Delete.mapExprs, hr], rfl⟩)

/-- A stage upon the trimmed source does what it did upon the source. The kind of the source may be
another one, but that is only told when the stage cannot stand there. -/
theorem Stage.lower_trim {stage : Stage} (hbodies : ∀ q ∈ stage.bodies, q.LowersTrimmed d)
    {source source' : Source} (hname : source'.derivedName = source.derivedName)
    (hsource : ∀ s, source.statement = .ok s → source'.statement = .ok (s.mapExprs Expr.trim))
    {s : Statement} (h : stage.lower d scope source = .ok s) :
    stage.trim.lower d scope source' = .ok (s.mapExprs Expr.trim) := by
  have hkind : stage.trim.kind = stage.kind := by cases stage <;> rfl
  cases hrow : stage.kind.isRowStage with
  | true =>
    obtain ⟨a, s₀, ha, hs₀, hform, rfl⟩ := (Stage.lower_rowStage_eq_ok hrow).mp h
    rw [← hkind] at hrow
    rw [Stage.lower_rowStage_eq_ok hrow, Statement.mapExprs_extend, hname]
    exact ⟨_, _, Stage.addition_trim hbodies ha, hsource s₀ hs₀,
      by rw [Statement.form_mapExprs, hform], rfl⟩
  | false =>
    cases stage with
    | values rows =>
      obtain ⟨i, rows', hi, hr, hnone, hcheck, hrows, rfl⟩ := Stage.lower_values.mp h
      have hfit := (Insert.checkRows_eq_ok.mp hcheck).map Expr.trim
      rw [Stage.trim, Expr.trimRows_eq, Stage.lower_values]
      refine ⟨i.mapExprs Expr.trim, _, hsource _ hi, by simp [Insert.mapExprs_eq, hr],
        by simp [Insert.mapExprs_eq, hnone], ?_, Scope.resolveRows_trim hrows, ?_⟩
      · exact Insert.checkRows_eq_ok.mpr (by simpa [Insert.mapExprs_eq] using hfit)
      · simp [Statement.mapExprs, Insert.mapExprs_eq, InsertSource.mapExprs]
    | insertSelect rows =>
      obtain ⟨i, body, hi, hr, hnone, hbody, rfl⟩ := Stage.lower_insertSelect.mp h
      have hrows := (hbodies rows (by simp [Stage.bodies])).rows hbody
      rw [Stage.trim, Stage.lower_insertSelect]
      refine ⟨i.mapExprs Expr.trim, _, hsource _ hi, by simp [Insert.mapExprs_eq, hr],
        by simp [Insert.mapExprs_eq, hnone], hrows, ?_⟩
      simp [Statement.mapExprs, Insert.mapExprs_eq, InsertSource.mapExprs]
    | onConflict target action =>
      obtain ⟨hd, i, action', hi, hr, hsome, hupsert, haction, rfl⟩ := Stage.lower_onConflict.mp h
      rw [Stage.trim, ConflictAction.trim_eq, Stage.lower_onConflict]
      refine ⟨hd, i.mapExprs Expr.trim, _, hsource _ hi, by simp [Insert.mapExprs_eq, hr],
        by simpa [Insert.mapExprs_eq] using hsome, by simp [Insert.mapExprs_eq, hupsert],
        ConflictAction.resolve_trim haction, ?_⟩
      rw [Statement.mapExprs, Insert.mapExprs_guardJoin rfl]
      simp [Insert.mapExprs_eq, Upsert.mapExprs]
    | set assignments =>
      obtain ⟨hne, u, assignments', hu, hr, hfilters, hassignments, rfl⟩ := Stage.lower_set.mp h
      rw [Stage.trim, Assignment.trimAll_eq, Stage.lower_set]
      exact ⟨by simpa using hne, u.mapExprs Expr.trim, _, hsource _ hu,
        by simp [Update.mapExprs, hr], by simp [Update.mapExprs, hfilters],
        Scope.resolveAssignments_trim hassignments, by simp [Statement.mapExprs, Update.mapExprs]⟩
    | updateWhere predicate =>
      obtain ⟨u, predicate', hu, hr, hpredicate, rfl⟩ := Stage.lower_updateWhere.mp h
      rw [Stage.trim, Stage.lower_updateWhere]
      exact ⟨u.mapExprs Expr.trim, _, hsource _ hu, by simp [Update.mapExprs, hr],
        Expr.resolve_trim hpredicate, by simp [Statement.mapExprs, Update.mapExprs]⟩
    | deleteWhere predicate =>
      obtain ⟨x, predicate', hx, hr, hpredicate, rfl⟩ := Stage.lower_deleteWhere.mp h
      rw [Stage.trim, Stage.lower_deleteWhere]
      exact ⟨x.mapExprs Expr.trim, _, hsource _ hx, by simp [Delete.mapExprs, hr],
        Expr.resolve_trim hpredicate, by simp [Statement.mapExprs, Delete.mapExprs]⟩
    | returning shape items =>
      obtain ⟨hd, hne, items', s₀, hitems, hs₀, hadd⟩ := Stage.lower_returning.mp h
      rw [Stage.trim, SelectItem.trimAll_eq, Stage.lower_returning]
      exact ⟨hd, by simpa using hne, _, _, Scope.resolveItems_trim hitems, hsource s₀ hs₀,
        Statement.addReturning_trim hadd⟩
    | _ => cases hrow

/-- A stage is lowered as before when trimmed, if what it follows and the queries it holds are. -/
theorem Query.LowersTrimmed.step {source : Query} {stage : Stage} (hsource : source.LowersTrimmed d)
    (hbodies : ∀ q ∈ stage.bodies, q.LowersTrimmed d) :
    (Query.step source stage).LowersTrimmed d := by
  intro s hs
  cases hempty : stage.isEmptyGrouping with
  | true =>
    obtain rfl := Stage.isEmptyGrouping_iff.mp hempty
    exact hsource s (Source.rows_eq_ok.mp hs).1
  | false =>
    rw [Query.trim_step hempty, Query.lower, ← Query.trim_step hempty, Query.scope_trim]
    refine Stage.lower_trim hbodies ?_ ?_ hs
    · exact congrArg Scope.derivedName source.scope_trim
    · exact hsource

mutual

/-- Every query is lowered as before when trimmed. -/
theorem Query.lowersTrimmed (d : Dialect) : ∀ q : Query, q.LowersTrimmed d
  | .table _ | .insertInto .. | .update _ | .deleteFrom _ => by
    intro s hs
    cases hs
    rfl
  | .setOperation op all left right => by
    intro s hs
    have hleft := Query.lowersTrimmed d left
    have hright := Query.lowersTrimmed d right
    obtain ⟨hall, left', right', hleft', hright', rfl⟩ := Query.lower_setOperation.mp hs
    exact Query.lower_setOperation.mpr ⟨hall, _, _, hleft.rows hleft', hright.rows hright', rfl⟩
  | .withCtes recursive ctes main => by
    intro s hs
    have hctes := Cte.lowerAll_trim d ctes
    have hmain := Query.lowersTrimmed d main
    obtain ⟨hd, hne, ctes', body, hctes', hbody, rfl⟩ := Query.lower_withCtes.mp hs
    have hne' : Cte.trimAll ctes ≠ [] := by
      cases ctes with
      | nil => exact absurd rfl hne
      | cons cte ctes => simp [Cte.trimAll]
    exact Query.lower_withCtes.mpr ⟨hd, hne', _, _, hctes ctes' hctes', hmain body hbody, rfl⟩
  | .step source stage =>
    (Query.lowersTrimmed d source).step (Stage.lowersTrimmed_bodies d stage)
termination_by structural q => q

/-- The entries of a WITH are lowered as before when trimmed. -/
theorem Cte.lowerAll_trim (d : Dialect) : ∀ ctes : List (Cte Query), ∀ ctes',
    Cte.lowerAll d ctes = .ok ctes' →
      Cte.lowerAll d (Cte.trimAll ctes) = .ok (Cte.mapExprs Expr.trim ctes')
  | [], _, h => by
    cases h
    rfl
  | ⟨name, columns, body⟩ :: ctes, _, h => by
    have hbody := Query.lowersTrimmed d body
    have hctes := Cte.lowerAll_trim d ctes
    simp only [Cte.lowerAll, bind_eq_ok, pure_eq_ok] at h
    obtain ⟨body', hbody', ctes', hctes', rfl⟩ := h
    simp only [Cte.trimAll, Cte.lowerAll, bind_eq_ok, pure_eq_ok]
    exact ⟨_, hbody body' hbody', _, hctes ctes' hctes', rfl⟩
termination_by structural ctes => ctes

/-- The query of a lateral join is lowered as before when trimmed. -/
theorem JoinTarget.lowersTrimmed_body (d : Dialect) : ∀ (target : JoinTarget Query) {body name},
    target = .lateral body name → body.LowersTrimmed d
  | .table _, _, _, heq => by cases heq
  | .lateral body _, _, _, heq => by
    cases heq
    exact Query.lowersTrimmed d body
termination_by structural target => target

/-- The queries that a stage holds are lowered as before when trimmed. -/
theorem Stage.lowersTrimmed_bodies (d : Dialect) : ∀ stage : Stage,
    ∀ q ∈ stage.bodies, q.LowersTrimmed d
  | .join target condition kind, q, hq => by
    have hbody {body : Query} {name : String} (heq : target = .lateral body name) :
        body.LowersTrimmed d := JoinTarget.lowersTrimmed_body d target heq
    cases target with
    | table _ => cases hq
    | lateral body name =>
      cases List.mem_singleton.mp hq
      exact hbody rfl
  | .insertSelect rows, q, hq => by
    cases List.mem_singleton.mp hq
    exact Query.lowersTrimmed d rows
  | .filter _, _, hq | .select .., _, hq | .orderBy _, _, hq | .limit _, _, hq
  | .offset _, _, hq | .distinct, _, hq | .groupBy _, _, hq | .having _, _, hq
  | .values _, _, hq | .onConflict .., _, hq | .set _, _, hq | .updateWhere _, _, hq
  | .deleteWhere _, _, hq | .returning .., _, hq => by
    cases hq
termination_by structural stage => stage

end

/-- A trimmed query keeps its text, whatever the bound on its nesting. -/
theorem Query.keeps_renderRows_trim (d : Dialect) (limit : Nat) (q : Query) :
    Keeps (Query.renderRows d limit q) (Query.renderRows d limit q.trim) := by
  induction limit generalizing q with
  | zero => exact keeps_error _ _
  | succ limit ih =>
    intro tokens h
    obtain ⟨s, hs, htokens⟩ := bind_eq_ok.mp h
    refine bind_eq_ok.mpr ⟨_, (Query.lowersTrimmed d q).rows hs, ?_⟩
    exact Statement.keeps_render_map (Expr.keeps_render_trim ih) s tokens htokens

/-- A trimmed query keeps its text. -/
theorem Query.keeps_render_trim (d : Dialect) (q : Query) :
    Keeps (q.render d) (q.trim.render d) := by
  have hexprs : KeepsTexts d Expr.trim (Query.renderRows d q.depth) (Query.renderRows d q.depth) :=
    Expr.keeps_render_trim (Query.keeps_renderRows_trim d q.depth)
  intro tokens h
  obtain ⟨s, hs, htokens⟩ := bind_eq_ok.mp h
  refine bind_eq_ok.mpr ⟨_, Query.lowersTrimmed d q s hs, ?_⟩
  rw [Query.depth_trim]
  exact Statement.keeps_render_map hexprs s tokens htokens

end Lowering

section Nodes

/-- The node is a stage that groups by nothing. -/
def Node.isEmptyGrouping : Node → Bool
  | .stage _ added => added.isEmptyGrouping
  | _ => false

/-- Trimming does not make a stage that groups by nothing. -/
theorem Stage.isEmptyGrouping_trim (stage : Stage) :
    stage.trim.isEmptyGrouping = stage.isEmptyGrouping := by
  cases stage with
  | groupBy keys => cases keys <;> rfl
  | _ => rfl

mutual

/-- No node of a trimmed expression groups by nothing. -/
theorem Expr.any_nodes_trim (scope : Scope) : ∀ e : Expr,
    (e.trim.nodes scope).any Node.isEmptyGrouping = false
  | .column .. | .placeholder _ | .literal _ | .parameter .. | .wildcard => rfl
  | .binary _ left right => by
    simp [Expr.trim, Expr.nodes, Node.isEmptyGrouping, Expr.any_nodes_trim scope left,
      Expr.any_nodes_trim scope right]
  | .unary _ operand | .cast operand _ => by
    simp [Expr.trim, Expr.nodes, Node.isEmptyGrouping, Expr.any_nodes_trim scope operand]
  | .call _ args _ => by
    simp [Expr.trim, Expr.nodes, Node.isEmptyGrouping, Expr.any_nodesAll_trim scope args]
  | .between subject low high _ => by
    simp [Expr.trim, Expr.nodes, Node.isEmptyGrouping, Expr.any_nodes_trim scope subject,
      Expr.any_nodes_trim scope low, Expr.any_nodes_trim scope high]
  | .inList subject values _ => by
    simp [Expr.trim, Expr.nodes, Node.isEmptyGrouping, Expr.any_nodes_trim scope subject,
      Expr.any_nodesAll_trim scope values]
  | .subquery query | .existence query _ => by
    simp [Expr.trim, Expr.nodes, Node.isEmptyGrouping, Query.any_nodes_trim query]
  | .choice branches otherwise => by
    simp [Expr.trim, Expr.nodes, Node.isEmptyGrouping, Branch.any_nodesAll_trim scope branches,
      Expr.any_nodesOption_trim scope otherwise]
  | .window _ args partition order _ => by
    simp [Expr.trim, Expr.nodes, Node.isEmptyGrouping, Expr.any_nodesAll_trim scope args,
      Expr.any_nodesAll_trim scope partition, OrderKey.any_nodesAll_trim scope order]
termination_by structural e => e

/-- No node of a trimmed list groups by nothing. -/
theorem Expr.any_nodesAll_trim (scope : Scope) : ∀ es : List Expr,
    (Expr.nodesAll scope (Expr.trimAll es)).any Node.isEmptyGrouping = false
  | [] => rfl
  | e :: es => by
    simp [Expr.trimAll, Expr.nodesAll, Expr.any_nodes_trim scope e, Expr.any_nodesAll_trim scope es]
termination_by structural es => es

/-- No node of a trimmed expression that may be missing groups by nothing. -/
theorem Expr.any_nodesOption_trim (scope : Scope) : ∀ e : Option Expr,
    (Expr.nodesOption scope (Expr.trimOption e)).any Node.isEmptyGrouping = false
  | none => rfl
  | some e => Expr.any_nodes_trim scope e
termination_by structural e => e

/-- No node of trimmed rows groups by nothing. -/
theorem Expr.any_nodesRows_trim (scope : Scope) : ∀ rows : List (List Expr),
    (Expr.nodesRows scope (Expr.trimRows rows)).any Node.isEmptyGrouping = false
  | [] => rfl
  | row :: rows => by
    simp [Expr.trimRows, Expr.nodesRows, Expr.any_nodesAll_trim scope row,
      Expr.any_nodesRows_trim scope rows]
termination_by structural rows => rows

/-- No node of trimmed branches groups by nothing. -/
theorem Branch.any_nodesAll_trim (scope : Scope) : ∀ branches : List Branch,
    (Branch.nodesAll scope (Branch.trimAll branches)).any Node.isEmptyGrouping = false
  | [] => rfl
  | ⟨condition, result⟩ :: branches => by
    simp [Branch.trimAll, Branch.nodesAll, Expr.any_nodes_trim scope condition,
      Expr.any_nodes_trim scope result, Branch.any_nodesAll_trim scope branches]
termination_by structural branches => branches

/-- No node of trimmed order keys groups by nothing. -/
theorem OrderKey.any_nodesAll_trim (scope : Scope) : ∀ keys : List OrderKey,
    (OrderKey.nodesAll scope (OrderKey.trimAll keys)).any Node.isEmptyGrouping = false
  | [] => rfl
  | ⟨e, _, _⟩ :: keys => by
    simp [OrderKey.trimAll, OrderKey.nodesAll, Expr.any_nodes_trim scope e,
      OrderKey.any_nodesAll_trim scope keys]
termination_by structural keys => keys

/-- No node of trimmed items groups by nothing. -/
theorem SelectItem.any_nodesAll_trim (scope : Scope) : ∀ items : List SelectItem,
    (SelectItem.nodesAll scope (SelectItem.trimAll items)).any Node.isEmptyGrouping = false
  | [] => rfl
  | ⟨e, _⟩ :: items => by
    simp [SelectItem.trimAll, SelectItem.nodesAll, Expr.any_nodes_trim scope e,
      SelectItem.any_nodesAll_trim scope items]
termination_by structural items => items

/-- No node of trimmed assignments groups by nothing. -/
theorem Assignment.any_nodesAll_trim (scope : Scope) : ∀ assignments : List Assignment,
    (Assignment.nodesAll scope (Assignment.trimAll assignments)).any Node.isEmptyGrouping = false
  | [] => rfl
  | ⟨_, e⟩ :: assignments => by
    simp [Assignment.trimAll, Assignment.nodesAll, Expr.any_nodes_trim scope e,
      Assignment.any_nodesAll_trim scope assignments]
termination_by structural assignments => assignments

/-- No node of a trimmed action upon a conflict groups by nothing. -/
theorem ConflictAction.any_nodes_trim (scope : Scope) : ∀ action : ConflictAction,
    (action.trim.nodes scope).any Node.isEmptyGrouping = false
  | .doNothing => rfl
  | .doUpdate assignments => Assignment.any_nodesAll_trim scope assignments
termination_by structural action => action

/-- No node of what is joined groups by nothing, once trimmed. -/
theorem JoinTarget.any_nodes_trim : ∀ target : JoinTarget Query,
    (JoinTarget.nodes (JoinTarget.trim target)).any Node.isEmptyGrouping = false
  | .table _ => rfl
  | .lateral body _ => Query.any_nodes_trim body
termination_by structural target => target

/-- No node of the trimmed entries of a WITH groups by nothing. -/
theorem Cte.any_nodesAll_trim : ∀ ctes : List (Cte Query),
    (Cte.nodesAll (Cte.trimAll ctes)).any Node.isEmptyGrouping = false
  | [] => rfl
  | ⟨_, _, body⟩ :: ctes => by
    simp [Cte.trimAll, Cte.nodesAll, Node.isEmptyGrouping, Query.any_nodes_trim body,
      Cte.any_nodesAll_trim ctes]
termination_by structural ctes => ctes

/-- No node of a trimmed stage groups by nothing. -/
theorem Stage.any_nodes_trim (scope : Scope) : ∀ stage : Stage,
    (stage.trim.nodes scope).any Node.isEmptyGrouping = false
  | .filter e | .limit e | .offset e | .having e | .updateWhere e | .deleteWhere e =>
    Expr.any_nodes_trim scope e
  | .join target condition _ => by
    simp [Stage.trim, Stage.nodes, JoinTarget.any_nodes_trim target,
      Expr.any_nodesOption_trim scope condition]
  | .select _ items | .returning _ items => SelectItem.any_nodesAll_trim scope items
  | .orderBy keys => OrderKey.any_nodesAll_trim scope keys
  | .distinct => rfl
  | .groupBy keys => Expr.any_nodesAll_trim scope keys
  | .values rows => Expr.any_nodesRows_trim scope rows
  | .insertSelect rows => Query.any_nodes_trim rows
  | .onConflict _ action => ConflictAction.any_nodes_trim scope action
  | .set assignments => Assignment.any_nodesAll_trim scope assignments
termination_by structural stage => stage

/-- No stage of the trimmed query groups by nothing, at whatever depth. -/
theorem Query.any_nodes_trim : ∀ q : Query, q.trim.nodes.any Node.isEmptyGrouping = false
  | .table _ | .insertInto .. | .update _ | .deleteFrom _ => rfl
  | .setOperation _ _ left right => by
    simp [Query.trim, Query.nodes, Node.isEmptyGrouping, Query.any_nodes_trim left,
      Query.any_nodes_trim right]
  | .withCtes _ ctes main => by
    simp [Query.trim, Query.nodes, Node.isEmptyGrouping, Cte.any_nodesAll_trim ctes,
      Query.any_nodes_trim main]
  | .step source stage => by
    have hsource := Query.any_nodes_trim source
    have hstage := Stage.any_nodes_trim (Query.step source.trim stage.trim).scope stage
    cases hempty : stage.isEmptyGrouping with
    | true =>
      obtain rfl := Stage.isEmptyGrouping_iff.mp hempty
      exact hsource
    | false =>
      simp [Query.trim_step hempty, Query.nodes, Node.isEmptyGrouping, hsource, hstage,
        Stage.isEmptyGrouping_trim, hempty]
termination_by structural q => q

end

end Nodes

/-- **Grouping by nothing is invisible.** A query that compiles has the same plan without the stages
that group by nothing, which are then gone from it everywhere. -/
theorem compile_trim {d : Dialect} {q : Query} {plan : Plan} (h : q.compile d = .ok plan) :
    q.trim.compile d = .ok plan ∧ q.trim.nodes.any Node.isEmptyGrouping = false := by
  obtain ⟨tokens, htokens, hplan⟩ := bind_eq_ok.mp h
  exact ⟨bind_eq_ok.mpr ⟨tokens, q.keeps_render_trim d tokens htokens, hplan⟩, q.any_nodes_trim⟩

/-- An insertion of rows from a WITH, a lateral, a set operation and a query in an expression, with
something done at many places of it. -/
def Query.insertionWith (act : Query → Query) : Query :=
  let latest := act ((act (table "logins")).limit (.literal (.int 1)))
  let known := act (.setOperation .union false (act (table "a")) (act (table "b")))
  let rows := (act ((table "users").limit (.literal (.int 9)))).filter (.existence known false)
  .withCtes false [⟨"users", [], act (table "people")⟩]
    (.step (.step (.insertInto "copies" ["id"])
        (.insertSelect (act (.step (act rows) (.join (.lateral latest "l") none .cross)))))
      (.onConflict ["id"] .doNothing))

/-- Grouping by nothing at all those places leaves the plan of the insertion as it is. -/
theorem compile_trim_insertionWith :
    ∃ plan, (Query.insertionWith fun q => .step q (.groupBy [])).compile Profile.postgres.dialect =
        .ok plan ∧
      (Query.insertionWith id).compile Profile.postgres.dialect = .ok plan ∧
      (Query.insertionWith id).nodes.any Node.isEmptyGrouping = false := by
  have hplan : (Query.insertionWith fun q => .step q (.groupBy [])).compile
      Profile.postgres.dialect = .ok _ := rfl
  exact ⟨_, hplan, compile_trim hplan⟩

end SqlAlgebra
