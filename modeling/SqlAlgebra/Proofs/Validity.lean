import SqlAlgebra.Proofs.Pipelines
import SqlAlgebra.Proofs.Resolution
import SqlAlgebra.Proofs.Writing

/-!
# Valid queries

What a dialect asks of a query is asked node by node: each node has a condition of its own, which
looks at nothing but the node. An expression can be resolved and written exactly if all of its nodes
meet their conditions.
-/

namespace SqlAlgebra

/-- The columns that an insertion names. -/
def Query.columns : Query → List String
  | .insertInto _ columns => columns
  | _ => []

/-- There are rows, and each has a value for every column; where no columns are named, all rows have
equally many values. -/
def RowsFit (columns : List String) (rows : List (List Expr)) : Prop :=
  rows ≠ [] ∧
    if columns = [] then ∀ row ∈ rows, ∀ row' ∈ rows, row.length = row'.length
    else ∀ row ∈ rows, row.length = columns.length

/-- What is joined is a query that sees what stands before it. -/
def JoinTarget.IsLateral {β : Type} (target : JoinTarget β) : Prop :=
  ∃ body name, target = .lateral body name

/-- The action has something to do, and names the columns that conflict where the dialect needs
them. -/
def ConflictAction.Allowed (d : Dialect) (target : List String) : ConflictAction → Prop
  | .doNothing => True
  | .doUpdate assignments => assignments ≠ [] ∧ (d.upsert = some .onConflict → target ≠ [])

/-- What is asked of an expression, apart from those in it. -/
def Expr.Allowed (d : Dialect) (scope : Scope) : Expr → Prop
  | .placeholder _ => ∃ table, scope = .table table
  | .literal value => value.isFinite = true
  | .binary op _ _ => d.operator? op ≠ none
  | .inList _ values _ => values ≠ []
  | .cast _ type => d.typeName? type ≠ none
  | .choice branches _ => branches ≠ []
  | .window .. => d.supports .window = true
  | .column .. | .parameter .. | .unary .. | .call .. | .between .. | .subquery _ | .existence ..
  | .wildcard => True

/-- What is asked of a stage above a root, apart from its expressions. -/
def Stage.Allowed (d : Dialect) (root : Query) : Stage → Prop
  | .join target condition kind =>
    (kind = .cross ↔ condition = none) ∧ d.supportsJoin kind = true ∧
      (target.IsLateral → d.supports .lateral = true)
  | .select _ items => items ≠ []
  | .orderBy keys => keys ≠ []
  | .values rows => RowsFit root.columns rows
  | .onConflict target action =>
    d.supports .upsert = true ∧ d.upsert ≠ none ∧ action.Allowed d target
  | .set assignments => assignments ≠ []
  | .returning _ items => d.supports .returning = true ∧ items ≠ []
  | .filter _ | .limit _ | .offset _ | .distinct | .groupBy _ | .having _ | .insertSelect _
  | .updateWhere _ | .deleteWhere _ => True

/-- What is asked of a root. -/
def Query.RootAllowed (d : Dialect) : Query → Prop
  | .setOperation op all _ _ => all = true → d.supportsSetAll op = true
  | .withCtes _ ctes _ => d.supports .cte = true ∧ ctes ≠ []
  | _ => True

/-- The condition of a node. A whole query has its stages in a sequence that makes one, and gives
rows where it is read for them. -/
def Node.Allowed (d : Dialect) : Node → Prop
  | .query rows q => Pipeline q.kinds.reverse ∧ (rows = true → q.startsWithRows = true)
  | .root q => q.RootAllowed d
  | .stage base added => added.Allowed d base
  | .expr scope e => e.Allowed d scope

/-- The query with all that is in it meets the conditions of the dialect. -/
def Query.Valid (d : Dialect) (q : Query) : Prop := ∀ n ∈ Node.query false q :: q.nodes, n.Allowed d

/-- The same for a query that is read for its rows. -/
def Query.ValidRows (d : Dialect) (q : Query) : Prop :=
  ∀ n ∈ Node.query true q :: q.nodes, n.Allowed d

/-- A query is allowed where rows are needed if it gives rows. -/
theorem Node.allowed_query_true {d : Dialect} {q : Query} :
    (Node.query true q).Allowed d ↔ q.form? = some .rows := by
  simp [Node.Allowed, Query.form?_eq_rows_iff]

/-- A query is allowed on its own if it has a complete form. -/
theorem Node.allowed_query_false {d : Dialect} {q : Query} :
    (Node.query false q).Allowed d ↔ ∃ f, q.form? = some f ∧ f.isComplete = true := by
  simp [Node.Allowed, Query.pipeline_kinds_iff]

section Rendering

variable {d : Dialect} {nested : Query → Rendered} {reason : String}

/-- A value can be written if it is finite. -/
theorem Value.succeeds_render {value : Value} :
    Succeeds (value.render d) ↔ value.isFinite = true := by
  cases value with
  | float x => cases hx : x.isFinite <;> simp [Value.render, Value.isFinite, hx]
  | _ => simp [Value.render, Value.isFinite]

mutual

/-- Where there are no placeholders, an expression can be written exactly if its nodes meet their
conditions. -/
theorem Expr.writable_iff_ambiguous : ∀ {e : Expr},
    (∀ q ∈ e.queries, Succeeds (nested q) ↔ q.ValidRows d) →
      (e.Writable d nested ↔ ∀ n ∈ e.nodes (.ambiguous reason), n.Allowed d)
  | .column .., _ | .parameter .., _ | .wildcard, _ => by
    simp [Expr.Writable, Expr.render, Expr.nodes, Node.Allowed, Expr.Allowed]
  | .placeholder _, _ => by
    simp [Expr.Writable, Expr.render, Expr.nodes, Node.Allowed, Expr.Allowed]
  | .literal value, _ => by
    simp [Expr.Writable, Expr.render, Expr.nodes, Node.Allowed, Expr.Allowed,
      Value.succeeds_render]
  | .binary op left right, hq => by
    simp only [Expr.queries, List.forall_mem_append] at hq
    have hleft := Expr.writable_iff_ambiguous hq.1
    have hright := Expr.writable_iff_ambiguous hq.2
    simp only [Expr.Writable] at hleft hright
    cases hop : d.operator? op with
    | none => simp [Expr.Writable, Expr.render, Expr.nodes, Node.Allowed, Expr.Allowed, hop]
    | some entry =>
      simp only [Expr.Writable, Expr.render, hop, succeeds_bind, succeeds_pure, and_true,
        exists_and_right, exists_eq_ok, Expr.nodes, List.forall_mem_cons, List.forall_mem_append,
        Node.Allowed, Expr.Allowed, hleft, hright]
      simp
  | .unary op operand, hq => by
    have hoperand := Expr.writable_iff_ambiguous (e := operand) hq
    simp only [Expr.Writable] at hoperand
    simp only [Expr.Writable, Expr.render, succeeds_bind, succeeds_pure, and_true, exists_eq_ok,
      Expr.nodes, List.forall_mem_cons, Node.Allowed, Expr.Allowed, hoperand, true_and]
  | .call name args distinct, hq => by
    have hq : ∀ q ∈ Expr.queriesAll args, Succeeds (nested q) ↔ q.ValidRows d := hq
    have hargs := Expr.writableAll_iff_ambiguous hq
    simp only [Expr.Writable, Expr.render, succeeds_bind, succeeds_pure, and_true, exists_eq_ok,
      Expr.nodes, List.forall_mem_cons, Node.Allowed, Expr.Allowed, hargs, true_and]
  | .between subject low high negated, hq => by
    simp only [Expr.queries, List.forall_mem_append] at hq
    have hsubject := Expr.writable_iff_ambiguous hq.1.1
    have hlow := Expr.writable_iff_ambiguous hq.1.2
    have hhigh := Expr.writable_iff_ambiguous hq.2
    simp only [Expr.Writable] at hsubject hlow hhigh
    simp only [Expr.Writable, Expr.render, succeeds_bind, succeeds_pure, and_true,
      exists_and_right, exists_eq_ok, Expr.nodes, List.forall_mem_cons, List.forall_mem_append,
      Node.Allowed, Expr.Allowed, hsubject, hlow, hhigh, true_and, and_assoc]
  | .inList subject [] negated, _ => by
    simp [Expr.Writable, Expr.render, Expr.nodes, Node.Allowed, Expr.Allowed]
  | .cast operand type, hq => by
    have hoperand := Expr.writable_iff_ambiguous (e := operand) hq
    simp only [Expr.Writable] at hoperand
    cases htype : d.typeName? type with
    | none => simp [Expr.Writable, Expr.render, Expr.nodes, Node.Allowed, Expr.Allowed, htype]
    | some name =>
      simp only [Expr.Writable, Expr.render, htype, succeeds_bind, succeeds_pure, and_true,
        exists_eq_ok, Expr.nodes, List.forall_mem_cons, Node.Allowed, Expr.Allowed, hoperand]
      simp
  | .subquery query, hq | .existence query _, hq => by
    have hquery := hq query (by simp [Expr.queries])
    simp only [Expr.Writable, Expr.render, succeeds_bind, succeeds_pure, and_true, exists_eq_ok,
      Expr.nodes, List.forall_mem_cons, Node.Allowed, Expr.Allowed, hquery, Query.ValidRows,
      true_and]
  | .choice [] _, _ => by
    simp [Expr.Writable, Expr.render, Expr.nodes, Node.Allowed, Expr.Allowed]
  | .choice (branch :: branches) otherwise, hq => by
    simp only [Expr.queries, List.forall_mem_append] at hq
    have hbranches := Branch.writableAll_iff_ambiguous hq.1
    have hotherwise := Expr.writableElse_iff_ambiguous hq.2
    simp only [Expr.Writable, Expr.render, succeeds_bind, succeeds_pure, and_true,
      exists_and_right, exists_eq_ok, Expr.nodes, List.forall_mem_cons, List.forall_mem_append,
      Node.Allowed, Expr.Allowed, hbranches, hotherwise]
    simp
  | .window name args partition order frame, hq => by
    simp only [Expr.queries, List.forall_mem_append] at hq
    have hargs := Expr.writableAll_iff_ambiguous hq.1.1
    have hpartition := Expr.writableAll_iff_ambiguous hq.1.2
    have horder := OrderKey.writableAll_iff_ambiguous hq.2
    cases hwindow : d.supports .window with
    | false =>
      simp [Expr.Writable, Expr.render, Expr.nodes, Node.Allowed, Expr.Allowed, hwindow]
    | true =>
      simp only [Expr.Writable, Expr.render, hwindow, if_true, succeeds_bind, succeeds_pure,
        and_true, exists_and_right, exists_eq_ok, Expr.nodes, List.forall_mem_cons,
        List.forall_mem_append, Node.Allowed, Expr.Allowed, hargs, hpartition, horder, true_and,
        and_assoc]
  | .inList subject (value :: values) negated, hq => by
    simp only [Expr.queries, List.forall_mem_append] at hq
    have hsubject := Expr.writable_iff_ambiguous hq.1
    have hvalues := Expr.writableAll_iff_ambiguous hq.2
    simp only [Expr.Writable] at hsubject
    by_cases hquery : ∃ q, value :: values = [.subquery q]
    · obtain ⟨q, hlist⟩ := hquery
      rw [hlist] at hq ⊢
      have hvalid := hq.2 q (by simp [Expr.queriesAll, Expr.queries])
      simp only [Expr.Writable, Expr.render, succeeds_bind, succeeds_pure, and_true,
        exists_and_right, exists_eq_ok, Expr.nodes, Expr.nodesAll, List.forall_mem_cons,
        List.forall_mem_append, Node.Allowed, Expr.Allowed, hsubject, hvalid, Query.ValidRows]
      simp
    · have hquery : ∀ q, value :: values ≠ [.subquery q] := not_exists.mp hquery
      rw [Expr.Writable, Expr.render_inList (List.cons_ne_nil _ _) hquery]
      simp only [succeeds_bind, succeeds_pure, and_true,
        exists_and_right, exists_eq_ok, Expr.nodes, List.forall_mem_cons,
        List.forall_mem_append, Node.Allowed, Expr.Allowed, hsubject, hvalues]
      simp
termination_by structural e => e

/-- A list without a table to fill in can be written exactly if its nodes are allowed. -/
theorem Expr.writableAll_iff_ambiguous : ∀ {es : List Expr},
    (∀ q ∈ Expr.queriesAll es, Succeeds (nested q) ↔ q.ValidRows d) →
      (Succeeds (Expr.renderAll d nested es) ↔
        ∀ n ∈ Expr.nodesAll (.ambiguous reason) es, n.Allowed d)
  | [], _ => by simp [Expr.renderAll, Expr.nodesAll]
  | e :: es, hq => by
    simp only [Expr.queriesAll, List.forall_mem_append] at hq
    have he := Expr.writable_iff_ambiguous hq.1
    have hes := Expr.writableAll_iff_ambiguous hq.2
    simp only [Expr.Writable] at he
    simp only [Expr.renderAll, succeeds_bind, succeeds_pure, and_true, exists_and_right,
      exists_eq_ok, Expr.nodesAll, List.forall_mem_append, he, hes]
termination_by structural es => es

/-- An ELSE without a table to fill in can be written exactly if its nodes are allowed. -/
theorem Expr.writableElse_iff_ambiguous : ∀ {e : Option Expr},
    (∀ q ∈ Expr.queriesOption e, Succeeds (nested q) ↔ q.ValidRows d) →
      (Succeeds (Expr.renderElse d nested e) ↔
        ∀ n ∈ Expr.nodesOption (.ambiguous reason) e, n.Allowed d)
  | none, _ => by simp [Expr.renderElse, Expr.nodesOption]
  | some e, hq => by
    have he := Expr.writable_iff_ambiguous (e := e) hq
    simp only [Expr.Writable] at he
    simp only [Expr.renderElse, succeeds_bind, succeeds_pure, and_true, exists_eq_ok,
      Expr.nodesOption, he]
termination_by structural e => e

/-- Branches without a table to fill in can be written exactly if their nodes are allowed. -/
theorem Branch.writableAll_iff_ambiguous : ∀ {branches : List Branch},
    (∀ q ∈ Branch.queriesAll branches, Succeeds (nested q) ↔ q.ValidRows d) →
      (Succeeds (Branch.renderAll d nested branches) ↔
        ∀ n ∈ Branch.nodesAll (.ambiguous reason) branches, n.Allowed d)
  | [], _ => by simp [Branch.renderAll, Branch.nodesAll]
  | ⟨condition, result⟩ :: branches, hq => by
    simp only [Branch.queriesAll, List.forall_mem_append] at hq
    have hcondition := Expr.writable_iff_ambiguous hq.1.1
    have hresult := Expr.writable_iff_ambiguous hq.1.2
    have hbranches := Branch.writableAll_iff_ambiguous hq.2
    simp only [Expr.Writable] at hcondition hresult
    simp only [Branch.renderAll, succeeds_bind, succeeds_pure, and_true, exists_and_right,
      exists_eq_ok, Branch.nodesAll, List.forall_mem_append, hcondition, hresult, hbranches,
      and_assoc]
termination_by structural branches => branches

/-- Order keys without a table to fill in can be written exactly if their nodes are allowed. -/
theorem OrderKey.writableAll_iff_ambiguous : ∀ {keys : List OrderKey},
    (∀ q ∈ OrderKey.queriesAll keys, Succeeds (nested q) ↔ q.ValidRows d) →
      (Succeeds (OrderKey.renderAll d nested keys) ↔
        ∀ n ∈ OrderKey.nodesAll (.ambiguous reason) keys, n.Allowed d)
  | [], _ => by simp [OrderKey.renderAll, OrderKey.nodesAll]
  | ⟨e, direction, nulls⟩ :: keys, hq => by
    simp only [OrderKey.queriesAll, List.forall_mem_append] at hq
    have he := Expr.writable_iff_ambiguous hq.1
    have hkeys := OrderKey.writableAll_iff_ambiguous hq.2
    simp only [Expr.Writable] at he
    simp only [OrderKey.renderAll, succeeds_bind, succeeds_pure, and_true, exists_and_right,
      exists_eq_ok, OrderKey.nodesAll, List.forall_mem_append, he, hkeys]
termination_by structural keys => keys

end

mutual

/-- An expression that meets the conditions where there is no table has no placeholder. -/
theorem Expr.firstPlaceholder?_of_allowed : ∀ {e : Expr},
    (∀ n ∈ e.nodes (.ambiguous reason), n.Allowed d) → e.firstPlaceholder? = none
  | .column .., _ | .literal _, _ | .parameter .., _ | .wildcard, _ | .subquery _, _
  | .existence .., _ => rfl
  | .placeholder _, hn => by
    simp [Expr.nodes, Node.Allowed, Expr.Allowed] at hn
  | .binary _ left right, hn => by
    simp only [Expr.nodes, List.forall_mem_cons, List.forall_mem_append] at hn
    rw [Expr.firstPlaceholder?, Expr.firstPlaceholder?_of_allowed hn.2.1,
      Expr.firstPlaceholder?_of_allowed hn.2.2, Option.or_none]
  | .unary _ operand, hn => by
    simp only [Expr.nodes, List.forall_mem_cons] at hn
    rw [Expr.firstPlaceholder?, Expr.firstPlaceholder?_of_allowed hn.2]
  | .call _ args _, hn => by
    simp only [Expr.nodes, List.forall_mem_cons] at hn
    rw [Expr.firstPlaceholder?, Expr.firstPlaceholderIn?_of_allowed hn.2]
  | .between subject low high _, hn => by
    simp only [Expr.nodes, List.forall_mem_cons, List.forall_mem_append] at hn
    rw [Expr.firstPlaceholder?, Expr.firstPlaceholder?_of_allowed hn.2.1.1,
      Expr.firstPlaceholder?_of_allowed hn.2.1.2, Expr.firstPlaceholder?_of_allowed hn.2.2,
      Option.or_none, Option.or_none]
  | .inList subject values _, hn => by
    simp only [Expr.nodes, List.forall_mem_cons, List.forall_mem_append] at hn
    rw [Expr.firstPlaceholder?, Expr.firstPlaceholder?_of_allowed hn.2.1,
      Expr.firstPlaceholderIn?_of_allowed hn.2.2, Option.or_none]
  | .cast operand _, hn => by
    simp only [Expr.nodes, List.forall_mem_cons] at hn
    rw [Expr.firstPlaceholder?, Expr.firstPlaceholder?_of_allowed hn.2]
  | .choice branches otherwise, hn => by
    simp only [Expr.nodes, List.forall_mem_cons, List.forall_mem_append] at hn
    rw [Expr.firstPlaceholder?, Branch.firstPlaceholderIn?_of_allowed hn.2.1,
      Expr.firstPlaceholderOption?_of_allowed hn.2.2, Option.or_none]
  | .window _ args partition order _, hn => by
    simp only [Expr.nodes, List.forall_mem_cons, List.forall_mem_append] at hn
    rw [Expr.firstPlaceholder?, Expr.firstPlaceholderIn?_of_allowed hn.2.1.1,
      Expr.firstPlaceholderIn?_of_allowed hn.2.1.2, OrderKey.firstPlaceholderIn?_of_allowed hn.2.2,
      Option.or_none, Option.or_none]
termination_by structural e => e

/-- Where there is no table to fill in, an allowed list has no placeholder. -/
theorem Expr.firstPlaceholderIn?_of_allowed : ∀ {es : List Expr},
    (∀ n ∈ Expr.nodesAll (.ambiguous reason) es, n.Allowed d) →
      Expr.firstPlaceholderIn? es = none
  | [], _ => rfl
  | e :: es, hn => by
    simp only [Expr.nodesAll, List.forall_mem_append] at hn
    rw [Expr.firstPlaceholderIn?, Expr.firstPlaceholder?_of_allowed hn.1,
      Expr.firstPlaceholderIn?_of_allowed hn.2, Option.or_none]
termination_by structural es => es

/-- Where there is no table to fill in, an allowed expression that may be missing has no
placeholder. -/
theorem Expr.firstPlaceholderOption?_of_allowed : ∀ {e : Option Expr},
    (∀ n ∈ Expr.nodesOption (.ambiguous reason) e, n.Allowed d) →
      Expr.firstPlaceholderOption? e = none
  | none, _ => rfl
  | some e, hn => Expr.firstPlaceholder?_of_allowed (e := e) hn
termination_by structural e => e

/-- Where there is no table to fill in, allowed branches have no placeholder. -/
theorem Branch.firstPlaceholderIn?_of_allowed : ∀ {branches : List Branch},
    (∀ n ∈ Branch.nodesAll (.ambiguous reason) branches, n.Allowed d) →
      Branch.firstPlaceholderIn? branches = none
  | [], _ => rfl
  | ⟨condition, result⟩ :: branches, hn => by
    simp only [Branch.nodesAll, List.forall_mem_append] at hn
    rw [Branch.firstPlaceholderIn?, Expr.firstPlaceholder?_of_allowed hn.1.1,
      Expr.firstPlaceholder?_of_allowed hn.1.2, Branch.firstPlaceholderIn?_of_allowed hn.2,
      Option.or_none, Option.or_none]
termination_by structural branches => branches

/-- Where there is no table to fill in, allowed order keys have no placeholder. -/
theorem OrderKey.firstPlaceholderIn?_of_allowed : ∀ {keys : List OrderKey},
    (∀ n ∈ OrderKey.nodesAll (.ambiguous reason) keys, n.Allowed d) →
      OrderKey.firstPlaceholderIn? keys = none
  | [], _ => rfl
  | ⟨e, direction, nulls⟩ :: keys, hn => by
    simp only [OrderKey.nodesAll, List.forall_mem_append] at hn
    rw [OrderKey.firstPlaceholderIn?, Expr.firstPlaceholder?_of_allowed hn.1,
      OrderKey.firstPlaceholderIn?_of_allowed hn.2, Option.or_none]
termination_by structural keys => keys

end

/-- Filling in the placeholders of a table is all that its scope allows more than none. -/
theorem Node.allowed_qualify (table reason : String) (e : Expr) :
    (Node.expr (.table table) e).Allowed d ↔
      (Node.expr (.ambiguous reason) (e.qualify table)).Allowed d := by
  cases e with
  | inList _ values _ =>
    cases values <;> simp [Node.Allowed, Expr.Allowed, Expr.qualify, Expr.qualifyAll]
  | choice branches _ =>
    rcases branches with _ | ⟨⟨_, _⟩, _⟩ <;>
      simp [Node.Allowed, Expr.Allowed, Expr.qualify, Branch.qualifyAll]
  | _ => simp [Node.Allowed, Expr.Allowed, Expr.qualify]

/-- An expression can be resolved and written exactly if its nodes meet their conditions. -/
theorem Expr.resolves_writable_iff {scope : Scope} {e : Expr}
    (hq : ∀ q ∈ e.queries, Succeeds (nested q) ↔ q.ValidRows d) :
    (∃ x, e.resolve scope = .ok x ∧ x.Writable d nested) ↔ ∀ n ∈ e.nodes scope, n.Allowed d := by
  cases scope with
  | table table =>
    have hqualified : ∀ q ∈ (e.qualify table).queries, Succeeds (nested q) ↔ q.ValidRows d := by
      rwa [Expr.queries_qualify]
    rw [Expr.forall_nodes_qualify (Node.allowed_qualify table "") e,
      ← Expr.writable_iff_ambiguous hqualified]
    simp [Expr.resolve]
  | ambiguous reason =>
    rw [← Expr.writable_iff_ambiguous hq]
    constructor
    · rintro ⟨x, hx, hwritable⟩
      cases hfield : e.firstPlaceholder? with
      | some field => simp [Expr.resolve, hfield] at hx
      | none =>
        simp only [Expr.resolve, hfield, Except.ok.injEq] at hx
        rwa [hx]
    · intro hwritable
      have hn : ∀ n ∈ e.nodes (.ambiguous reason), n.Allowed d :=
        (Expr.writable_iff_ambiguous hq).mp hwritable
      refine ⟨e, ?_, hwritable⟩
      simp [Expr.resolve, Expr.firstPlaceholder?_of_allowed hn]

end Rendering

end SqlAlgebra
