import SqlAlgebra.Proofs.Expressions
import SqlAlgebra.Proofs.Nodes

/-!
# Filling in placeholders

Resolving an expression changes its placeholders and nothing else. Node by node, what a question
that does not look at placeholders finds in the expressions of a statement is what it finds in the
query that the statement was made from.
-/

namespace SqlAlgebra

/-- The second node is the first one, or the same expression with its placeholders filled in, seen
from another scope. -/
inductive Node.Qualified (table : String) (scope scope' : Scope) : Node → Node → Prop
  | refl (n : Node) : Qualified table scope scope' n n
  | expr (e : Expr) : Qualified table scope scope' (.expr scope e) (.expr scope' (e.qualify table))

section Qualify

variable {table : String} {scope scope' : Scope}

/-- Nodes that qualifying leaves alone correspond to themselves. -/
theorem Node.forall₂_qualified_refl (ns : List Node) :
    List.Forall₂ (Node.Qualified table scope scope') ns ns :=
  List.forall₂_same.mpr fun n _ => .refl n

mutual

/-- Filling in placeholders keeps the nodes of an expression in their places. -/
theorem Expr.nodes_qualify : ∀ e : Expr,
    List.Forall₂ (Node.Qualified table scope scope') (e.nodes scope)
      ((e.qualify table).nodes scope')
  | .column .. | .placeholder _ | .literal _ | .parameter .. | .wildcard => .cons (.expr _) .nil
  | .binary _ left right =>
    .cons (.expr _) (List.rel_append (Expr.nodes_qualify left) (Expr.nodes_qualify right))
  | .unary _ operand => .cons (.expr _) (Expr.nodes_qualify operand)
  | .call _ args _ => .cons (.expr _) (Expr.nodes_qualifyAll args)
  | .between subject low high _ =>
    .cons (.expr _) (List.rel_append
      (List.rel_append (Expr.nodes_qualify subject) (Expr.nodes_qualify low))
      (Expr.nodes_qualify high))
  | .inList subject values _ =>
    .cons (.expr _) (List.rel_append (Expr.nodes_qualify subject) (Expr.nodes_qualifyAll values))
  | .cast operand _ => .cons (.expr _) (Expr.nodes_qualify operand)
  | .subquery _ => .cons (.expr _) (Node.forall₂_qualified_refl _)
  | .existence _ _ => .cons (.expr _) (Node.forall₂_qualified_refl _)
  | .choice branches otherwise =>
    .cons (.expr _) (List.rel_append (Branch.nodes_qualifyAll branches)
      (Expr.nodes_qualifyOption otherwise))
  | .window _ args partition order _ =>
    .cons (.expr _) (List.rel_append
      (List.rel_append (Expr.nodes_qualifyAll args) (Expr.nodes_qualifyAll partition))
      (OrderKey.nodes_qualifyAll order))
termination_by structural e => e

/-- Qualifying a list of expressions keeps its nodes in place. -/
theorem Expr.nodes_qualifyAll : ∀ es : List Expr,
    List.Forall₂ (Node.Qualified table scope scope') (Expr.nodesAll scope es)
      (Expr.nodesAll scope' (Expr.qualifyAll table es))
  | [] => .nil
  | e :: es => List.rel_append (Expr.nodes_qualify e) (Expr.nodes_qualifyAll es)
termination_by structural es => es

/-- Qualifying an expression that may be missing keeps its nodes in place. -/
theorem Expr.nodes_qualifyOption : ∀ e : Option Expr,
    List.Forall₂ (Node.Qualified table scope scope') (Expr.nodesOption scope e)
      (Expr.nodesOption scope' (Expr.qualifyOption table e))
  | none => .nil
  | some e => Expr.nodes_qualify e
termination_by structural e => e

/-- Qualifying branches keeps their nodes in place. -/
theorem Branch.nodes_qualifyAll : ∀ branches : List Branch,
    List.Forall₂ (Node.Qualified table scope scope') (Branch.nodesAll scope branches)
      (Branch.nodesAll scope' (Branch.qualifyAll table branches))
  | [] => .nil
  | ⟨condition, result⟩ :: branches =>
    List.rel_append (List.rel_append (Expr.nodes_qualify condition) (Expr.nodes_qualify result))
      (Branch.nodes_qualifyAll branches)
termination_by structural branches => branches

/-- Qualifying order keys keeps their nodes in place. -/
theorem OrderKey.nodes_qualifyAll : ∀ keys : List OrderKey,
    List.Forall₂ (Node.Qualified table scope scope') (OrderKey.nodesAll scope keys)
      (OrderKey.nodesAll scope' (OrderKey.qualifyAll table keys))
  | [] => .nil
  | ⟨e, _, _⟩ :: keys => List.rel_append (Expr.nodes_qualify e) (OrderKey.nodes_qualifyAll keys)
termination_by structural keys => keys

end

/-- A question that has the same answer before and after placeholders are filled in. -/
theorem Node.forall_mem_iff_of_qualified {P : Node → Prop}
    (hP : ∀ x : Expr, P (.expr scope x) ↔ P (.expr scope' (x.qualify table)))
    {ns ns' : List Node} (h : List.Forall₂ (Node.Qualified table scope scope') ns ns') :
    (∀ n ∈ ns, P n) ↔ ∀ n ∈ ns', P n := by
  induction h with
  | nil => simp
  | cons hn _ ih =>
    rw [List.forall_mem_cons, List.forall_mem_cons, ih]
    cases hn with
    | refl => rfl
    | expr x => rw [hP x]

/-- What does not depend on a node's qualifier holds of all nodes of an expression or of all nodes
of the qualified one. -/
theorem Expr.forall_nodes_qualify {P : Node → Prop}
    (hP : ∀ x : Expr, P (.expr scope x) ↔ P (.expr scope' (x.qualify table))) (e : Expr) :
    (∀ n ∈ e.nodes scope, P n) ↔ ∀ n ∈ (e.qualify table).nodes scope', P n :=
  Node.forall_mem_iff_of_qualified hP (Expr.nodes_qualify e)

/-- The same for an expression that is resolved where it stands. -/
theorem Expr.forall_nodes_resolve {P : Node → Prop}
    (hP : ∀ table (x : Expr), P (.expr scope x) ↔ P (.expr scope (x.qualify table)))
    {e e' : Expr} (h : e.resolve scope = .ok e') :
    (∀ n ∈ e.nodes scope, P n) ↔ ∀ n ∈ e'.nodes scope, P n := by
  rcases Expr.resolve_eq_ok.mp h with ⟨table, rfl, rfl⟩ | ⟨reason, rfl, -, rfl⟩
  · exact Expr.forall_nodes_qualify (hP table) e
  · rfl

mutual

/-- Filling in placeholders leaves the queries in an expression alone. -/
theorem Expr.queries_qualify (table : String) : ∀ e : Expr, (e.qualify table).queries = e.queries
  | .column .. | .placeholder _ | .literal _ | .parameter .. | .wildcard
  | .subquery _ | .existence .. => rfl
  | .binary _ left right => by
    simp only [Expr.qualify, Expr.queries, Expr.queries_qualify table left,
      Expr.queries_qualify table right]
  | .unary _ operand => Expr.queries_qualify table operand
  | .call _ args _ => Expr.queries_qualifyAll table args
  | .between subject low high _ => by
    simp only [Expr.qualify, Expr.queries, Expr.queries_qualify table subject,
      Expr.queries_qualify table low, Expr.queries_qualify table high]
  | .inList subject values _ => by
    simp only [Expr.qualify, Expr.queries, Expr.queries_qualify table subject,
      Expr.queries_qualifyAll table values]
  | .cast operand _ => Expr.queries_qualify table operand
  | .choice branches otherwise => by
    simp only [Expr.qualify, Expr.queries, Branch.queries_qualifyAll table branches,
      Expr.queries_qualifyOption table otherwise]
  | .window _ args partition order _ => by
    simp only [Expr.qualify, Expr.queries, Expr.queries_qualifyAll table args,
      Expr.queries_qualifyAll table partition, OrderKey.queries_qualifyAll table order]
termination_by structural e => e

/-- Qualifying a list of expressions does not touch the queries in it. -/
theorem Expr.queries_qualifyAll (table : String) : ∀ es : List Expr,
    Expr.queriesAll (Expr.qualifyAll table es) = Expr.queriesAll es
  | [] => rfl
  | e :: es => by
    simp only [Expr.qualifyAll, Expr.queriesAll, Expr.queries_qualify table e,
      Expr.queries_qualifyAll table es]
termination_by structural es => es

/-- Qualifying an expression that may be missing does not touch the queries in it. -/
theorem Expr.queries_qualifyOption (table : String) : ∀ e : Option Expr,
    Expr.queriesOption (Expr.qualifyOption table e) = Expr.queriesOption e
  | none => rfl
  | some e => Expr.queries_qualify table e
termination_by structural e => e

/-- Qualifying branches does not touch the queries in them. -/
theorem Branch.queries_qualifyAll (table : String) : ∀ branches : List Branch,
    Branch.queriesAll (Branch.qualifyAll table branches) = Branch.queriesAll branches
  | [] => rfl
  | ⟨condition, result⟩ :: branches => by
    simp only [Branch.qualifyAll, Branch.queriesAll, Expr.queries_qualify table condition,
      Expr.queries_qualify table result, Branch.queries_qualifyAll table branches]
termination_by structural branches => branches

/-- Qualifying order keys does not touch the queries in them. -/
theorem OrderKey.queries_qualifyAll (table : String) : ∀ keys : List OrderKey,
    OrderKey.queriesAll (OrderKey.qualifyAll table keys) = OrderKey.queriesAll keys
  | [] => rfl
  | ⟨e, _, _⟩ :: keys => by
    simp only [OrderKey.qualifyAll, OrderKey.queriesAll, Expr.queries_qualify table e,
      OrderKey.queries_qualifyAll table keys]
termination_by structural keys => keys

end

end Qualify

/-- The nodes of a list are those of its expressions. -/
theorem Expr.mem_nodesAll {scope : Scope} {es : List Expr} {n : Node} :
    n ∈ Expr.nodesAll scope es ↔ ∃ e ∈ es, n ∈ e.nodes scope := by
  induction es with
  | nil => simp [Expr.nodesAll]
  | cons e es ih => simp [Expr.nodesAll, ih]

/-- The nodes of an expression that stands in a list are nodes of the list. -/
theorem Expr.mem_nodesAll_of_map {α : Type} {own scope : Scope} {as : List α} {e : Expr}
    {n : Node} (expr : α → Expr) (h : (scope, e) ∈ as.map fun a => (own, expr a))
    (hn : n ∈ e.nodes scope) : n ∈ Expr.nodesAll own (as.map expr) := by
  obtain ⟨a, ha, heq⟩ := List.mem_map.mp h
  cases heq
  exact Expr.mem_nodesAll.mpr ⟨expr a, List.mem_map_of_mem ha, hn⟩

/-- An expression that may be missing is a list of at most one. -/
theorem Expr.nodesOption_eq (scope : Scope) (e : Option Expr) :
    Expr.nodesOption scope e = Expr.nodesAll scope e.toList := by
  cases e with
  | none => rfl
  | some e => simp [Expr.nodesOption, Expr.nodesAll]

/-- The nodes of two lists are those of the first and then those of the second. -/
theorem Expr.nodesAll_append (scope : Scope) (es es' : List Expr) :
    Expr.nodesAll scope (es ++ es') = Expr.nodesAll scope es ++ Expr.nodesAll scope es' := by
  induction es with
  | nil => rfl
  | cons e es ih => simp [Expr.nodesAll, ih]

/-- The nodes of rows are those of all their values. -/
theorem Expr.nodesRows_eq (scope : Scope) (rows : List (List Expr)) :
    Expr.nodesRows scope rows = Expr.nodesAll scope rows.flatten := by
  induction rows with
  | nil => rfl
  | cons row rows ih => simp [Expr.nodesRows, Expr.nodesAll_append, ih]

/-- The nodes of order keys are those of their expressions. -/
theorem OrderKey.nodesAll_eq (scope : Scope) (keys : List OrderKey) :
    OrderKey.nodesAll scope keys = Expr.nodesAll scope (keys.map (·.expr)) := by
  induction keys with
  | nil => rfl
  | cons key keys ih =>
    obtain ⟨e, direction, nulls⟩ := key
    simp [OrderKey.nodesAll, Expr.nodesAll, ih]

/-- The nodes of projected items are those of their expressions. -/
theorem SelectItem.nodesAll_eq (scope : Scope) (items : List SelectItem) :
    SelectItem.nodesAll scope items = Expr.nodesAll scope (items.map (·.expr)) := by
  induction items with
  | nil => rfl
  | cons item items ih =>
    obtain ⟨e, name⟩ := item
    simp [SelectItem.nodesAll, Expr.nodesAll, ih]

/-- The nodes of assignments are those of the values that are assigned. -/
theorem Assignment.nodesAll_eq (scope : Scope) (assignments : List Assignment) :
    Assignment.nodesAll scope assignments = Expr.nodesAll scope (assignments.map (·.value)) := by
  induction assignments with
  | nil => rfl
  | cons a assignments ih =>
    obtain ⟨column, e⟩ := a
    simp [Assignment.nodesAll, Expr.nodesAll, ih]

/-- The nodes of an action upon a conflict are those of its expressions. -/
theorem ConflictAction.nodes_eq (scope : Scope) (action : ConflictAction) :
    action.nodes scope = Expr.nodesAll scope action.exprs := by
  cases action with
  | doNothing => rfl
  | doUpdate assignments => exact Assignment.nodesAll_eq scope assignments

mutual

/-- The expressions of a query are nodes of it, with all that is in them. -/
theorem Query.mem_nodes_of_scopedExprs : ∀ {q : Query} {scope : Scope} {e : Expr} {n : Node},
    (scope, e) ∈ q.scopedExprs → n ∈ e.nodes scope → n ∈ q.nodes
  | .table _, _, _, _, h, _ | .insertInto .., _, _, _, h, _ | .update _, _, _, _, h, _
  | .deleteFrom _, _, _, _, h, _ => by
    cases h
  | .setOperation _ _ left right, _, _, _, h, hn => by
    rw [Query.nodes]
    rcases List.mem_append.mp h with h | h
    · have hleft := Query.mem_nodes_of_scopedExprs h hn
      grind
    · have hright := Query.mem_nodes_of_scopedExprs h hn
      grind
  | .withCtes _ ctes main, _, _, _, h, hn => by
    rw [Query.nodes]
    rcases List.mem_append.mp h with h | h
    · have hctes := Cte.mem_nodes_of_scopedExprs h hn
      grind
    · have hmain := Query.mem_nodes_of_scopedExprs h hn
      grind
  | .step source stage, _, _, _, h, hn => by
    rw [Query.nodes]
    rcases List.mem_append.mp h with h | h
    · have hsource := Query.mem_nodes_of_scopedExprs h hn
      grind
    · have hstage := Stage.mem_nodes_of_scopedExprs h hn
      grind
termination_by structural q => q

/-- The nodes of what the entries of a WITH resolve are nodes of the entries. -/
theorem Cte.mem_nodes_of_scopedExprs : ∀ {ctes : List (Cte Query)} {scope : Scope} {e : Expr}
    {n : Node}, (scope, e) ∈ Cte.scopedExprs ctes → n ∈ e.nodes scope → n ∈ Cte.nodesAll ctes
  | [], _, _, _, h, _ => by cases h
  | ⟨_, _, body⟩ :: ctes, _, _, _, h, hn => by
    rw [Cte.nodesAll]
    rcases List.mem_append.mp h with h | h
    · have hbody := Query.mem_nodes_of_scopedExprs h hn
      grind
    · have hctes := Cte.mem_nodes_of_scopedExprs h hn
      grind
termination_by structural ctes => ctes

/-- The nodes of what a joined query resolves are nodes of what is joined. -/
theorem JoinTarget.mem_nodes_of_scopedExprs : ∀ {target : JoinTarget Query} {scope : Scope}
    {e : Expr} {n : Node}, (scope, e) ∈ JoinTarget.scopedExprs target → n ∈ e.nodes scope →
    n ∈ JoinTarget.nodes target
  | .table _, _, _, _, h, _ => by cases h
  | .lateral _ _, _, _, _, h, hn => List.mem_cons_of_mem _ (Query.mem_nodes_of_scopedExprs h hn)
termination_by structural target => target

/-- The nodes of what a stage resolves are nodes of the stage. -/
theorem Stage.mem_nodes_of_scopedExprs : ∀ {stage : Stage} {own scope : Scope} {e : Expr}
    {n : Node}, (scope, e) ∈ stage.scopedExprs own → n ∈ e.nodes scope → n ∈ stage.nodes own
  | .filter _, _, _, _, _, h, hn | .limit _, _, _, _, _, h, hn | .offset _, _, _, _, _, h, hn
  | .having _, _, _, _, _, h, hn | .updateWhere _, _, _, _, _, h, hn
  | .deleteWhere _, _, _, _, _, h, hn => by
    cases List.mem_singleton.mp h
    exact hn
  | .distinct, _, _, _, _, h, _ => by cases h
  | .join target condition _, _, _, _, _, h, hn => by
    rw [Stage.nodes, List.mem_append]
    rcases List.mem_append.mp h with h | h
    · left
      exact JoinTarget.mem_nodes_of_scopedExprs h hn
    · right
      rw [Expr.nodesOption_eq]
      have hmem := Expr.mem_nodesAll_of_map id h hn
      rwa [List.map_id] at hmem
  | .select _ items, _, _, _, _, h, hn | .returning _ items, _, _, _, _, h, hn => by
    rw [Stage.nodes, SelectItem.nodesAll_eq]
    exact Expr.mem_nodesAll_of_map SelectItem.expr h hn
  | .orderBy keys, _, _, _, _, h, hn => by
    rw [Stage.nodes, OrderKey.nodesAll_eq]
    exact Expr.mem_nodesAll_of_map OrderKey.expr h hn
  | .groupBy keys, _, _, _, _, h, hn => by
    rw [Stage.nodes]
    have hmem := Expr.mem_nodesAll_of_map id h hn
    rwa [List.map_id] at hmem
  | .values rows, _, _, _, _, h, hn => by
    rw [Stage.nodes, Expr.nodesRows_eq]
    have hmem := Expr.mem_nodesAll_of_map id h hn
    rwa [List.map_id] at hmem
  | .insertSelect _, _, _, _, _, h, hn =>
    List.mem_cons_of_mem _ (Query.mem_nodes_of_scopedExprs h hn)
  | .onConflict _ action, _, _, _, _, h, hn => by
    rw [Stage.nodes, ConflictAction.nodes_eq]
    have hmem := Expr.mem_nodesAll_of_map id h hn
    rwa [List.map_id] at hmem
  | .set assignments, _, _, _, _, h, hn => by
    rw [Stage.nodes, Assignment.nodesAll_eq]
    exact Expr.mem_nodesAll_of_map Assignment.value h hn
termination_by structural stage => stage

end

/-- A question that does not look at placeholders, asked of all nodes of a query, is answered alike
at the expressions of its statement and in the queries nested in them. One expression has no part in
the query: the condition that keeps an upsert apart from a join. -/
theorem Query.forall_exprs_lower {d : Dialect} {P : Node → Prop}
    (hP : ∀ scope table x, P (.expr scope x) ↔ P (.expr scope (x.qualify table))) {q : Query}
    {s : Statement} (hn : ∀ n ∈ q.nodes, P n) (hs : q.lower d = .ok s) :
    ∀ x ∈ s.exprs, x = .guard ∨
      ∃ scope, (∀ n ∈ x.nodes scope, P n) ∧ ∀ q' ∈ x.queries, ∀ n ∈ q'.nodes, P n := by
  intro x hx
  rcases (Query.carries_lower d hs).mem hx with rfl | ⟨⟨scope, y⟩, hy, hyx⟩
  · exact .inl rfl
  · have hnodes : ∀ n ∈ x.nodes scope, P n :=
      (Expr.forall_nodes_resolve (hP scope) hyx).mp fun n hmem =>
        hn n (Query.mem_nodes_of_scopedExprs hy hmem)
    refine .inr ⟨scope, hnodes, fun q' hq' n hmem => hnodes n ?_⟩
    exact Expr.nodes_queries scope x q' hq' (List.mem_cons_of_mem _ hmem)

end SqlAlgebra
