import Mathlib.Data.List.MinMax
import Mathlib.Logic.Relation
import SqlAlgebra.Proofs.RowSources

/-!
# Queries inside queries

A query is made of other queries: the source below its topmost stage, the operands and bodies that
it holds, and the queries in its expressions. Whatever is inside it is smaller. A query in one of
its expressions, wherever it stands, is inside it and on a deeper level.
-/

namespace SqlAlgebra

/-- The expressions that a stage has itself, those of the queries that it holds apart. -/
def Stage.exprs : Stage → List Expr
  | .filter e | .limit e | .offset e | .having e | .updateWhere e | .deleteWhere e => [e]
  | .join _ condition _ => condition.toList
  | .select _ items | .returning _ items => items.map (·.expr)
  | .orderBy keys => keys.map (·.expr)
  | .distinct | .insertSelect _ => []
  | .groupBy keys => keys
  | .values rows => rows.flatten
  | .onConflict _ action => action.exprs
  | .set assignments => assignments.map (·.value)

namespace Query

/-- The queries that a query continues on its own level: the source below its topmost stage, or the
bodies and the main query of a WITH. -/
def sources : Query → List Query
  | step source _ => [source]
  | withCtes _ ctes main => ctes.map (·.body) ++ [main]
  | _ => []

/-- The queries that the root or the topmost stage of a query holds and reads for their rows. -/
def bodies : Query → List Query
  | step _ stage => stage.bodies
  | setOperation _ _ left right => [left, right]
  | _ => []

/-- The queries in the expressions of the topmost stage. -/
def topNested : Query → List Query
  | step _ stage => stage.exprs.flatMap Expr.queries
  | _ => []

/-- The queries that a query is directly made of. -/
def components (q : Query) : List Query := q.sources ++ q.bodies ++ q.topNested

/-- The first query is a proper part of the second. -/
def Inside : Query → Query → Prop := Relation.TransGen fun p q => p ∈ q.components

end Query

section Size

mutual

/-- A query in an expression is smaller than the expression. -/
theorem Expr.sizeOf_queries : ∀ e : Expr, ∀ q ∈ e.queries, sizeOf q < sizeOf e
  | .column .. | .placeholder _ | .literal _ | .parameter .. | .wildcard => by
    simp [Expr.queries]
  | .binary _ left right => by
    have hleft := Expr.sizeOf_queries left
    have hright := Expr.sizeOf_queries right
    simp only [Expr.queries, List.mem_append, Expr.binary.sizeOf_spec]
    grind
  | .unary _ operand => by
    have hoperand := Expr.sizeOf_queries operand
    simp only [Expr.queries, Expr.unary.sizeOf_spec]
    grind
  | .call _ args _ => by
    have hargs := Expr.sizeOf_queriesAll args
    simp only [Expr.queries, Expr.call.sizeOf_spec]
    grind
  | .between subject low high _ => by
    have hsubject := Expr.sizeOf_queries subject
    have hlow := Expr.sizeOf_queries low
    have hhigh := Expr.sizeOf_queries high
    simp only [Expr.queries, List.mem_append, Expr.between.sizeOf_spec]
    grind
  | .inList subject values _ => by
    have hsubject := Expr.sizeOf_queries subject
    have hvalues := Expr.sizeOf_queriesAll values
    simp only [Expr.queries, List.mem_append, Expr.inList.sizeOf_spec]
    grind
  | .cast operand _ => by
    have hoperand := Expr.sizeOf_queries operand
    simp only [Expr.queries, Expr.cast.sizeOf_spec]
    grind
  | .subquery query => by simp [Expr.queries]
  | .existence query _ => by
    simp only [Expr.queries, List.forall_mem_singleton, Expr.existence.sizeOf_spec]
    omega
  | .choice branches otherwise => by
    have hbranches := Branch.sizeOf_queriesAll branches
    have hotherwise := Expr.sizeOf_queriesOption otherwise
    simp only [Expr.queries, List.mem_append, Expr.choice.sizeOf_spec]
    grind
  | .window _ args partition order _ => by
    have hargs := Expr.sizeOf_queriesAll args
    have hpartition := Expr.sizeOf_queriesAll partition
    have horder := OrderKey.sizeOf_queriesAll order
    simp only [Expr.queries, List.mem_append, Expr.window.sizeOf_spec]
    grind
termination_by structural e => e

/-- A query in a list is smaller than the list. -/
theorem Expr.sizeOf_queriesAll : ∀ es : List Expr, ∀ q ∈ Expr.queriesAll es, sizeOf q < sizeOf es
  | [] => by simp [Expr.queriesAll]
  | e :: es => by
    have he := Expr.sizeOf_queries e
    have hes := Expr.sizeOf_queriesAll es
    simp only [Expr.queriesAll, List.mem_append, List.cons.sizeOf_spec]
    grind
termination_by structural es => es

/-- A query in an expression that may be missing is smaller than it. -/
theorem Expr.sizeOf_queriesOption : ∀ e : Option Expr, ∀ q ∈ Expr.queriesOption e,
    sizeOf q < sizeOf e
  | none => by simp [Expr.queriesOption]
  | some e => by
    have he := Expr.sizeOf_queries e
    simp only [Expr.queriesOption, Option.some.sizeOf_spec]
    grind
termination_by structural e => e

/-- A query in branches is smaller than the branches. -/
theorem Branch.sizeOf_queriesAll : ∀ branches : List Branch, ∀ q ∈ Branch.queriesAll branches,
    sizeOf q < sizeOf branches
  | [] => by simp [Branch.queriesAll]
  | ⟨condition, result⟩ :: branches => by
    have hcondition := Expr.sizeOf_queries condition
    have hresult := Expr.sizeOf_queries result
    have hbranches := Branch.sizeOf_queriesAll branches
    simp only [Branch.queriesAll, List.mem_append, List.cons.sizeOf_spec, Branch.mk.sizeOf_spec]
    grind
termination_by structural branches => branches

/-- A query in order keys is smaller than the keys. -/
theorem OrderKey.sizeOf_queriesAll : ∀ keys : List OrderKey, ∀ q ∈ OrderKey.queriesAll keys,
    sizeOf q < sizeOf keys
  | [] => by simp [OrderKey.queriesAll]
  | ⟨e, _, _⟩ :: keys => by
    have he := Expr.sizeOf_queries e
    have hkeys := OrderKey.sizeOf_queriesAll keys
    simp only [OrderKey.queriesAll, List.mem_append, List.cons.sizeOf_spec,
      OrderKey.mk.sizeOf_spec]
    grind
termination_by structural keys => keys

end

/-- The expression of a projected item is smaller than the item. -/
theorem SelectItem.sizeOf_expr (item : SelectItem) : sizeOf item.expr < sizeOf item := by
  cases item with
  | mk e name =>
    simp only [SelectItem.mk.sizeOf_spec]
    omega

/-- The expression of an order key is smaller than the key. -/
theorem OrderKey.sizeOf_expr (key : OrderKey) : sizeOf key.expr < sizeOf key := by
  cases key with
  | mk e direction nulls =>
    simp only [OrderKey.mk.sizeOf_spec]
    omega

/-- The value of an assignment is smaller than the assignment. -/
theorem Assignment.sizeOf_value (a : Assignment) : sizeOf a.value < sizeOf a := by
  cases a with
  | mk column e =>
    simp only [Assignment.mk.sizeOf_spec]
    omega

/-- The expressions of the entries of a list are smaller than the list. -/
theorem sizeOf_lt_of_mem_map {α : Type} [SizeOf α] {expr : α → Expr}
    (hexpr : ∀ a, sizeOf (expr a) < sizeOf a) {as : List α} {e : Expr} (h : e ∈ as.map expr) :
    sizeOf e < sizeOf as := by
  obtain ⟨a, ha, rfl⟩ := List.mem_map.mp h
  have hmem := List.sizeOf_lt_of_mem ha
  have hlt := hexpr a
  omega

/-- An expression of an action upon a conflict is smaller than the action. -/
theorem ConflictAction.sizeOf_exprs {action : ConflictAction} {e : Expr} (h : e ∈ action.exprs) :
    sizeOf e < sizeOf action := by
  cases action with
  | doNothing => cases h
  | doUpdate assignments =>
    have hlt := sizeOf_lt_of_mem_map Assignment.sizeOf_value h
    rw [ConflictAction.doUpdate.sizeOf_spec]
    omega

/-- An expression of a stage is smaller than the stage. -/
theorem Stage.sizeOf_exprs {stage : Stage} {e : Expr} (h : e ∈ stage.exprs) :
    sizeOf e < sizeOf stage := by
  cases stage with
  | filter x | limit x | offset x | having x | updateWhere x | deleteWhere x =>
    cases List.mem_singleton.mp h
    simp
  | distinct | insertSelect => cases h
  | join target condition kind =>
    cases Option.mem_toList.mp h
    simp only [Stage.join.sizeOf_spec, Option.some.sizeOf_spec]
    omega
  | select shape items =>
    have hlt := sizeOf_lt_of_mem_map SelectItem.sizeOf_expr h
    rw [Stage.select.sizeOf_spec]
    omega
  | returning shape items =>
    have hlt := sizeOf_lt_of_mem_map SelectItem.sizeOf_expr h
    rw [Stage.returning.sizeOf_spec]
    omega
  | orderBy keys =>
    have hlt := sizeOf_lt_of_mem_map OrderKey.sizeOf_expr h
    rw [Stage.orderBy.sizeOf_spec]
    omega
  | groupBy keys =>
    have hlt : sizeOf e < sizeOf keys := List.sizeOf_lt_of_mem h
    rw [Stage.groupBy.sizeOf_spec]
    omega
  | values rows =>
    obtain ⟨row, hrow, hmem⟩ := List.mem_flatten.mp h
    have hrow := List.sizeOf_lt_of_mem hrow
    have hmem := List.sizeOf_lt_of_mem hmem
    rw [Stage.values.sizeOf_spec]
    omega
  | onConflict target action =>
    have hlt := ConflictAction.sizeOf_exprs h
    rw [Stage.onConflict.sizeOf_spec]
    omega
  | set assignments =>
    have hlt := sizeOf_lt_of_mem_map Assignment.sizeOf_value h
    rw [Stage.set.sizeOf_spec]
    omega

/-- A query that a stage holds is smaller than the stage. -/
theorem Stage.sizeOf_bodies {stage : Stage} {q : Query} (h : q ∈ stage.bodies) :
    sizeOf q < sizeOf stage := by
  cases stage with
  | join target condition kind =>
    cases target with
    | table name => cases h
    | lateral body name =>
      cases List.mem_singleton.mp h
      simp only [Stage.join.sizeOf_spec, JoinTarget.lateral.sizeOf_spec]
      omega
  | insertSelect rows =>
    cases List.mem_singleton.mp h
    simp
  | _ => cases h

/-- A query is larger than each of the queries that it is made of. -/
theorem Query.sizeOf_components {q p : Query} (h : p ∈ q.components) : sizeOf p < sizeOf q := by
  simp only [Query.components, List.mem_append] at h
  cases q with
  | table | insertInto | update | deleteFrom => simp [Query.sources, Query.bodies, topNested] at h
  | setOperation op all left right =>
    have hmem : p = left ∨ p = right := by simpa [Query.sources, Query.bodies, topNested] using h
    rw [Query.setOperation.sizeOf_spec]
    rcases hmem with rfl | rfl <;> omega
  | withCtes recursive ctes main =>
    have hmem : (∃ cte ∈ ctes, cte.body = p) ∨ p = main := by
      simpa [Query.sources, Query.bodies, topNested] using h
    rw [Query.withCtes.sizeOf_spec]
    rcases hmem with ⟨cte, hcte, rfl⟩ | rfl
    · have hlt := List.sizeOf_lt_of_mem hcte
      cases cte with
      | mk name columns body =>
        rw [Cte.mk.sizeOf_spec] at hlt
        dsimp only
        omega
    · omega
  | step source stage =>
    rw [Query.step.sizeOf_spec]
    rcases h with (h | h) | h
    · cases List.mem_singleton.mp h
      omega
    · have hlt := Stage.sizeOf_bodies h
      omega
    · obtain ⟨e, he, hp⟩ := List.mem_flatMap.mp h
      have hlt := Stage.sizeOf_exprs he
      have hlt' := e.sizeOf_queries p hp
      omega

/-- Whatever is inside a query is smaller than the query. -/
theorem Query.Inside.sizeOf_lt {p q : Query} (h : p.Inside q) : sizeOf p < sizeOf q := by
  induction h with
  | single h => exact Query.sizeOf_components h
  | tail _ h ih => exact ih.trans (Query.sizeOf_components h)

end Size

namespace Query

/-- The largest number of queries that are read for their rows inside one another within a query:
operands, lateral bodies, the row queries of insertions, and the queries in expressions. -/
def nesting (q : Query) : Nat :=
  max ((q.sources.attach.map fun p => p.1.nesting).foldr max 0)
    (((q.bodies ++ q.topNested).attach.map fun p => p.1.nesting + 1).foldr max 0)
termination_by sizeOf q
decreasing_by
  · have hp := p.2
    exact sizeOf_components (by simp [components, hp])
  · have hp := p.2
    exact sizeOf_components (by simpa [components] using Or.inr (List.mem_append.mp hp))

/-- The nesting of a query is that of what it continues, or one more than that of what it reads for
rows. -/
theorem nesting_eq (q : Query) : q.nesting = max ((q.sources.map nesting).foldr max 0)
    (((q.bodies ++ q.topNested).map fun p => p.nesting + 1).foldr max 0) := by
  rw [nesting, List.attach_map_val (f := nesting),
    List.attach_map_val (f := fun p : Query => p.nesting + 1)]

/-- What a query continues is not nested more deeply than it. -/
theorem nesting_sources {q p : Query} (h : p ∈ q.sources) : p.nesting ≤ q.nesting := by
  rw [nesting_eq q]
  exact le_max_of_le_left (List.le_max_of_le' 0 (List.mem_map_of_mem h) le_rfl)

/-- What a query reads for rows is nested less deeply than it. -/
theorem nesting_bodies {q p : Query} (h : p ∈ q.bodies ++ q.topNested) :
    p.nesting < q.nesting := by
  have hmem : p.nesting + 1 ∈ (q.bodies ++ q.topNested).map fun p => p.nesting + 1 :=
    List.mem_map.mpr ⟨p, h, rfl⟩
  rw [nesting_eq q]
  exact le_max_of_le_right (List.le_max_of_le' 0 hmem le_rfl)

end Query

/-- The entries of a WITH resolve what their queries do. -/
theorem Cte.scopedExprs_eq (ctes : List (Cte Query)) :
    Cte.scopedExprs ctes = ctes.flatMap (·.body.scopedExprs) := by
  induction ctes with
  | nil => rfl
  | cons cte ctes ih =>
    obtain ⟨name, columns, body⟩ := cte
    rw [Cte.scopedExprs, ih, List.flatMap_cons]

/-- A stage resolves what the queries that it holds do, and its own expressions. -/
theorem Stage.scopedExprs_eq (scope : Scope) (stage : Stage) :
    stage.scopedExprs scope =
      stage.bodies.flatMap Query.scopedExprs ++ stage.exprs.map (scope, ·) := by
  cases stage with
  | join target condition kind =>
    cases target <;> simp [Stage.scopedExprs, JoinTarget.scopedExprs, Stage.bodies, Stage.exprs]
  | _ => simp [Stage.scopedExprs, Stage.bodies, Stage.exprs]

namespace Query

/-- The queries nested in expressions are those of what the query continues and holds, and those of
its topmost stage. -/
theorem nestedQueries_eq (q : Query) : q.nestedQueries =
    (q.sources ++ q.bodies).flatMap nestedQueries ++ q.topNested := by
  cases q with
  | table | insertInto | update | deleteFrom => rfl
  | setOperation op all left right =>
    simp [nestedQueries, scopedExprs, topNested, sources, bodies]
  | withCtes recursive ctes main =>
    simp [nestedQueries, scopedExprs, topNested, sources, bodies, Cte.scopedExprs_eq,
      List.flatMap_assoc, List.flatMap_map]
  | step source stage =>
    have hbodies : stage.bodies.flatMap nestedQueries =
        (stage.bodies.flatMap scopedExprs).flatMap fun y => y.2.queries :=
      List.flatMap_assoc.symm
    simp [nestedQueries, scopedExprs, topNested, sources, bodies, Stage.scopedExprs_eq, hbodies,
      List.flatMap_map]

/-- What holds between a query and those in the expressions of its topmost stage, and carries over
from what the query continues or holds, holds of all queries that are nested in expressions. -/
theorem nested_of_step {P : Query → Query → Prop} (htop : ∀ {q p}, p ∈ q.topNested → P p q)
    (hup : ∀ {q c p}, c ∈ q.sources ++ q.bodies → P p c → P p q) {q p : Query}
    (h : p ∈ q.nestedQueries) : P p q := by
  -- The recursion is on the size of `q`: what it continues and holds is smaller.
  rw [nestedQueries_eq, List.mem_append, List.mem_flatMap] at h
  rcases h with ⟨c, hc, h⟩ | h
  · exact hup hc (nested_of_step htop hup h)
  · exact htop h
termination_by sizeOf q
decreasing_by exact sizeOf_components (List.mem_append_left _ hc)

/-- The first query is inside the second, and on a deeper level. -/
structure Below (p q : Query) : Prop where
  inside : p.Inside q
  nesting_lt : p.nesting < q.nesting

/-- A query that is read for its rows directly is below. -/
theorem Below.of_mem {p q : Query} (h : p ∈ q.bodies ++ q.topNested) : p.Below q := by
  refine ⟨.single ?_, nesting_bodies h⟩
  rw [components, List.append_assoc]
  exact List.mem_append_right _ h

/-- What is below a part of a query is below the query. -/
theorem Below.up {p c q : Query} (h : p.Below c) (hc : c ∈ q.sources ++ q.bodies) : p.Below q := by
  refine ⟨h.inside.tail (List.mem_append_left _ hc), ?_⟩
  rcases List.mem_append.mp hc with hc | hc
  · exact h.nesting_lt.trans_le (nesting_sources hc)
  · exact h.nesting_lt.trans (nesting_bodies (List.mem_append_left _ hc))

/-- A query that is nested in the expressions of another is below it. -/
theorem below_of_nested {q p : Query} (h : p ∈ q.nestedQueries) : p.Below q :=
  nested_of_step (fun h => .of_mem (List.mem_append_right _ h)) (fun hc hp => hp.up hc) h

end Query

section Depth

/-- An expression of a stage is not deeper than the stage. -/
theorem Stage.depth_exprs {stage : Stage} {e : Expr} (h : e ∈ stage.exprs) :
    e.depth ≤ stage.depth := by
  cases stage with
  | filter x | limit x | offset x | having x | updateWhere x | deleteWhere x =>
    cases List.mem_singleton.mp h
    exact le_rfl
  | distinct | insertSelect => cases h
  | join target condition kind =>
    cases Option.mem_toList.mp h
    exact le_max_right _ _
  | select shape items | returning shape items =>
    obtain ⟨item, hitem, rfl⟩ := List.mem_map.mp h
    exact SelectItem.depthAll_le.mp le_rfl item hitem
  | orderBy keys =>
    obtain ⟨key, hkey, rfl⟩ := List.mem_map.mp h
    exact OrderKey.depthAll_le.mp le_rfl key hkey
  | groupBy keys => exact Expr.depthAll_le.mp le_rfl e h
  | values rows => exact Expr.depthRows_le.mp le_rfl e h
  | onConflict target action =>
    cases action with
    | doNothing => cases h
    | doUpdate assignments =>
      obtain ⟨a, ha, rfl⟩ := List.mem_map.mp h
      exact Assignment.depthAll_le.mp le_rfl a ha
  | set assignments =>
    obtain ⟨a, ha, rfl⟩ := List.mem_map.mp h
    exact Assignment.depthAll_le.mp le_rfl a ha

/-- A query that a stage holds is not deeper than the stage. -/
theorem Stage.depth_bodies {stage : Stage} {q : Query} (h : q ∈ stage.bodies) :
    q.depth ≤ stage.depth := by
  cases stage with
  | join target condition kind =>
    cases target with
    | table name => cases h
    | lateral body name =>
      cases List.mem_singleton.mp h
      exact le_max_left _ _
  | insertSelect rows =>
    cases List.mem_singleton.mp h
    exact le_rfl
  | _ => cases h

/-- The entries of a WITH are as deep as the deepest of their queries. -/
theorem Cte.depthAll_le {ctes : List (Cte Query)} {k : Nat} :
    Cte.depthAll ctes ≤ k ↔ ∀ cte ∈ ctes, cte.body.depth ≤ k := by
  induction ctes with
  | nil => simp [Cte.depthAll]
  | cons cte ctes ih =>
    obtain ⟨name, columns, body⟩ := cte
    simp [Cte.depthAll, ih]

namespace Query

/-- A query in the expressions of the topmost stage is less deep. -/
theorem depth_topNested {q p : Query} (h : p ∈ q.topNested) : p.depth < q.depth := by
  cases q with
  | step source stage =>
    obtain ⟨e, he, hp⟩ := List.mem_flatMap.mp h
    have hstage := Stage.depth_exprs he
    have hexpr := e.depth_queries p hp
    exact (hexpr.trans_le hstage).trans_le (le_max_right _ _)
  | _ => cases h

/-- A query that another continues or holds is not deeper. -/
theorem depth_bodies {q c : Query} (h : c ∈ q.sources ++ q.bodies) : c.depth ≤ q.depth := by
  cases q with
  | table | insertInto | update | deleteFrom => cases h
  | setOperation op all left right =>
    have hmem : c = left ∨ c = right := by simpa [sources, bodies] using h
    rcases hmem with rfl | rfl
    · exact le_max_left _ _
    · exact le_max_right _ _
  | withCtes recursive ctes main =>
    have hmem : (∃ cte ∈ ctes, cte.body = c) ∨ c = main := by simpa [sources, bodies] using h
    rcases hmem with ⟨cte, hcte, rfl⟩ | rfl
    · exact (Cte.depthAll_le.mp le_rfl cte hcte).trans (le_max_left _ _)
    · exact le_max_right _ _
  | step source stage =>
    rcases List.mem_cons.mp h with rfl | h
    · exact le_max_left _ _
    · exact (Stage.depth_bodies h).trans (le_max_right _ _)

/-- A query nested in expressions has fewer queries inside one another than the whole. -/
theorem depth_of_nested {q p : Query} (h : p ∈ q.nestedQueries) : p.depth < q.depth :=
  nested_of_step (P := fun p q => p.depth < q.depth) depth_topNested
    (fun hc hp => hp.trans_le (depth_bodies hc)) h

end Query

end Depth

end SqlAlgebra
