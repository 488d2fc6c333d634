import SqlAlgebra.Dialect.Capability
import SqlAlgebra.Query.Depth
import SqlAlgebra.Query.Scope

/-!
# The nodes of a query

Everything in a query that a dialect may have an opinion about, at any depth: the roots and the
stages, the expressions with all that is in them, and the queries that stand inside other queries.
Questions about a whole query are asked node by node.
-/

namespace SqlAlgebra

/-- The root of a query, below all of its stages. -/
def Query.root : Query → Query
  | .step source _ => source.root
  | .table name => .table name
  | .insertInto name columns => .insertInto name columns
  | .update name => .update name
  | .deleteFrom name => .deleteFrom name
  | .setOperation op all left right => .setOperation op all left right
  | .withCtes recursive ctes main => .withCtes recursive ctes main

/-- A place in a query. -/
inductive Node where
  /-- A whole query, and whether it is read for its rows. -/
  | query (rows : Bool) (q : Query)
  | root (q : Query)
  /-- A stage of the query that has the given root. -/
  | stage (root : Query) (stage : Stage)
  /-- An expression, with the scope of its placeholders. -/
  | expr (scope : Scope) (e : Expr)

namespace Node

/-- The capability without which a dialect does not have the node. -/
def capability? : Node → Option Capability
  | root (.withCtes ..) => some .cte
  | stage _ (.join (.lateral ..) _ _) => some .lateral
  | stage _ (.onConflict ..) => some .upsert
  | stage _ (.returning ..) => some .returning
  | expr _ (.window ..) => some .window
  | _ => none

/-- The operator that a dialect needs to write the node. -/
def operator? : Node → Option BinaryOperator
  | expr _ (.binary op ..) => some op
  | _ => none

end Node

mutual

/-- The expression and all that is in it, its placeholders being in `scope`. -/
def Expr.nodes (scope : Scope) (e : Expr) : List Node :=
  .expr scope e :: match e with
    | .column .. | .placeholder _ | .literal _ | .parameter .. | .wildcard => []
    | .binary _ left right => left.nodes scope ++ right.nodes scope
    | .unary _ operand => operand.nodes scope
    | .call _ args _ => Expr.nodesAll scope args
    | .between subject low high _ => subject.nodes scope ++ low.nodes scope ++ high.nodes scope
    | .inList subject values _ => subject.nodes scope ++ Expr.nodesAll scope values
    | .cast operand _ => operand.nodes scope
    | .subquery query => .query true query :: query.nodes
    | .existence query _ => .query true query :: query.nodes
    | .choice branches otherwise =>
      Branch.nodesAll scope branches ++ Expr.nodesOption scope otherwise
    | .window _ args partition order _ =>
      Expr.nodesAll scope args ++ Expr.nodesAll scope partition ++ OrderKey.nodesAll scope order
termination_by structural e

def Expr.nodesAll (scope : Scope) : List Expr → List Node
  | [] => []
  | e :: es => e.nodes scope ++ Expr.nodesAll scope es
termination_by structural es => es

def Expr.nodesOption (scope : Scope) : Option Expr → List Node
  | none => []
  | some e => e.nodes scope
termination_by structural e => e

def Expr.nodesRows (scope : Scope) : List (List Expr) → List Node
  | [] => []
  | row :: rows => Expr.nodesAll scope row ++ Expr.nodesRows scope rows
termination_by structural rows => rows

def Branch.nodesAll (scope : Scope) : List Branch → List Node
  | [] => []
  | ⟨condition, result⟩ :: branches =>
    condition.nodes scope ++ result.nodes scope ++ Branch.nodesAll scope branches
termination_by structural branches => branches

def OrderKey.nodesAll (scope : Scope) : List OrderKey → List Node
  | [] => []
  | ⟨e, _, _⟩ :: keys => e.nodes scope ++ OrderKey.nodesAll scope keys
termination_by structural keys => keys

def SelectItem.nodesAll (scope : Scope) : List SelectItem → List Node
  | [] => []
  | ⟨e, _⟩ :: items => e.nodes scope ++ SelectItem.nodesAll scope items
termination_by structural items => items

def Assignment.nodesAll (scope : Scope) : List Assignment → List Node
  | [] => []
  | ⟨_, e⟩ :: assignments => e.nodes scope ++ Assignment.nodesAll scope assignments
termination_by structural assignments => assignments

def ConflictAction.nodes (scope : Scope) : ConflictAction → List Node
  | .doNothing => []
  | .doUpdate assignments => Assignment.nodesAll scope assignments
termination_by structural action => action

def JoinTarget.nodes : JoinTarget Query → List Node
  | .table _ => []
  | .lateral body _ => .query true body :: body.nodes
termination_by structural target => target

def Cte.nodesAll : List (Cte Query) → List Node
  | [] => []
  | ⟨_, _, body⟩ :: ctes => .query false body :: body.nodes ++ Cte.nodesAll ctes
termination_by structural ctes => ctes

def Stage.nodes (scope : Scope) : Stage → List Node
  | .filter e | .limit e | .offset e | .having e | .updateWhere e | .deleteWhere e => e.nodes scope
  | .join target condition _ => JoinTarget.nodes target ++ Expr.nodesOption scope condition
  | .select _ items | .returning _ items => SelectItem.nodesAll scope items
  | .orderBy keys => OrderKey.nodesAll scope keys
  | .distinct => []
  | .groupBy keys => Expr.nodesAll scope keys
  | .values rows => Expr.nodesRows scope rows
  | .insertSelect rows => .query true rows :: rows.nodes
  | .onConflict _ action => action.nodes scope
  | .set assignments => Assignment.nodesAll scope assignments
termination_by structural stage => stage

/-- All that is in a query, from its root to its topmost stage. -/
def Query.nodes : Query → List Node
  | .table name => [.root (.table name)]
  | .insertInto name columns => [.root (.insertInto name columns)]
  | .update name => [.root (.update name)]
  | .deleteFrom name => [.root (.deleteFrom name)]
  | .setOperation op all left right =>
    .root (.setOperation op all left right) ::
      (.query true left :: left.nodes ++ .query true right :: right.nodes)
  | .withCtes recursive ctes main =>
    .root (.withCtes recursive ctes main) ::
      (Cte.nodesAll ctes ++ .query false main :: main.nodes)
  | .step source stage =>
    source.nodes ++ .stage source.root stage :: stage.nodes (Query.step source stage).scope
termination_by structural q => q

end

mutual

/-- The queries that stand in an expression, but not those that stand in such a query. -/
def Expr.queries : Expr → List Query
  | .column .. | .placeholder _ | .literal _ | .parameter .. | .wildcard => []
  | .binary _ left right => left.queries ++ right.queries
  | .unary _ operand => operand.queries
  | .call _ args _ => Expr.queriesAll args
  | .between subject low high _ => subject.queries ++ low.queries ++ high.queries
  | .inList subject values _ => subject.queries ++ Expr.queriesAll values
  | .cast operand _ => operand.queries
  | .subquery query => [query]
  | .existence query _ => [query]
  | .choice branches otherwise => Branch.queriesAll branches ++ Expr.queriesOption otherwise
  | .window _ args partition order _ =>
    Expr.queriesAll args ++ Expr.queriesAll partition ++ OrderKey.queriesAll order
termination_by structural e => e

def Expr.queriesAll : List Expr → List Query
  | [] => []
  | e :: es => e.queries ++ Expr.queriesAll es
termination_by structural es => es

def Expr.queriesOption : Option Expr → List Query
  | none => []
  | some e => e.queries
termination_by structural e => e

def Branch.queriesAll : List Branch → List Query
  | [] => []
  | ⟨condition, result⟩ :: branches =>
    condition.queries ++ result.queries ++ Branch.queriesAll branches
termination_by structural branches => branches

def OrderKey.queriesAll : List OrderKey → List Query
  | [] => []
  | ⟨e, _, _⟩ :: keys => e.queries ++ OrderKey.queriesAll keys
termination_by structural keys => keys

end

mutual

/-- A query in an expression is nested less deeply than the expression. -/
theorem Expr.depth_queries : ∀ e : Expr, ∀ q ∈ e.queries, q.depth < e.depth
  | .column .. | .placeholder _ | .literal _ | .parameter .. | .wildcard => by
    simp [Expr.queries]
  | .binary _ left right => by
    have hleft := Expr.depth_queries left
    have hright := Expr.depth_queries right
    simp only [Expr.queries, List.mem_append, Expr.depth]
    grind
  | .unary _ operand => Expr.depth_queries operand
  | .call _ args _ => Expr.depth_queriesAll args
  | .between subject low high _ => by
    have hsubject := Expr.depth_queries subject
    have hlow := Expr.depth_queries low
    have hhigh := Expr.depth_queries high
    simp only [Expr.queries, List.mem_append, Expr.depth]
    grind
  | .inList subject values _ => by
    have hsubject := Expr.depth_queries subject
    have hvalues := Expr.depth_queriesAll values
    simp only [Expr.queries, List.mem_append, Expr.depth]
    grind
  | .cast operand _ => Expr.depth_queries operand
  | .subquery query | .existence query _ => by
    simp [Expr.queries, Expr.depth]
  | .choice branches otherwise => by
    have hbranches := Branch.depth_queriesAll branches
    have hotherwise := Expr.depth_queriesOption otherwise
    simp only [Expr.queries, List.mem_append, Expr.depth]
    grind
  | .window _ args partition order _ => by
    have hargs := Expr.depth_queriesAll args
    have hpartition := Expr.depth_queriesAll partition
    have horder := OrderKey.depth_queriesAll order
    simp only [Expr.queries, List.mem_append, Expr.depth]
    grind
termination_by structural e => e

/-- A query in a list of expressions is nested less deeply than the list. -/
theorem Expr.depth_queriesAll : ∀ es : List Expr, ∀ q ∈ Expr.queriesAll es,
    q.depth < Expr.depthAll es
  | [] => by simp [Expr.queriesAll]
  | e :: es => by
    have he := Expr.depth_queries e
    have hes := Expr.depth_queriesAll es
    simp only [Expr.queriesAll, List.mem_append, Expr.depthAll]
    grind
termination_by structural es => es

/-- A query in an expression that may be missing is nested less deeply than it. -/
theorem Expr.depth_queriesOption : ∀ e : Option Expr, ∀ q ∈ Expr.queriesOption e,
    q.depth < Expr.depthOption e
  | none => by simp [Expr.queriesOption]
  | some e => Expr.depth_queries e
termination_by structural e => e

/-- A query in branches is nested less deeply than the branches. -/
theorem Branch.depth_queriesAll : ∀ branches : List Branch, ∀ q ∈ Branch.queriesAll branches,
    q.depth < Branch.depthAll branches
  | [] => by simp [Branch.queriesAll]
  | ⟨condition, result⟩ :: branches => by
    have hcondition := Expr.depth_queries condition
    have hresult := Expr.depth_queries result
    have hbranches := Branch.depth_queriesAll branches
    simp only [Branch.queriesAll, List.mem_append, Branch.depthAll]
    grind
termination_by structural branches => branches

/-- A query in order keys is nested less deeply than the keys. -/
theorem OrderKey.depth_queriesAll : ∀ keys : List OrderKey, ∀ q ∈ OrderKey.queriesAll keys,
    q.depth < OrderKey.depthAll keys
  | [] => by simp [OrderKey.queriesAll]
  | ⟨e, _, _⟩ :: keys => by
    have he := Expr.depth_queries e
    have hkeys := OrderKey.depth_queriesAll keys
    simp only [OrderKey.queriesAll, List.mem_append, OrderKey.depthAll]
    grind
termination_by structural keys => keys

end

mutual

/-- A query in an expression is a node of it, with all of its own nodes. -/
theorem Expr.nodes_queries (scope : Scope) : ∀ e : Expr, ∀ q ∈ e.queries,
    Node.query true q :: q.nodes ⊆ e.nodes scope
  | .column .. | .placeholder _ | .literal _ | .parameter .. | .wildcard => by
    simp [Expr.queries]
  | .binary _ left right => by
    have hleft := Expr.nodes_queries scope left
    have hright := Expr.nodes_queries scope right
    simp only [Expr.queries, Expr.nodes, List.mem_append, List.subset_def, List.mem_cons] at *
    grind
  | .unary _ operand => by
    have hoperand := Expr.nodes_queries scope operand
    simp only [Expr.queries, Expr.nodes, List.subset_def, List.mem_cons] at *
    grind
  | .call _ args _ => by
    have hargs := Expr.nodes_queriesAll scope args
    simp only [Expr.queries, Expr.nodes, List.subset_def, List.mem_cons] at *
    grind
  | .between subject low high _ => by
    have hsubject := Expr.nodes_queries scope subject
    have hlow := Expr.nodes_queries scope low
    have hhigh := Expr.nodes_queries scope high
    simp only [Expr.queries, Expr.nodes, List.mem_append, List.subset_def, List.mem_cons] at *
    grind
  | .inList subject values _ => by
    have hsubject := Expr.nodes_queries scope subject
    have hvalues := Expr.nodes_queriesAll scope values
    simp only [Expr.queries, Expr.nodes, List.mem_append, List.subset_def, List.mem_cons] at *
    grind
  | .cast operand _ => by
    have hoperand := Expr.nodes_queries scope operand
    simp only [Expr.queries, Expr.nodes, List.subset_def, List.mem_cons] at *
    grind
  | .subquery query | .existence query _ => by
    simp [Expr.queries, Expr.nodes]
  | .choice branches otherwise => by
    have hbranches := Branch.nodes_queriesAll scope branches
    have hotherwise := Expr.nodes_queriesOption scope otherwise
    simp only [Expr.queries, Expr.nodes, List.mem_append, List.subset_def, List.mem_cons] at *
    grind
  | .window _ args partition order _ => by
    have hargs := Expr.nodes_queriesAll scope args
    have hpartition := Expr.nodes_queriesAll scope partition
    have horder := OrderKey.nodes_queriesAll scope order
    simp only [Expr.queries, Expr.nodes, List.mem_append, List.subset_def, List.mem_cons] at *
    grind
termination_by structural e => e

/-- All nodes of a query in a list of expressions are nodes of the list. -/
theorem Expr.nodes_queriesAll (scope : Scope) : ∀ es : List Expr, ∀ q ∈ Expr.queriesAll es,
    Node.query true q :: q.nodes ⊆ Expr.nodesAll scope es
  | [] => by simp [Expr.queriesAll]
  | e :: es => by
    have he := Expr.nodes_queries scope e
    have hes := Expr.nodes_queriesAll scope es
    simp only [Expr.queriesAll, Expr.nodesAll, List.mem_append, List.subset_def] at *
    grind
termination_by structural es => es

/-- All nodes of a query in an expression that may be missing are nodes of it. -/
theorem Expr.nodes_queriesOption (scope : Scope) : ∀ e : Option Expr,
    ∀ q ∈ Expr.queriesOption e, Node.query true q :: q.nodes ⊆ Expr.nodesOption scope e
  | none => by simp [Expr.queriesOption]
  | some e => Expr.nodes_queries scope e
termination_by structural e => e

/-- All nodes of a query in branches are nodes of the branches. -/
theorem Branch.nodes_queriesAll (scope : Scope) : ∀ branches : List Branch,
    ∀ q ∈ Branch.queriesAll branches,
      Node.query true q :: q.nodes ⊆ Branch.nodesAll scope branches
  | [] => by simp [Branch.queriesAll]
  | ⟨condition, result⟩ :: branches => by
    have hcondition := Expr.nodes_queries scope condition
    have hresult := Expr.nodes_queries scope result
    have hbranches := Branch.nodes_queriesAll scope branches
    simp only [Branch.queriesAll, Branch.nodesAll, List.mem_append, List.subset_def] at *
    grind
termination_by structural branches => branches

/-- All nodes of a query in order keys are nodes of the keys. -/
theorem OrderKey.nodes_queriesAll (scope : Scope) : ∀ keys : List OrderKey,
    ∀ q ∈ OrderKey.queriesAll keys, Node.query true q :: q.nodes ⊆ OrderKey.nodesAll scope keys
  | [] => by simp [OrderKey.queriesAll]
  | ⟨e, _, _⟩ :: keys => by
    have he := Expr.nodes_queries scope e
    have hkeys := OrderKey.nodes_queriesAll scope keys
    simp only [OrderKey.queriesAll, OrderKey.nodesAll, List.mem_append, List.subset_def] at *
    grind
termination_by structural keys => keys

end

end SqlAlgebra
