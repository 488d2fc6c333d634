import SqlAlgebra.Proofs.Forms

/-!
# The parameters of a query

Every occurrence of a parameter in a query, nested queries included, with the number of order keys
around it that say where nulls go. Lowering moves the occurrences about: a statement has those of
its query, each as often as the query and under as many such keys.
-/

namespace SqlAlgebra

/-- An occurrence of a parameter: its name, and the number of order keys with an explicit place for
nulls that it stands in. -/
abbrev Occurrence := String × Nat

/-- The occurrences in the expression of an order key, seen from outside the key. -/
def NullsOrder.enclose : Option NullsOrder → List Occurrence → List Occurrence
  | none, ps => ps
  | some _, ps => ps.map fun p => (p.1, p.2 + 1)

mutual

/-- The parameters in an expression. -/
def Expr.parameters : Expr → List Occurrence
  | .parameter _ name => [(name, 0)]
  | .column .. | .placeholder _ | .literal _ | .wildcard => []
  | .binary _ left right => left.parameters ++ right.parameters
  | .unary _ operand => operand.parameters
  | .call _ args _ => Expr.parametersAll args
  | .between subject low high _ => subject.parameters ++ low.parameters ++ high.parameters
  | .inList subject values _ => subject.parameters ++ Expr.parametersAll values
  | .cast operand _ => operand.parameters
  | .subquery query => query.parameters
  | .existence query _ => query.parameters
  | .choice branches otherwise =>
    Branch.parametersAll branches ++ Expr.parametersOption otherwise
  | .window _ args partition order _ =>
    Expr.parametersAll args ++ Expr.parametersAll partition ++ OrderKey.parametersAll order
termination_by structural e => e

def Expr.parametersAll : List Expr → List Occurrence
  | [] => []
  | e :: es => e.parameters ++ Expr.parametersAll es
termination_by structural es => es

def Expr.parametersOption : Option Expr → List Occurrence
  | none => []
  | some e => e.parameters
termination_by structural e => e

def Expr.parametersRows : List (List Expr) → List Occurrence
  | [] => []
  | row :: rows => Expr.parametersAll row ++ Expr.parametersRows rows
termination_by structural rows => rows

def Branch.parametersAll : List Branch → List Occurrence
  | [] => []
  | ⟨condition, result⟩ :: branches =>
    condition.parameters ++ result.parameters ++ Branch.parametersAll branches
termination_by structural branches => branches

def OrderKey.parametersAll : List OrderKey → List Occurrence
  | [] => []
  | ⟨e, _, nulls⟩ :: keys => NullsOrder.enclose nulls e.parameters ++ OrderKey.parametersAll keys
termination_by structural keys => keys

def SelectItem.parametersAll : List SelectItem → List Occurrence
  | [] => []
  | ⟨e, _⟩ :: items => e.parameters ++ SelectItem.parametersAll items
termination_by structural items => items

def Assignment.parametersAll : List Assignment → List Occurrence
  | [] => []
  | ⟨_, e⟩ :: assignments => e.parameters ++ Assignment.parametersAll assignments
termination_by structural assignments => assignments

def ConflictAction.parameters : ConflictAction → List Occurrence
  | .doNothing => []
  | .doUpdate assignments => Assignment.parametersAll assignments
termination_by structural action => action

def JoinTarget.queryParameters : JoinTarget Query → List Occurrence
  | .table _ => []
  | .lateral body _ => body.parameters
termination_by structural target => target

def Cte.queryParameters : List (Cte Query) → List Occurrence
  | [] => []
  | ⟨_, _, body⟩ :: ctes => body.parameters ++ Cte.queryParameters ctes
termination_by structural ctes => ctes

def Stage.parameters : Stage → List Occurrence
  | .filter e | .limit e | .offset e | .having e | .updateWhere e | .deleteWhere e => e.parameters
  | .join target condition _ =>
    JoinTarget.queryParameters target ++ Expr.parametersOption condition
  | .select _ items | .returning _ items => SelectItem.parametersAll items
  | .orderBy keys => OrderKey.parametersAll keys
  | .distinct => []
  | .groupBy keys => Expr.parametersAll keys
  | .values rows => Expr.parametersRows rows
  | .insertSelect rows => rows.parameters
  | .onConflict _ action => action.parameters
  | .set assignments => Assignment.parametersAll assignments
termination_by structural stage => stage

/-- The parameters in a query, from its root to its topmost stage. -/
def Query.parameters : Query → List Occurrence
  | .table _ | .insertInto .. | .update _ | .deleteFrom _ => []
  | .setOperation _ _ left right => left.parameters ++ right.parameters
  | .withCtes _ ctes main => Cte.queryParameters ctes ++ main.parameters
  | .step source stage => source.parameters ++ stage.parameters
termination_by structural q => q

end

/-- The items of a projection or of a RETURNING, if there is one. -/
def SelectItem.parametersOption : Option (List SelectItem) → List Occurrence
  | none => []
  | some items => SelectItem.parametersAll items

/-- The parameters of a rule upon a conflict. -/
def Upsert.parameters : Option Upsert → List Occurrence
  | none => []
  | some upsert => upsert.action.parameters

/-- The parameters of an UPDATE. -/
def Update.parameters (u : Update) : List Occurrence :=
  Assignment.parametersAll u.assignments ++ Expr.parametersAll u.filters ++
    SelectItem.parametersOption u.returning

/-- The parameters of a DELETE. -/
def Delete.parameters (x : Delete) : List Occurrence :=
  Expr.parametersAll x.filters ++ SelectItem.parametersOption x.returning

mutual

/-- The parameters in a statement, in the order of its text. -/
def Statement.parameters : Statement → List Occurrence
  | .select block => block.parameters
  | .setOperation _ _ left right => left.parameters ++ right.parameters
  | .withCtes _ ctes body => Cte.parameters ctes ++ body.parameters
  | .insert i => i.parameters
  | .update u => u.parameters
  | .delete x => x.parameters
termination_by structural s => s

def Block.parameters : Block → List Occurrence
  | ⟨origin, joins, filters, groupBy, having, projection, _, orderBy, limit, offset⟩ =>
    SelectItem.parametersOption projection ++ origin.parameters ++ Join.parameters joins ++
      Expr.parametersAll filters ++ Expr.parametersAll groupBy ++ Expr.parametersAll having ++
      OrderKey.parametersAll orderBy ++ Expr.parametersOption limit ++
      Expr.parametersOption offset
termination_by structural b => b

def Origin.parameters : Origin → List Occurrence
  | .table _ => []
  | .derived body _ => body.parameters
termination_by structural o => o

def Join.parameters : List Join → List Occurrence
  | [] => []
  | ⟨_, target, condition⟩ :: joins =>
    JoinTarget.parameters target ++ Expr.parametersOption condition ++ Join.parameters joins
termination_by structural joins => joins

def JoinTarget.parameters : JoinTarget Statement → List Occurrence
  | .table _ => []
  | .lateral body _ => body.parameters
termination_by structural target => target

def Cte.parameters : List (Cte Statement) → List Occurrence
  | [] => []
  | ⟨_, _, body⟩ :: ctes => body.parameters ++ Cte.parameters ctes
termination_by structural ctes => ctes

def Insert.parameters : Insert → List Occurrence
  | ⟨_, _, none, upsert, returning⟩ =>
    Upsert.parameters upsert ++ SelectItem.parametersOption returning
  | ⟨_, _, some source, upsert, returning⟩ =>
    source.parameters ++ Upsert.parameters upsert ++ SelectItem.parametersOption returning
termination_by structural i => i

def InsertSource.parameters : InsertSource → List Occurrence
  | .values rows => Expr.parametersRows rows
  | .select body => body.parameters
termination_by structural s => s

end

section Resolving

mutual

/-- Filling in placeholders leaves the parameters alone. -/
theorem Expr.parameters_qualify (table : String) : ∀ e : Expr,
    (e.qualify table).parameters = e.parameters
  | .column .. | .placeholder _ | .literal _ | .parameter .. | .wildcard
  | .subquery _ | .existence .. => rfl
  | .binary _ left right => by
    simp only [Expr.qualify, Expr.parameters, Expr.parameters_qualify table left,
      Expr.parameters_qualify table right]
  | .unary _ operand => Expr.parameters_qualify table operand
  | .call _ args _ => Expr.parameters_qualifyAll table args
  | .between subject low high _ => by
    simp only [Expr.qualify, Expr.parameters, Expr.parameters_qualify table subject,
      Expr.parameters_qualify table low, Expr.parameters_qualify table high]
  | .inList subject values _ => by
    simp only [Expr.qualify, Expr.parameters, Expr.parameters_qualify table subject,
      Expr.parameters_qualifyAll table values]
  | .cast operand _ => Expr.parameters_qualify table operand
  | .choice branches otherwise => by
    simp only [Expr.qualify, Expr.parameters, Branch.parameters_qualifyAll table branches,
      Expr.parameters_qualifyOption table otherwise]
  | .window _ args partition order _ => by
    simp only [Expr.qualify, Expr.parameters, Expr.parameters_qualifyAll table args,
      Expr.parameters_qualifyAll table partition, OrderKey.parameters_qualifyAll table order]
termination_by structural e => e

/-- Qualifying a list of expressions keeps its parameters. -/
theorem Expr.parameters_qualifyAll (table : String) : ∀ es : List Expr,
    Expr.parametersAll (Expr.qualifyAll table es) = Expr.parametersAll es
  | [] => rfl
  | e :: es => by
    simp only [Expr.qualifyAll, Expr.parametersAll, Expr.parameters_qualify table e,
      Expr.parameters_qualifyAll table es]
termination_by structural es => es

/-- Qualifying an expression that may be missing keeps its parameters. -/
theorem Expr.parameters_qualifyOption (table : String) : ∀ e : Option Expr,
    Expr.parametersOption (Expr.qualifyOption table e) = Expr.parametersOption e
  | none => rfl
  | some e => Expr.parameters_qualify table e
termination_by structural e => e

/-- Qualifying branches keeps their parameters. -/
theorem Branch.parameters_qualifyAll (table : String) : ∀ branches : List Branch,
    Branch.parametersAll (Branch.qualifyAll table branches) = Branch.parametersAll branches
  | [] => rfl
  | ⟨condition, result⟩ :: branches => by
    simp only [Branch.qualifyAll, Branch.parametersAll, Expr.parameters_qualify table condition,
      Expr.parameters_qualify table result, Branch.parameters_qualifyAll table branches]
termination_by structural branches => branches

/-- Qualifying order keys keeps their parameters. -/
theorem OrderKey.parameters_qualifyAll (table : String) : ∀ keys : List OrderKey,
    OrderKey.parametersAll (OrderKey.qualifyAll table keys) = OrderKey.parametersAll keys
  | [] => rfl
  | ⟨e, _, _⟩ :: keys => by
    simp only [OrderKey.qualifyAll, OrderKey.parametersAll, Expr.parameters_qualify table e,
      OrderKey.parameters_qualifyAll table keys]
termination_by structural keys => keys

end

variable {scope : Scope}

/-- Resolving an expression keeps its parameters. -/
theorem Expr.parameters_resolve {e e' : Expr} (h : e.resolve scope = .ok e') :
    e'.parameters = e.parameters := by
  cases scope with
  | table table =>
    cases h
    exact Expr.parameters_qualify table e
  | ambiguous reason =>
    cases hfield : e.firstPlaceholder? with
    | some field => simp [Expr.resolve, hfield] at h
    | none =>
      simp only [Expr.resolve, hfield, Except.ok.injEq] at h
      rw [h]

/-- The parameters in an order key. -/
def OrderKey.parameters (key : OrderKey) : List Occurrence :=
  NullsOrder.enclose key.nulls key.expr.parameters

/-- The parameters of a list are those of its expressions in turn. -/
theorem Expr.parametersAll_eq (es : List Expr) :
    Expr.parametersAll es = es.flatMap Expr.parameters := by
  induction es with
  | nil => rfl
  | cons e es ih => rw [Expr.parametersAll, ih, List.flatMap_cons]

/-- The parameters of rows are those of the rows in turn. -/
theorem Expr.parametersRows_eq (rows : List (List Expr)) :
    Expr.parametersRows rows = rows.flatMap Expr.parametersAll := by
  induction rows with
  | nil => rfl
  | cons row rows ih => rw [Expr.parametersRows, ih, List.flatMap_cons]

/-- The parameters of order keys are those of the keys in turn. -/
theorem OrderKey.parametersAll_eq (keys : List OrderKey) :
    OrderKey.parametersAll keys = keys.flatMap OrderKey.parameters := by
  induction keys with
  | nil => rfl
  | cons key keys ih =>
    obtain ⟨e, direction, nulls⟩ := key
    rw [OrderKey.parametersAll, ih, List.flatMap_cons, OrderKey.parameters]

/-- The parameters of projected items are those of their expressions in turn. -/
theorem SelectItem.parametersAll_eq (items : List SelectItem) :
    SelectItem.parametersAll items = items.flatMap fun item => item.expr.parameters := by
  induction items with
  | nil => rfl
  | cons item items ih =>
    obtain ⟨e, name⟩ := item
    rw [SelectItem.parametersAll, ih, List.flatMap_cons]

/-- The parameters of assignments are those of the values in turn. -/
theorem Assignment.parametersAll_eq (assignments : List Assignment) :
    Assignment.parametersAll assignments = assignments.flatMap fun a => a.value.parameters := by
  induction assignments with
  | nil => rfl
  | cons a assignments ih =>
    obtain ⟨column, e⟩ := a
    rw [Assignment.parametersAll, ih, List.flatMap_cons]

/-- Resolving a list part by part keeps what its parts keep. -/
theorem flatMap_of_mapM {α β ε : Type} {f : α → Except ε α} {g : α → List β} {as bs : List α}
    (hf : ∀ a b, f a = .ok b → g b = g a) (h : as.mapM f = .ok bs) :
    bs.flatMap g = as.flatMap g := by
  have hparts := mapM_eq_ok.mp h
  clear h
  induction hparts with
  | nil => rfl
  | cons hab _ ih => rw [List.flatMap_cons, List.flatMap_cons, hf _ _ hab, ih]

/-- Resolving a list keeps its parameters. -/
theorem Scope.parameters_resolveAll {es es' : List Expr} (h : scope.resolveAll es = .ok es') :
    Expr.parametersAll es' = Expr.parametersAll es := by
  rw [Expr.parametersAll_eq, Expr.parametersAll_eq]
  exact flatMap_of_mapM (fun _ _ => Expr.parameters_resolve) h

/-- Resolving rows keeps their parameters. -/
theorem Scope.parameters_resolveRows {rows rows' : List (List Expr)}
    (h : scope.resolveRows rows = .ok rows') :
    Expr.parametersRows rows' = Expr.parametersRows rows := by
  rw [Expr.parametersRows_eq, Expr.parametersRows_eq]
  exact flatMap_of_mapM (fun _ _ => Scope.parameters_resolveAll) h

/-- Resolving an expression that may be missing keeps its parameters. -/
theorem Scope.parameters_resolveOption {e e' : Option Expr} (h : scope.resolveOption e = .ok e') :
    Expr.parametersOption e' = Expr.parametersOption e := by
  cases e with
  | none =>
    cases h
    rfl
  | some e =>
    simp only [Scope.resolveOption, bind_eq_ok, pure_eq_ok] at h
    obtain ⟨x, hx, rfl⟩ := h
    exact Expr.parameters_resolve hx

/-- Resolving projected items keeps their parameters. -/
theorem Scope.parameters_resolveItems {items items' : List SelectItem}
    (h : scope.resolveItems items = .ok items') :
    SelectItem.parametersAll items' = SelectItem.parametersAll items := by
  rw [SelectItem.parametersAll_eq, SelectItem.parametersAll_eq]
  refine flatMap_of_mapM ?_ h
  intro item item' hitem
  simp only [bind_eq_ok, pure_eq_ok] at hitem
  obtain ⟨e, he, rfl⟩ := hitem
  exact Expr.parameters_resolve he

/-- Resolving order keys keeps their parameters. -/
theorem Scope.parameters_resolveKeys {keys keys' : List OrderKey}
    (h : scope.resolveKeys keys = .ok keys') :
    OrderKey.parametersAll keys' = OrderKey.parametersAll keys := by
  rw [OrderKey.parametersAll_eq, OrderKey.parametersAll_eq]
  refine flatMap_of_mapM ?_ h
  intro key key' hkey
  simp only [bind_eq_ok, pure_eq_ok] at hkey
  obtain ⟨e, he, rfl⟩ := hkey
  rw [OrderKey.parameters, OrderKey.parameters, Expr.parameters_resolve he]

/-- Resolving assignments keeps their parameters. -/
theorem Scope.parameters_resolveAssignments {assignments assignments' : List Assignment}
    (h : scope.resolveAssignments assignments = .ok assignments') :
    Assignment.parametersAll assignments' = Assignment.parametersAll assignments := by
  rw [Assignment.parametersAll_eq, Assignment.parametersAll_eq]
  refine flatMap_of_mapM ?_ h
  intro a a' ha
  simp only [bind_eq_ok, pure_eq_ok] at ha
  obtain ⟨e, he, rfl⟩ := ha
  exact Expr.parameters_resolve he

/-- Resolving an action upon a conflict keeps its parameters. -/
theorem ConflictAction.parameters_resolve {action action' : ConflictAction}
    (h : action.resolve scope = .ok action') : action'.parameters = action.parameters := by
  cases action with
  | doNothing =>
    cases h
    rfl
  | doUpdate assignments =>
    cases assignments with
    | nil => cases h
    | cons a assignments =>
      simp only [ConflictAction.resolve, List.isEmpty_cons, Bool.false_eq_true, if_false,
        bind_eq_ok, pure_eq_ok] at h
      obtain ⟨assignments', hassignments, rfl⟩ := h
      exact Scope.parameters_resolveAssignments hassignments

end Resolving

section Lowering

/-- The parameters of what a stage adds to a SELECT. -/
def Addition.parameters : Addition → List Occurrence
  | .join added => Join.parameters [added]
  | .filter e | .having e | .offset e | .limit e => e.parameters
  | .groupBy keys => Expr.parametersAll keys
  | .select items => SelectItem.parametersAll items
  | .distinct => []
  | .orderBy keys => OrderKey.parametersAll keys

/-- The parameters of a SELECT, clause by clause in the order of writing. -/
theorem Block.parameters_eq (b : Block) :
    b.parameters = SelectItem.parametersOption b.projection ++ b.origin.parameters ++
      Join.parameters b.joins ++ Expr.parametersAll b.filters ++ Expr.parametersAll b.groupBy ++
      Expr.parametersAll b.having ++ OrderKey.parametersAll b.orderBy ++
      Expr.parametersOption b.limit ++ Expr.parametersOption b.offset := by
  cases b
  rfl

/-- The parameters of joins are those of the first ones and then those of the others. -/
theorem Join.parameters_append (joins joins' : List Join) :
    Join.parameters (joins ++ joins') = Join.parameters joins ++ Join.parameters joins' := by
  induction joins with
  | nil => rfl
  | cons join joins ih =>
    obtain ⟨kind, target, condition⟩ := join
    simp [Join.parameters, ih]

/-- The parameters of a last expression come last. -/
theorem Expr.parametersAll_concat (es : List Expr) (e : Expr) :
    Expr.parametersAll (es ++ [e]) = Expr.parametersAll es ++ e.parameters := by
  simp [Expr.parametersAll_eq]

/-- A SELECT that accepts a clause has, once it is added, the parameters of both. -/
theorem Block.parameters_add {b : Block} {a : Addition} (haccepts : b.accepts a.clause = true) :
    (b.add a).parameters.Perm (b.parameters ++ a.parameters) := by
  have hlacks := Block.lacks_of_accepts haccepts
  rw [Block.parameters_eq, Block.parameters_eq, List.perm_iff_count]
  intro p
  cases a with
  | join added =>
    simp only [Block.add, Addition.parameters, Join.parameters_append, List.count_append]
    omega
  | filter e | having e =>
    simp only [Block.add, Addition.parameters, Expr.parametersAll_concat, List.count_append]
    omega
  | distinct => simp [Block.add, Addition.parameters]
  | groupBy keys =>
    have hgroup : b.groupBy = [] := hlacks
    simp only [Block.add, Addition.parameters, hgroup, Expr.parametersAll, List.count_append,
      List.count_nil]
    omega
  | select items =>
    have hprojection : b.projection = none := hlacks
    simp only [Block.add, Addition.parameters, hprojection, SelectItem.parametersOption,
      List.count_append, List.count_nil]
    omega
  | orderBy keys =>
    have horder : b.orderBy = [] := hlacks
    simp only [Block.add, Addition.parameters, horder, OrderKey.parametersAll, List.count_append,
      List.count_nil]
    omega
  | offset e =>
    have hoffset : b.offset = none := hlacks
    simp only [Block.add, Addition.parameters, hoffset, Expr.parametersOption, List.count_append,
      List.count_nil]
    omega
  | limit e =>
    have hlimit : b.limit = none := hlacks
    simp only [Block.add, Addition.parameters, hlimit, Expr.parametersOption, List.count_append,
      List.count_nil]
    omega

/-- The SELECT opened over a statement has the parameters of the statement. -/
theorem Statement.parameters_blockFor (clause : Clause) (name : String) (s : Statement) :
    (s.blockFor clause name).parameters = s.parameters := by
  have horigin (s : Statement) : (Block.ofOrigin (.derived s name)).parameters = s.parameters := by
    simp [Block.parameters_eq, Block.ofOrigin, SelectItem.parametersOption, Join.parameters,
      Origin.parameters, Expr.parametersAll, OrderKey.parametersAll, Expr.parametersOption]
  cases s with
  | select block =>
    by_cases h : block.accepts clause = true
    · rw [Statement.blockFor, if_pos h]
      rfl
    · rw [Statement.blockFor, if_neg h]
      exact horigin _
  | _ => exact horigin _

/-- A statement that a row stage extends has the parameters it had and those that are added. -/
theorem Statement.parameters_extend (name : String) (s : Statement) (a : Option Addition) :
    (s.extend name a).parameters.Perm (s.parameters ++ a.elim [] Addition.parameters) := by
  cases a with
  | none =>
    rw [Option.elim_none, List.append_nil]
    exact .refl _
  | some a =>
    have hadd := Block.parameters_add (s.accepts_blockFor a.clause name)
    rwa [Statement.parameters_blockFor] at hadd

/-- A filter in front of ON CONFLICT has no parameters. -/
theorem Statement.parameters_guardJoin : ∀ s : Statement, s.guardJoin.parameters = s.parameters
  | .select block => by
    cases hfilters : block.filters with
    | nil =>
      simp [Statement.guardJoin, hfilters, Statement.parameters, Block.parameters_eq,
        Expr.parametersAll, Expr.parameters]
    | cons e es => simp [Statement.guardJoin, hfilters]
  | .withCtes recursive ctes body => by
    simp only [Statement.guardJoin, Statement.parameters, Statement.parameters_guardJoin body]
  | .setOperation .. | .insert _ | .update _ | .delete _ => rfl
termination_by structural s => s

/-- The parameters of an INSERT are those of its rows, of its rule upon a conflict and of what it
returns. -/
theorem Insert.parameters_eq (i : Insert) :
    i.parameters = i.source.elim [] InsertSource.parameters ++ Upsert.parameters i.upsert ++
      SelectItem.parametersOption i.returning := by
  obtain ⟨name, columns, source, upsert, returning⟩ := i
  cases source <;> rfl

/-- The guard of an INSERT has no parameters. -/
theorem Insert.parameters_guardJoin (d : Dialect) (i : Insert) :
    (i.guardJoin d).parameters = i.parameters := by
  unfold Insert.guardJoin
  split
  · next body _ hsource =>
    simp only [Insert.parameters_eq, hsource, Option.elim_some, InsertSource.parameters,
      Statement.parameters_guardJoin]
  · rfl

mutual

/-- The statement of a query has the parameters of the query. -/
theorem Query.parameters_lower (d : Dialect) : ∀ {q : Query} {s : Statement}, q.lower d = .ok s →
    s.parameters.Perm q.parameters
  | .table _, s, h | .insertInto .., s, h | .update _, s, h | .deleteFrom _, s, h => by
    cases h
    exact .refl _
  | .setOperation op all left right, s, h => by
    obtain ⟨-, left', right', hleft, hright, rfl⟩ := Query.lower_setOperation.mp h
    exact (Query.parameters_lower d (Query.lowerRows_eq_ok.mp hleft).1).append
      (Query.parameters_lower d (Query.lowerRows_eq_ok.mp hright).1)
  | .withCtes recursive ctes main, s, h => by
    obtain ⟨-, -, ctes', body, hctes, hbody, rfl⟩ := Query.lower_withCtes.mp h
    exact (Cte.parameters_lowerAll d hctes).append (Query.parameters_lower d hbody)
  | .step source stage, s, h => by
    obtain ⟨s₀, hs₀, hperm⟩ := Stage.parameters_lower d h
    exact hperm.trans ((Query.parameters_lower d hs₀).append_right stage.parameters)
termination_by structural q => q

/-- Lowering the entries of a WITH keeps their parameters, up to their order. -/
theorem Cte.parameters_lowerAll (d : Dialect) : ∀ {ctes : List (Cte Query)}
    {ctes' : List (Cte Statement)}, Cte.lowerAll d ctes = .ok ctes' →
    (Cte.parameters ctes').Perm (Cte.queryParameters ctes)
  | [], ctes', h => by
    cases h
    exact .refl _
  | ⟨name, columns, body⟩ :: ctes, ctes', h => by
    simp only [Cte.lowerAll, bind_eq_ok, pure_eq_ok] at h
    obtain ⟨body', hbody, ctes', hctes, rfl⟩ := h
    exact (Query.parameters_lower d hbody).append (Cte.parameters_lowerAll d hctes)
termination_by structural ctes => ctes

/-- Lowering what is joined keeps its parameters, up to their order. -/
theorem JoinTarget.parameters_lower (d : Dialect) : ∀ {target : JoinTarget Query}
    {target' : JoinTarget Statement}, JoinTarget.lower d target = .ok target' →
    (JoinTarget.parameters target').Perm (JoinTarget.queryParameters target)
  | .table _, target', h => by
    cases h
    exact .refl _
  | .lateral body name, target', h => by
    obtain ⟨-, body', hbody, rfl⟩ := JoinTarget.lower_lateral.mp h
    exact Query.parameters_lower d (Query.lowerRows_eq_ok.mp hbody).1
termination_by structural target => target

/-- A stage adds its own parameters to those of its source. -/
theorem Stage.parameters_lower (d : Dialect) {scope : Scope} {source : Source} : ∀ {stage : Stage}
    {s : Statement}, stage.lower d scope source = .ok s →
    ∃ s₀, source.statement = .ok s₀ ∧ s.parameters.Perm (s₀.parameters ++ stage.parameters)
  | .filter e, s, h | .having e, s, h | .limit e, s, h | .offset e, s, h => by
    obtain ⟨a, s₀, ha, hs₀, -, rfl⟩ := (Stage.lower_rowStage_eq_ok rfl).mp h
    simp only [Stage.addition, bind_eq_ok, pure_eq_ok] at ha
    obtain ⟨e', he', rfl⟩ := ha
    refine ⟨s₀, hs₀, (Statement.parameters_extend _ s₀ _).trans ?_⟩
    simp only [Option.elim_some, Addition.parameters, Stage.parameters,
      Expr.parameters_resolve he']
    exact .refl _
  | .join target condition kind, s, h => by
    obtain ⟨a, s₀, ha, hs₀, -, rfl⟩ := (Stage.lower_rowStage_eq_ok rfl).mp h
    simp only [Stage.addition, bind_eq_ok, pure_eq_ok] at ha
    obtain ⟨-, -, condition', hcondition, target', htarget, rfl⟩ := ha
    refine ⟨s₀, hs₀, (Statement.parameters_extend _ s₀ _).trans (List.Perm.append_left _ ?_)⟩
    simp only [Option.elim_some, Addition.parameters, Stage.parameters, Join.parameters,
      Scope.parameters_resolveOption hcondition, List.append_nil]
    exact (JoinTarget.parameters_lower d htarget).append_right _
  | .select _ [], _, h | .orderBy [], _, h => by cases h
  | .select _ (item :: items), s, h => by
    obtain ⟨a, s₀, ha, hs₀, -, rfl⟩ := (Stage.lower_rowStage_eq_ok rfl).mp h
    simp only [Stage.addition, List.isEmpty_cons, Bool.false_eq_true, if_false, bind_eq_ok,
      pure_eq_ok] at ha
    obtain ⟨items', hitems, rfl⟩ := ha
    refine ⟨s₀, hs₀, (Statement.parameters_extend _ s₀ _).trans ?_⟩
    simp only [Option.elim_some, Addition.parameters, Stage.parameters,
      Scope.parameters_resolveItems hitems]
    exact .refl _
  | .orderBy (key :: keys), s, h => by
    obtain ⟨a, s₀, ha, hs₀, -, rfl⟩ := (Stage.lower_rowStage_eq_ok rfl).mp h
    simp only [Stage.addition, List.isEmpty_cons, Bool.false_eq_true, if_false, bind_eq_ok,
      pure_eq_ok] at ha
    obtain ⟨keys', hkeys, rfl⟩ := ha
    refine ⟨s₀, hs₀, (Statement.parameters_extend _ s₀ _).trans ?_⟩
    simp only [Option.elim_some, Addition.parameters, Stage.parameters,
      Scope.parameters_resolveKeys hkeys]
    exact .refl _
  | .distinct, s, h | .groupBy [], s, h => by
    obtain ⟨a, s₀, ha, hs₀, -, rfl⟩ := (Stage.lower_rowStage_eq_ok rfl).mp h
    cases ha
    exact ⟨s₀, hs₀, Statement.parameters_extend _ s₀ _⟩
  | .groupBy (key :: keys), s, h => by
    obtain ⟨a, s₀, ha, hs₀, -, rfl⟩ := (Stage.lower_rowStage_eq_ok rfl).mp h
    simp only [Stage.addition, bind_eq_ok, pure_eq_ok] at ha
    obtain ⟨keys', hkeys, rfl⟩ := ha
    refine ⟨s₀, hs₀, (Statement.parameters_extend _ s₀ _).trans ?_⟩
    simp only [Option.elim_some, Addition.parameters, Stage.parameters,
      Scope.parameters_resolveAll hkeys]
    exact .refl _
  | .values rows, s, h => by
    obtain ⟨i, rows', hi, hr, hsource, -, hrows, rfl⟩ := Stage.lower_values.mp h
    refine ⟨_, hi, List.perm_iff_count.mpr fun p => ?_⟩
    simp only [Statement.parameters, Stage.parameters, Insert.parameters_eq, hsource,
      Option.elim_none, Option.elim_some, InsertSource.parameters,
      Scope.parameters_resolveRows hrows, List.count_append, List.count_nil]
    omega
  | .insertSelect rows, s, h => by
    obtain ⟨i, body, hi, hr, hsource, hrows, rfl⟩ := Stage.lower_insertSelect.mp h
    have hbody := Query.parameters_lower d (Query.lowerRows_eq_ok.mp hrows).1
    refine ⟨_, hi, List.perm_iff_count.mpr fun p => ?_⟩
    simp only [Statement.parameters, Stage.parameters, Insert.parameters_eq, hsource,
      Option.elim_none, Option.elim_some, InsertSource.parameters, List.count_append,
      List.count_nil, hbody.count_eq]
    omega
  | .onConflict target action, s, h => by
    obtain ⟨-, i, action', hi, hr, hsource, hupsert, haction, rfl⟩ := Stage.lower_onConflict.mp h
    refine ⟨_, hi, ?_⟩
    rw [Statement.parameters, Insert.parameters_guardJoin]
    simp only [Statement.parameters, Stage.parameters, Insert.parameters_eq, hupsert, hr,
      Upsert.parameters, SelectItem.parametersOption, ConflictAction.parameters_resolve haction,
      List.append_nil]
    exact .refl _
  | .set assignments, s, h => by
    obtain ⟨-, u, assignments', hu, hr, hfilters, hassignments, rfl⟩ := Stage.lower_set.mp h
    refine ⟨_, hu, List.perm_iff_count.mpr fun p => ?_⟩
    have happend : Assignment.parametersAll (u.assignments ++ assignments') =
        Assignment.parametersAll u.assignments ++ Assignment.parametersAll assignments' := by
      simp [Assignment.parametersAll_eq]
    simp only [Statement.parameters, Stage.parameters, Update.parameters, happend,
      Scope.parameters_resolveAssignments hassignments, List.count_append]
    omega
  | .updateWhere e, s, h => by
    obtain ⟨u, e', hu, hr, he, rfl⟩ := Stage.lower_updateWhere.mp h
    refine ⟨_, hu, List.perm_iff_count.mpr fun p => ?_⟩
    simp only [Statement.parameters, Stage.parameters, Update.parameters,
      Expr.parametersAll_concat, Expr.parameters_resolve he, List.count_append]
    omega
  | .deleteWhere e, s, h => by
    obtain ⟨x, e', hx, hr, he, rfl⟩ := Stage.lower_deleteWhere.mp h
    refine ⟨_, hx, List.perm_iff_count.mpr fun p => ?_⟩
    simp only [Statement.parameters, Stage.parameters, Delete.parameters,
      Expr.parametersAll_concat, Expr.parameters_resolve he, List.count_append]
    omega
  | .returning _ items, s, h => by
    obtain ⟨-, -, items', s₀, hitems, hs₀, hadd⟩ := Stage.lower_returning.mp h
    have hparameters := Scope.parameters_resolveItems hitems
    refine ⟨s₀, hs₀, List.perm_iff_count.mpr fun p => ?_⟩
    rcases Statement.addReturning_eq_ok.mp hadd with
      ⟨i, rfl, hr, rfl⟩ | ⟨u, rfl, hr, rfl⟩ | ⟨x, rfl, hr, rfl⟩
    · simp [Statement.parameters, Stage.parameters, Insert.parameters_eq, hr,
        SelectItem.parametersOption, hparameters]
    · simp [Statement.parameters, Stage.parameters, Update.parameters, hr,
        SelectItem.parametersOption, hparameters]
    · simp [Statement.parameters, Stage.parameters, Delete.parameters, hr,
        SelectItem.parametersOption, hparameters]
termination_by structural stage => stage

end

end Lowering

end SqlAlgebra
