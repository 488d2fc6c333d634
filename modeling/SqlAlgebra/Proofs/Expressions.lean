import Mathlib.Algebra.Order.Group.Multiset
import SqlAlgebra.Proofs.Forms
import SqlAlgebra.Query.Depth

/-!
# Lowering keeps the expressions

The expressions of a statement are those of the stages it was made from, resolved, and nothing else
but the filters that are put in front of ON CONFLICT. Each stands in the statement as often as in
the query, so what holds of all expressions of the one can be asked of the other.
-/

namespace SqlAlgebra

/-- The expressions of a list of items, if there is one. -/
def SelectItem.exprs : Option (List SelectItem) → List Expr
  | none => []
  | some items => items.map (·.expr)

/-- The values that are assigned upon a conflict. -/
def ConflictAction.exprs : ConflictAction → List Expr
  | .doNothing => []
  | .doUpdate assignments => assignments.map (·.value)

/-- The expressions of a rule upon a conflict. -/
def Upsert.exprs : Option Upsert → List Expr
  | none => []
  | some upsert => upsert.action.exprs

/-- The expressions of an UPDATE. -/
def Update.exprs (u : Update) : List Expr :=
  u.assignments.map (·.value) ++ u.filters ++ SelectItem.exprs u.returning

/-- The expressions of a DELETE. -/
def Delete.exprs (x : Delete) : List Expr := x.filters ++ SelectItem.exprs x.returning

mutual

/-- The expressions of a statement in the order of its text, those of nested queries apart. -/
def Statement.exprs : Statement → List Expr
  | .select block => block.exprs
  | .setOperation _ _ left right => left.exprs ++ right.exprs
  | .withCtes _ ctes body => Cte.exprs ctes ++ body.exprs
  | .insert i => i.exprs
  | .update u => u.exprs
  | .delete x => x.exprs
termination_by structural s => s

def Block.exprs : Block → List Expr
  | ⟨origin, joins, filters, groupBy, having, projection, _, orderBy, limit, offset⟩ =>
    SelectItem.exprs projection ++ origin.exprs ++ Join.exprs joins ++ filters ++ groupBy ++
      having ++ orderBy.map (·.expr) ++ limit.toList ++ offset.toList
termination_by structural b => b

def Origin.exprs : Origin → List Expr
  | .table _ => []
  | .derived body _ => body.exprs
termination_by structural o => o

def Join.exprs : List Join → List Expr
  | [] => []
  | ⟨_, target, condition⟩ :: joins =>
    JoinTarget.exprs target ++ condition.toList ++ Join.exprs joins
termination_by structural joins => joins

def JoinTarget.exprs : JoinTarget Statement → List Expr
  | .table _ => []
  | .lateral body _ => body.exprs
termination_by structural target => target

def Cte.exprs : List (Cte Statement) → List Expr
  | [] => []
  | ⟨_, _, body⟩ :: ctes => body.exprs ++ Cte.exprs ctes
termination_by structural ctes => ctes

def Insert.exprs : Insert → List Expr
  | ⟨_, _, none, upsert, returning⟩ => Upsert.exprs upsert ++ SelectItem.exprs returning
  | ⟨_, _, some source, upsert, returning⟩ =>
    source.exprs ++ Upsert.exprs upsert ++ SelectItem.exprs returning
termination_by structural i => i

def InsertSource.exprs : InsertSource → List Expr
  | .values rows => rows.flatten
  | .select body => body.exprs
termination_by structural s => s

end

mutual

/-- The expressions of a query with the scopes of their placeholders, from the root upwards, those
of nested queries apart. -/
def Query.scopedExprs : Query → List (Scope × Expr)
  | .table _ | .insertInto .. | .update _ | .deleteFrom _ => []
  | .setOperation _ _ left right => left.scopedExprs ++ right.scopedExprs
  | .withCtes _ ctes main => Cte.scopedExprs ctes ++ main.scopedExprs
  | .step source stage =>
    source.scopedExprs ++ stage.scopedExprs (Query.step source stage).scope
termination_by structural q => q

def Cte.scopedExprs : List (Cte Query) → List (Scope × Expr)
  | [] => []
  | ⟨_, _, body⟩ :: ctes => body.scopedExprs ++ Cte.scopedExprs ctes
termination_by structural ctes => ctes

def JoinTarget.scopedExprs : JoinTarget Query → List (Scope × Expr)
  | .table _ => []
  | .lateral body _ => body.scopedExprs
termination_by structural target => target

def Stage.scopedExprs (scope : Scope) : Stage → List (Scope × Expr)
  | .filter e | .limit e | .offset e | .having e | .updateWhere e | .deleteWhere e => [(scope, e)]
  | .join target condition _ =>
    JoinTarget.scopedExprs target ++ condition.toList.map (scope, ·)
  | .select _ items | .returning _ items => items.map fun item => (scope, item.expr)
  | .orderBy keys => keys.map fun key => (scope, key.expr)
  | .distinct => []
  | .groupBy keys => keys.map (scope, ·)
  | .values rows => rows.flatten.map (scope, ·)
  | .insertSelect rows => rows.scopedExprs
  | .onConflict _ action => action.exprs.map (scope, ·)
  | .set assignments => assignments.map fun a => (scope, a.value)
termination_by structural stage => stage

end

/-- An expression is resolved by filling in its placeholders, or it has none. -/
theorem Expr.resolve_eq_ok {scope : Scope} {e e' : Expr} :
    e.resolve scope = .ok e' ↔ (∃ table, scope = .table table ∧ e' = e.qualify table) ∨
      ∃ reason, scope = .ambiguous reason ∧ e.firstPlaceholder? = none ∧ e' = e := by
  cases scope with
  | table table => simp [Expr.resolve, eq_comm]
  | ambiguous reason =>
    cases hfield : e.firstPlaceholder? with
    | some field => simp [Expr.resolve, hfield]
    | none => simp [Expr.resolve, hfield, eq_comm]

/-- An expression that a filter in front of ON CONFLICT consists of. -/
def Expr.guard : Expr := .literal (.bool true)

/-- The second expressions are the first ones, resolved and in some order, and guards besides. -/
def Carries (ys : List (Scope × Expr)) (xs : List Expr) : Prop :=
  ∃ zs guards, List.Forall₂ (fun y z => y.2.resolve y.1 = .ok z) ys zs ∧
    (∀ g ∈ guards, g = Expr.guard) ∧ xs.Perm (zs ++ guards)

namespace Carries

/-- Nothing carries nothing. -/
theorem nil : Carries [] [] := ⟨[], [], .nil, by simp, .refl _⟩

/-- Expressions that are resolved one by one are carried. -/
theorem of_forall₂ {ys : List (Scope × Expr)} {xs : List Expr}
    (h : List.Forall₂ (fun y z => y.2.resolve y.1 = .ok z) ys xs) : Carries ys xs :=
  ⟨xs, [], h, by simp, by simp⟩

/-- What two parts carry, they carry together. -/
theorem append {ys ys' : List (Scope × Expr)} {xs xs' : List Expr} (h : Carries ys xs)
    (h' : Carries ys' xs') : Carries (ys ++ ys') (xs ++ xs') := by
  obtain ⟨zs, guards, hzs, hguards, hperm⟩ := h
  obtain ⟨zs', guards', hzs', hguards', hperm'⟩ := h'
  refine ⟨zs ++ zs', guards ++ guards', List.rel_append hzs hzs', ?_, ?_⟩
  · intro g hg
    rcases List.mem_append.mp hg with hg | hg
    · exact hguards g hg
    · exact hguards' g hg
  · have hswap : (guards ++ zs').Perm (zs' ++ guards) := List.perm_append_comm
    have hmiddle := (hswap.append_left zs).append_right guards'
    refine (hperm.append hperm').trans ?_
    simpa using hmiddle

/-- The order in which a statement holds its expressions does not matter. -/
theorem perm {ys : List (Scope × Expr)} {xs xs' : List Expr} (h : Carries ys xs)
    (hperm : xs'.Perm xs) : Carries ys xs' := by
  obtain ⟨zs, guards, hzs, hguards, hxs⟩ := h
  exact ⟨zs, guards, hzs, hguards, hperm.trans hxs⟩

/-- The condition that guards an INSERT may stand among the expressions that are carried. -/
theorem guard {ys : List (Scope × Expr)} {xs : List Expr} (h : Carries ys xs) :
    Carries ys (Expr.guard :: xs) := by
  obtain ⟨zs, guards, hzs, hguards, hxs⟩ := h
  refine ⟨zs, Expr.guard :: guards, hzs, ?_, ?_⟩
  · simpa using hguards
  · exact (hxs.cons Expr.guard).trans List.perm_middle.symm

/-- Every expression of the second list is a guard or a resolved one of the first. -/
theorem mem {ys : List (Scope × Expr)} {xs : List Expr} (h : Carries ys xs) {x : Expr}
    (hx : x ∈ xs) : x = Expr.guard ∨ ∃ y ∈ ys, y.2.resolve y.1 = .ok x := by
  obtain ⟨zs, guards, hzs, hguards, hperm⟩ := h
  rcases List.mem_append.mp (hperm.mem_iff.mp hx) with hmem | hmem
  · right
    obtain ⟨k, hk, rfl⟩ := List.getElem_of_mem hmem
    have hk' : k < ys.length := by rw [hzs.length_eq]; exact hk
    exact ⟨ys[k], List.getElem_mem hk', hzs.get hk' hk⟩
  · left
    exact hguards x hmem

end Carries

/-- Resolving a list part by part resolves the expressions of its parts. -/
theorem Scope.forall₂_mapM {α : Type} {scope : Scope} (expr : α → Expr)
    {f : α → Except CompileError α} {as bs : List α}
    (hf : ∀ a b, f a = .ok b → (expr a).resolve scope = .ok (expr b)) (h : as.mapM f = .ok bs) :
    List.Forall₂ (fun y z => y.2.resolve y.1 = .ok z) (as.map fun a => (scope, expr a))
      (bs.map expr) := by
  rw [List.forall₂_map_left_iff, List.forall₂_map_right_iff]
  exact (mapM_eq_ok.mp h).imp hf

/-- A list is resolved expression by expression. -/
theorem Scope.forall₂_resolveAll {scope : Scope} {es es' : List Expr}
    (h : scope.resolveAll es = .ok es') :
    List.Forall₂ (fun y z => y.2.resolve y.1 = .ok z) (es.map (scope, ·)) es' := by
  have hresolved := Scope.forall₂_mapM id (fun _ _ hab => hab) h
  simpa using hresolved

/-- Projected items are resolved one by one. -/
theorem Scope.forall₂_resolveItems {scope : Scope} {items items' : List SelectItem}
    (h : scope.resolveItems items = .ok items') :
    List.Forall₂ (fun y z => y.2.resolve y.1 = .ok z)
      (items.map fun item => (scope, item.expr)) (items'.map (·.expr)) := by
  refine Scope.forall₂_mapM SelectItem.expr ?_ h
  intro item item' hitem
  obtain ⟨e, he, rfl⟩ : ∃ e, item.expr.resolve scope = .ok e ∧ { item with expr := e } = item' := by
    simpa only [bind_eq_ok, pure_eq_ok] using hitem
  exact he

/-- Order keys are resolved one by one. -/
theorem Scope.forall₂_resolveKeys {scope : Scope} {keys keys' : List OrderKey}
    (h : scope.resolveKeys keys = .ok keys') :
    List.Forall₂ (fun y z => y.2.resolve y.1 = .ok z)
      (keys.map fun key => (scope, key.expr)) (keys'.map (·.expr)) := by
  refine Scope.forall₂_mapM OrderKey.expr ?_ h
  intro key key' hkey
  obtain ⟨e, he, rfl⟩ : ∃ e, key.expr.resolve scope = .ok e ∧ { key with expr := e } = key' := by
    simpa only [bind_eq_ok, pure_eq_ok] using hkey
  exact he

/-- An expression that may be missing is resolved where there is one. -/
theorem Scope.forall₂_resolveOption {scope : Scope} {e e' : Option Expr}
    (h : scope.resolveOption e = .ok e') :
    List.Forall₂ (fun y z => y.2.resolve y.1 = .ok z) (e.toList.map (scope, ·)) e'.toList := by
  cases e with
  | none =>
    cases h
    exact .nil
  | some e =>
    simp only [Scope.resolveOption, bind_eq_ok, pure_eq_ok] at h
    obtain ⟨x, hx, rfl⟩ := h
    exact .cons hx .nil

/-- A resolved list carries the expressions of the list. -/
theorem Scope.carries_resolveAll {scope : Scope} {es es' : List Expr}
    (h : scope.resolveAll es = .ok es') : Carries (es.map (scope, ·)) es' :=
  .of_forall₂ (Scope.forall₂_resolveAll h)

/-- Resolved items carry the expressions of the items. -/
theorem Scope.carries_resolveItems {scope : Scope} {items items' : List SelectItem}
    (h : scope.resolveItems items = .ok items') :
    Carries (items.map fun item => (scope, item.expr)) (items'.map (·.expr)) :=
  .of_forall₂ (Scope.forall₂_resolveItems h)

/-- Resolved keys carry the expressions of the keys. -/
theorem Scope.carries_resolveKeys {scope : Scope} {keys keys' : List OrderKey}
    (h : scope.resolveKeys keys = .ok keys') :
    Carries (keys.map fun key => (scope, key.expr)) (keys'.map (·.expr)) :=
  .of_forall₂ (Scope.forall₂_resolveKeys h)

/-- Resolved assignments carry the values that are assigned. -/
theorem Scope.carries_resolveAssignments {scope : Scope}
    {assignments assignments' : List Assignment}
    (h : scope.resolveAssignments assignments = .ok assignments') :
    Carries (assignments.map fun a => (scope, a.value)) (assignments'.map (·.value)) := by
  refine .of_forall₂ (Scope.forall₂_mapM Assignment.value ?_ h)
  intro a a' ha
  obtain ⟨e, he, rfl⟩ : ∃ e, a.value.resolve scope = .ok e ∧ { a with value := e } = a' := by
    simpa only [bind_eq_ok, pure_eq_ok] using ha
  exact he

/-- A resolved expression that may be missing carries the expression, if there is one. -/
theorem Scope.carries_resolveOption {scope : Scope} {e e' : Option Expr}
    (h : scope.resolveOption e = .ok e') : Carries (e.toList.map (scope, ·)) e'.toList :=
  .of_forall₂ (Scope.forall₂_resolveOption h)

/-- Resolved rows carry the values of the rows. -/
theorem Scope.carries_resolveRows {scope : Scope} {rows rows' : List (List Expr)}
    (h : scope.resolveRows rows = .ok rows') :
    Carries (rows.flatten.map (scope, ·)) rows'.flatten := by
  have hrows := mapM_eq_ok.mp h
  clear h
  induction hrows with
  | nil => exact .nil
  | cons hrow _ ih =>
    rw [List.flatten_cons, List.flatten_cons, List.map_append]
    exact (Scope.carries_resolveAll hrow).append ih

/-- A resolved action upon a conflict carries its expressions. -/
theorem ConflictAction.carries_resolve {scope : Scope} {action action' : ConflictAction}
    (h : action.resolve scope = .ok action') :
    Carries (action.exprs.map (scope, ·)) action'.exprs := by
  cases action with
  | doNothing =>
    cases h
    exact .nil
  | doUpdate assignments =>
    cases assignments with
    | nil => cases h
    | cons a assignments =>
      simp only [ConflictAction.resolve, List.isEmpty_cons, Bool.false_eq_true, if_false,
        bind_eq_ok, pure_eq_ok] at h
      obtain ⟨assignments', hassignments, rfl⟩ := h
      have hcarries := Scope.carries_resolveAssignments hassignments
      rw [ConflictAction.exprs, List.map_map]
      exact hcarries

/-- The expressions that are added to a SELECT. -/
def Addition.exprs : Addition → List Expr
  | .join added => Join.exprs [added]
  | .filter e | .having e | .offset e | .limit e => [e]
  | .groupBy keys => keys
  | .select items => items.map (·.expr)
  | .distinct => []
  | .orderBy keys => keys.map (·.expr)

/-- The expressions of a SELECT, clause by clause in the order of writing. -/
theorem Block.exprs_eq (b : Block) :
    b.exprs = SelectItem.exprs b.projection ++ b.origin.exprs ++ Join.exprs b.joins ++ b.filters ++
      b.groupBy ++ b.having ++ b.orderBy.map (·.expr) ++ b.limit.toList ++ b.offset.toList := by
  cases b
  rfl

/-- The expressions of joins are those of the first ones and then those of the others. -/
theorem Join.exprs_append (joins joins' : List Join) :
    Join.exprs (joins ++ joins') = Join.exprs joins ++ Join.exprs joins' := by
  induction joins with
  | nil => rfl
  | cons join joins ih =>
    obtain ⟨kind, target, condition⟩ := join
    simp [Join.exprs, ih]

/-- A SELECT that accepts a clause holds, once it is added, the expressions of both. -/
theorem Block.exprs_add {b : Block} {a : Addition} (haccepts : b.accepts a.clause = true) :
    (b.add a).exprs.Perm (b.exprs ++ a.exprs) := by
  have hlacks := Block.lacks_of_accepts haccepts
  rw [Block.exprs_eq, Block.exprs_eq, ← Multiset.coe_eq_coe]
  cases a with
  | join added =>
    simp only [Block.add, Addition.exprs, Join.exprs_append, ← Multiset.coe_add]
    ac_rfl
  | filter e | having e =>
    simp only [Block.add, Addition.exprs, ← Multiset.coe_add]
    ac_rfl
  | distinct => simp [Block.add, Addition.exprs]
  | groupBy keys =>
    have hgroup : b.groupBy = [] := hlacks
    simp only [Block.add, Addition.exprs, hgroup, List.append_nil, ← Multiset.coe_add]
    ac_rfl
  | select items =>
    have hprojection : b.projection = none := hlacks
    simp only [Block.add, Addition.exprs, hprojection, SelectItem.exprs, List.nil_append,
      ← Multiset.coe_add]
    ac_rfl
  | orderBy keys =>
    have horder : b.orderBy = [] := hlacks
    simp only [Block.add, Addition.exprs, horder, List.map_nil, List.append_nil, ← Multiset.coe_add]
    ac_rfl
  | offset e =>
    have hoffset : b.offset = none := hlacks
    simp only [Block.add, Addition.exprs, hoffset, Option.toList_some, Option.toList_none,
      List.append_nil, ← Multiset.coe_add]
  | limit e =>
    have hlimit : b.limit = none := hlacks
    simp only [Block.add, Addition.exprs, hlimit, Option.toList_some, Option.toList_none,
      List.append_nil, ← Multiset.coe_add]
    ac_rfl

/-- The SELECT opened over a statement has the expressions of the statement. -/
theorem Statement.exprs_blockFor (clause : Clause) (name : String) (s : Statement) :
    (s.blockFor clause name).exprs = s.exprs := by
  have horigin (s : Statement) : (Block.ofOrigin (.derived s name)).exprs = s.exprs := by
    simp [Block.exprs_eq, Block.ofOrigin, SelectItem.exprs, Join.exprs, Origin.exprs]
  cases s with
  | select block =>
    by_cases h : block.accepts clause = true
    · rw [Statement.blockFor, if_pos h]
      rfl
    · rw [Statement.blockFor, if_neg h]
      exact horigin _
  | _ => exact horigin _

/-- A statement that a row stage extends carries what it did and what the stage adds. -/
theorem Statement.carries_extend {ys ys' : List (Scope × Expr)} {s : Statement} (name : String)
    {a : Option Addition} (hs : Carries ys s.exprs)
    (ha : Carries ys' (a.elim [] Addition.exprs)) :
    Carries (ys ++ ys') (s.extend name a).exprs := by
  cases a with
  | none =>
    have happend := hs.append ha
    rwa [Option.elim_none, List.append_nil] at happend
  | some a =>
    refine (hs.append ha).perm ?_
    have hadd := Block.exprs_add (s.accepts_blockFor a.clause name)
    rwa [Statement.exprs_blockFor] at hadd

/-- A guarded statement has the same expressions, and at most a guard besides. -/
theorem Statement.exprs_guardJoin : ∀ s : Statement,
    s.guardJoin.exprs.Perm s.exprs ∨ s.guardJoin.exprs.Perm (Expr.guard :: s.exprs)
  | .select block => by
    cases hfilters : block.filters with
    | nil =>
      right
      simp only [Statement.guardJoin, hfilters, List.isEmpty_nil, if_true, Statement.exprs,
        Block.exprs_eq, ← Multiset.coe_eq_coe, ← Multiset.cons_coe, ← Multiset.coe_add,
        ← Multiset.singleton_add]
      ac_rfl
    | cons e es =>
      left
      simp [Statement.guardJoin, hfilters]
  | .withCtes recursive ctes body => by
    rcases Statement.exprs_guardJoin body with h | h
    · left
      exact h.append_left (Cte.exprs ctes)
    · right
      exact (h.append_left (Cte.exprs ctes)).trans List.perm_middle
  | .setOperation .. | .insert _ | .update _ | .delete _ => Or.inl (.refl _)
termination_by structural s => s

/-- The expressions of an INSERT are those of its rows, of its rule upon a conflict and of what it
returns. -/
theorem Insert.exprs_eq (i : Insert) :
    i.exprs = i.source.elim [] InsertSource.exprs ++ Upsert.exprs i.upsert ++
      SelectItem.exprs i.returning := by
  obtain ⟨name, columns, source, upsert, returning⟩ := i
  cases source <;> rfl

/-- The guard of an INSERT changes nothing in what it carries. -/
theorem Insert.carries_guardJoin {ys : List (Scope × Expr)} (d : Dialect) {i : Insert}
    (h : Carries ys i.exprs) : Carries ys (i.guardJoin d).exprs := by
  unfold Insert.guardJoin
  split
  · rename_i body hupsert hsource
    rw [Insert.exprs_eq, hsource] at h
    rcases body.exprs_guardJoin with hbody | hbody
    · refine h.perm ?_
      exact (hbody.append_right _).append_right _
    · refine h.guard.perm ?_
      exact (hbody.append_right _).append_right _
  · exact h

mutual

/-- The statement of a query carries the expressions of the query. -/
theorem Query.carries_lower (d : Dialect) : ∀ {q : Query} {s : Statement}, q.lower d = .ok s →
    Carries q.scopedExprs s.exprs
  | .table _, s, h | .insertInto .., s, h | .update _, s, h | .deleteFrom _, s, h => by
    cases h
    exact .nil
  | .setOperation op all left right, s, h => by
    obtain ⟨-, left', right', hleft, hright, rfl⟩ := Query.lower_setOperation.mp h
    exact (Query.carries_lower d (Query.lowerRows_eq_ok.mp hleft).1).append
      (Query.carries_lower d (Query.lowerRows_eq_ok.mp hright).1)
  | .withCtes recursive ctes main, s, h => by
    obtain ⟨-, -, ctes', body, hctes, hbody, rfl⟩ := Query.lower_withCtes.mp h
    exact (Cte.carries_lowerAll d hctes).append (Query.carries_lower d hbody)
  | .step source stage, s, h => by
    obtain ⟨s₀, hs₀, hcarries⟩ := Stage.carries_lower d h
    exact hcarries (Query.carries_lower d hs₀)
termination_by structural q => q

/-- The lowered entries of a WITH carry what the queries of the entries resolve. -/
theorem Cte.carries_lowerAll (d : Dialect) : ∀ {ctes : List (Cte Query)}
    {ctes' : List (Cte Statement)}, Cte.lowerAll d ctes = .ok ctes' →
    Carries (Cte.scopedExprs ctes) (Cte.exprs ctes')
  | [], ctes', h => by
    cases h
    exact .nil
  | ⟨name, columns, body⟩ :: ctes, ctes', h => by
    simp only [Cte.lowerAll, bind_eq_ok, pure_eq_ok] at h
    obtain ⟨body', hbody, ctes', hctes, rfl⟩ := h
    exact (Query.carries_lower d hbody).append (Cte.carries_lowerAll d hctes)
termination_by structural ctes => ctes

/-- What is joined carries, once lowered, what it resolves. -/
theorem JoinTarget.carries_lower (d : Dialect) : ∀ {target : JoinTarget Query}
    {target' : JoinTarget Statement}, JoinTarget.lower d target = .ok target' →
    Carries (JoinTarget.scopedExprs target) (JoinTarget.exprs target')
  | .table _, target', h => by
    cases h
    exact .nil
  | .lateral body name, target', h => by
    obtain ⟨-, body', hbody, rfl⟩ := JoinTarget.lower_lateral.mp h
    exact Query.carries_lower d (Query.lowerRows_eq_ok.mp hbody).1
termination_by structural target => target

/-- A stage adds to what the statement below carries what it resolves itself. -/
theorem Stage.carries_lower (d : Dialect) {scope : Scope} {source : Source} : ∀ {stage : Stage}
    {s : Statement}, stage.lower d scope source = .ok s →
    ∃ s₀, source.statement = .ok s₀ ∧ ∀ {ys}, Carries ys s₀.exprs →
      Carries (ys ++ stage.scopedExprs scope) s.exprs
  | .filter e, s, h | .having e, s, h | .limit e, s, h | .offset e, s, h => by
    obtain ⟨a, s₀, ha, hs₀, -, rfl⟩ := (Stage.lower_rowStage_eq_ok rfl).mp h
    simp only [Stage.addition, bind_eq_ok, pure_eq_ok] at ha
    obtain ⟨e', he', rfl⟩ := ha
    refine ⟨s₀, hs₀, fun hys => ?_⟩
    exact Statement.carries_extend _ hys (.of_forall₂ (.cons he' .nil))
  | .join target condition kind, s, h => by
    obtain ⟨a, s₀, ha, hs₀, -, rfl⟩ := (Stage.lower_rowStage_eq_ok rfl).mp h
    simp only [Stage.addition, bind_eq_ok, pure_eq_ok] at ha
    obtain ⟨-, -, condition', hcondition, target', htarget, rfl⟩ := ha
    refine ⟨s₀, hs₀, fun hys => Statement.carries_extend _ hys ?_⟩
    have hcarries := (JoinTarget.carries_lower d htarget).append
      (Scope.carries_resolveOption hcondition)
    simpa [Addition.exprs, Join.exprs, Stage.scopedExprs] using hcarries
  | .select _ [], _, h | .orderBy [], _, h => by cases h
  | .select _ (item :: items), s, h => by
    obtain ⟨a, s₀, ha, hs₀, -, rfl⟩ := (Stage.lower_rowStage_eq_ok rfl).mp h
    simp only [Stage.addition, List.isEmpty_cons, Bool.false_eq_true, if_false, bind_eq_ok,
      pure_eq_ok] at ha
    obtain ⟨items', hitems, rfl⟩ := ha
    exact ⟨s₀, hs₀, fun hys => Statement.carries_extend _ hys (Scope.carries_resolveItems hitems)⟩
  | .orderBy (key :: keys), s, h => by
    obtain ⟨a, s₀, ha, hs₀, -, rfl⟩ := (Stage.lower_rowStage_eq_ok rfl).mp h
    simp only [Stage.addition, List.isEmpty_cons, Bool.false_eq_true, if_false, bind_eq_ok,
      pure_eq_ok] at ha
    obtain ⟨keys', hkeys, rfl⟩ := ha
    exact ⟨s₀, hs₀, fun hys => Statement.carries_extend _ hys (Scope.carries_resolveKeys hkeys)⟩
  | .distinct, s, h => by
    obtain ⟨a, s₀, ha, hs₀, -, rfl⟩ := (Stage.lower_rowStage_eq_ok rfl).mp h
    cases ha
    exact ⟨s₀, hs₀, fun hys => Statement.carries_extend _ hys .nil⟩
  | .groupBy [], s, h => by
    obtain ⟨a, s₀, ha, hs₀, -, rfl⟩ := (Stage.lower_rowStage_eq_ok rfl).mp h
    cases ha
    exact ⟨s₀, hs₀, fun hys => Statement.carries_extend _ hys .nil⟩
  | .groupBy (key :: keys), s, h => by
    obtain ⟨a, s₀, ha, hs₀, -, rfl⟩ := (Stage.lower_rowStage_eq_ok rfl).mp h
    simp only [Stage.addition, bind_eq_ok, pure_eq_ok] at ha
    obtain ⟨keys', hkeys, rfl⟩ := ha
    exact ⟨s₀, hs₀, fun hys => Statement.carries_extend _ hys (Scope.carries_resolveAll hkeys)⟩
  | .values rows, s, h => by
    obtain ⟨i, rows', hi, hr, hsource, -, hrows, rfl⟩ := Stage.lower_values.mp h
    refine ⟨_, hi, fun hys => (hys.append (Scope.carries_resolveRows hrows)).perm ?_⟩
    simp only [Statement.exprs, Insert.exprs_eq, hsource, Option.elim_none, Option.elim_some,
      InsertSource.exprs, List.nil_append, List.append_assoc]
    rw [← List.append_assoc (Upsert.exprs i.upsert)]
    exact List.perm_append_comm
  | .insertSelect rows, s, h => by
    obtain ⟨i, body, hi, hr, hsource, hrows, rfl⟩ := Stage.lower_insertSelect.mp h
    have hbody := Query.carries_lower d (Query.lowerRows_eq_ok.mp hrows).1
    refine ⟨_, hi, fun hys => (hys.append hbody).perm ?_⟩
    simp only [Statement.exprs, Insert.exprs_eq, hsource, Option.elim_none, Option.elim_some,
      InsertSource.exprs, List.nil_append, List.append_assoc]
    rw [← List.append_assoc (Upsert.exprs i.upsert)]
    exact List.perm_append_comm
  | .onConflict target action, s, h => by
    obtain ⟨-, i, action', hi, hr, hsource, hupsert, haction, rfl⟩ := Stage.lower_onConflict.mp h
    refine ⟨_, hi, fun hys => Insert.carries_guardJoin d ?_⟩
    refine (hys.append (ConflictAction.carries_resolve haction)).perm ?_
    simp only [Statement.exprs, Insert.exprs_eq, hupsert, hr, Upsert.exprs, SelectItem.exprs,
      List.append_nil]
    exact .refl _
  | .set assignments, s, h => by
    obtain ⟨-, u, assignments', hu, hr, hfilters, hassignments, rfl⟩ := Stage.lower_set.mp h
    refine ⟨_, hu, fun hys => (hys.append (Scope.carries_resolveAssignments hassignments)).perm ?_⟩
    simp [Statement.exprs, Update.exprs, hfilters, hr, SelectItem.exprs]
  | .updateWhere e, s, h => by
    obtain ⟨u, e', hu, hr, he, rfl⟩ := Stage.lower_updateWhere.mp h
    refine ⟨_, hu, fun hys => (hys.append (.of_forall₂ (.cons he .nil))).perm ?_⟩
    simp [Statement.exprs, Update.exprs, hr, SelectItem.exprs]
  | .deleteWhere e, s, h => by
    obtain ⟨x, e', hx, hr, he, rfl⟩ := Stage.lower_deleteWhere.mp h
    refine ⟨_, hx, fun hys => (hys.append (.of_forall₂ (.cons he .nil))).perm ?_⟩
    simp [Statement.exprs, Delete.exprs, hr, SelectItem.exprs]
  | .returning _ items, s, h => by
    obtain ⟨-, -, items', s₀, hitems, hs₀, hadd⟩ := Stage.lower_returning.mp h
    refine ⟨s₀, hs₀, fun hys => (hys.append (Scope.carries_resolveItems hitems)).perm ?_⟩
    rcases Statement.addReturning_eq_ok.mp hadd with
      ⟨i, rfl, hr, rfl⟩ | ⟨u, rfl, hr, rfl⟩ | ⟨x, rfl, hr, rfl⟩
    · simp [Statement.exprs, Insert.exprs_eq, hr, SelectItem.exprs]
    · simp [Statement.exprs, Update.exprs, hr, SelectItem.exprs]
    · simp [Statement.exprs, Delete.exprs, hr, SelectItem.exprs]
termination_by structural stage => stage

end

end SqlAlgebra
