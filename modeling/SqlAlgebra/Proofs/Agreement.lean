import SqlAlgebra.Command
import SqlAlgebra.Proofs.Resolution
import SqlAlgebra.Proofs.Writing

/-!
# What the tokens of a query depend on

The compiler asks a dialect for spellings, and for capabilities and operators at the nodes that need
them. Two dialects that give the same answers at the nodes of a query therefore write the same
tokens for it, or refuse it for the same reason.
-/

namespace SqlAlgebra

/-- The two dialects differ at most in capabilities, operators, and how parameters are written. -/
structure Dialect.SpellsLike (d e : Dialect) : Prop where
  name : d.name = e.name
  quote : d.quote = e.quote
  boolean : d.boolean = e.boolean
  stringLiteral : d.stringLiteral = e.stringLiteral
  typeName : d.typeName? = e.typeName?
  supportsJoin : d.supportsJoin = e.supportsJoin
  supportsSetAll : d.supportsSetAll = e.supportsSetAll
  nulls : d.nulls = e.nulls
  offsetWithoutLimit : d.offsetWithoutLimit = e.offsetWithoutLimit
  upsert : d.upsert = e.upsert
  advisoryLock : d.advisoryLock = e.advisoryLock
  bulkCopy : d.bulkCopy = e.bulkCopy

/-- The dialects give the same answer to what a node asks for. -/
structure Node.Agrees (d e : Dialect) (n : Node) : Prop where
  capability : ∀ c, n.capability? = some c → d.supports c = e.supports c
  operator : ∀ op, n.operator? = some op → d.operator? op = e.operator? op

section Rendering

variable {d e : Dialect} {f g : Query → Rendered}

mutual

/-- An expression has the same tokens in two dialects that agree at its nodes, if the queries in it
have the same tokens. -/
theorem Expr.render_congr (h : d.SpellsLike e) (scope : Scope) : ∀ {x : Expr},
    (∀ n ∈ x.nodes scope, n.Agrees d e) → (∀ q ∈ x.queries, f q = g q) →
      x.render d f = x.render e g
  | .column .., _, _ | .placeholder _, _, _ | .parameter .., _, _ | .wildcard, _, _
  | .inList _ [] _, _, _ | .choice [] _, _, _ => rfl
  | .literal value, _, _ => by
    cases value <;> simp [Expr.render, Value.render, h.boolean]
  | .binary op left right, hn, hq => by
    simp only [Expr.nodes, Expr.queries, List.forall_mem_cons, List.forall_mem_append] at hn hq
    have hop := hn.1.operator op rfl
    have hleft := Expr.render_congr h scope hn.2.1 hq.1
    have hright := Expr.render_congr h scope hn.2.2 hq.2
    simp only [Expr.render, hop, h.name, hleft, hright]
  | .unary op operand, hn, hq => by
    simp only [Expr.nodes, List.forall_mem_cons] at hn
    simp only [Expr.render, Expr.render_congr h scope hn.2 hq]
  | .call name args distinct, hn, hq => by
    simp only [Expr.nodes, List.forall_mem_cons] at hn
    simp only [Expr.render, Expr.renderAll_congr h scope hn.2 hq]
  | .between subject low high negated, hn, hq => by
    simp only [Expr.nodes, Expr.queries, List.forall_mem_cons, List.forall_mem_append] at hn hq
    have hsubject := Expr.render_congr h scope hn.2.1.1 hq.1.1
    have hlow := Expr.render_congr h scope hn.2.1.2 hq.1.2
    have hhigh := Expr.render_congr h scope hn.2.2 hq.2
    simp only [Expr.render, hsubject, hlow, hhigh]
  | .inList subject (value :: values) negated, hn, hq => by
    simp only [Expr.nodes, List.forall_mem_cons, List.forall_mem_append] at hn
    simp only [Expr.queries, List.forall_mem_append] at hq
    have hsubject := Expr.render_congr h scope hn.2.1 hq.1
    have hvalues := Expr.renderAll_congr h scope hn.2.2 hq.2
    by_cases hquery : ∃ q, value :: values = [.subquery q]
    · obtain ⟨q, hlist⟩ := hquery
      rw [hlist] at hq ⊢
      simp only [Expr.render, hsubject, hq.2 q (by simp [Expr.queriesAll, Expr.queries])]
    · have hquery : ∀ q, value :: values ≠ [.subquery q] := not_exists.mp hquery
      rw [Expr.render_inList (List.cons_ne_nil _ _) hquery,
        Expr.render_inList (List.cons_ne_nil _ _) hquery, hsubject, hvalues]
  | .cast operand type, hn, hq => by
    simp only [Expr.nodes, List.forall_mem_cons] at hn
    simp only [Expr.render, h.name, h.typeName, Expr.render_congr h scope hn.2 hq]
  | .subquery query, _, hq => by
    simp only [Expr.render, hq query (by simp [Expr.queries])]
  | .existence query negated, _, hq => by
    simp only [Expr.render, hq query (by simp [Expr.queries])]
  | .choice (branch :: branches) otherwise, hn, hq => by
    simp only [Expr.nodes, List.forall_mem_cons, List.forall_mem_append] at hn
    simp only [Expr.queries, List.forall_mem_append] at hq
    have hbranches := Branch.renderAll_congr h scope hn.2.1 hq.1
    have hotherwise := Expr.renderElse_congr h scope hn.2.2 hq.2
    simp only [Expr.render, hbranches, hotherwise]
  | .window name args partition order frame, hn, hq => by
    simp only [Expr.nodes, Expr.queries, List.forall_mem_cons, List.forall_mem_append] at hn hq
    have hwindow := hn.1.capability .window rfl
    have hargs := Expr.renderAll_congr h scope hn.2.1.1 hq.1.1
    have hpartition := Expr.renderAll_congr h scope hn.2.1.2 hq.1.2
    have horder := OrderKey.renderAll_congr h scope hn.2.2 hq.2
    simp only [Expr.render, hwindow, h.name, hargs, hpartition, horder]
termination_by structural x => x

/-- Dialects that agree on the nodes of a list write the list alike. -/
theorem Expr.renderAll_congr (h : d.SpellsLike e) (scope : Scope) : ∀ {xs : List Expr},
    (∀ n ∈ Expr.nodesAll scope xs, n.Agrees d e) → (∀ q ∈ Expr.queriesAll xs, f q = g q) →
      Expr.renderAll d f xs = Expr.renderAll e g xs
  | [], _, _ => rfl
  | x :: xs, hn, hq => by
    simp only [Expr.nodesAll, Expr.queriesAll, List.forall_mem_append] at hn hq
    have hx := Expr.render_congr h scope hn.1 hq.1
    have hxs := Expr.renderAll_congr h scope hn.2 hq.2
    simp only [Expr.renderAll, hx, hxs]
termination_by structural xs => xs

/-- Dialects that agree on the nodes of an ELSE write it alike. -/
theorem Expr.renderElse_congr (h : d.SpellsLike e) (scope : Scope) : ∀ {x : Option Expr},
    (∀ n ∈ Expr.nodesOption scope x, n.Agrees d e) → (∀ q ∈ Expr.queriesOption x, f q = g q) →
      Expr.renderElse d f x = Expr.renderElse e g x
  | none, _, _ => rfl
  | some x, hn, hq => by
    simp only [Expr.renderElse, Expr.render_congr h scope hn hq]
termination_by structural x => x

/-- Dialects that agree on the nodes of branches write the branches alike. -/
theorem Branch.renderAll_congr (h : d.SpellsLike e) (scope : Scope) : ∀ {branches : List Branch},
    (∀ n ∈ Branch.nodesAll scope branches, n.Agrees d e) →
    (∀ q ∈ Branch.queriesAll branches, f q = g q) →
      Branch.renderAll d f branches = Branch.renderAll e g branches
  | [], _, _ => rfl
  | ⟨condition, result⟩ :: branches, hn, hq => by
    simp only [Branch.nodesAll, Branch.queriesAll, List.forall_mem_append] at hn hq
    have hcondition := Expr.render_congr h scope hn.1.1 hq.1.1
    have hresult := Expr.render_congr h scope hn.1.2 hq.1.2
    have hbranches := Branch.renderAll_congr h scope hn.2 hq.2
    simp only [Branch.renderAll, hcondition, hresult, hbranches]
termination_by structural branches => branches

/-- Dialects that agree on the nodes of order keys write the keys alike. -/
theorem OrderKey.renderAll_congr (h : d.SpellsLike e) (scope : Scope) : ∀ {keys : List OrderKey},
    (∀ n ∈ OrderKey.nodesAll scope keys, n.Agrees d e) →
    (∀ q ∈ OrderKey.queriesAll keys, f q = g q) →
      OrderKey.renderAll d f keys = OrderKey.renderAll e g keys
  | [], _, _ => rfl
  | ⟨x, direction, nulls⟩ :: keys, hn, hq => by
    simp only [OrderKey.nodesAll, OrderKey.queriesAll, List.forall_mem_append] at hn hq
    have hx := Expr.render_congr h scope hn.1 hq.1
    have hkeys := OrderKey.renderAll_congr h scope hn.2 hq.2
    simp only [OrderKey.renderAll, h.nulls, hx, hkeys]
termination_by structural keys => keys

end

/-- The clauses of a statement that hold expressions have the same tokens if the expressions do. -/
theorem Expr.renderAll_congr_mem {xs : List Expr} (hx : ∀ x ∈ xs, x.render d f = x.render e g) :
    Expr.renderAll d f xs = Expr.renderAll e g xs := by
  rw [Expr.renderAll_eq_mapM, Expr.renderAll_eq_mapM, mapM_congr hx]

/-- Order keys are written alike where their expressions are. -/
theorem OrderKey.renderAll_congr_mem (h : d.SpellsLike e) {keys : List OrderKey}
    (hx : ∀ x ∈ keys.map (·.expr), x.render d f = x.render e g) :
    OrderKey.renderAll d f keys = OrderKey.renderAll e g keys := by
  rw [OrderKey.renderAll_eq_mapM, OrderKey.renderAll_eq_mapM, h.nulls]
  refine mapM_congr fun key hkey => ?_
  rw [hx key.expr (List.mem_map_of_mem hkey)]

/-- Projected items are written alike where their expressions are. -/
theorem SelectItem.renderAll_congr {items : List SelectItem}
    (hx : ∀ x ∈ items.map (·.expr), x.render d f = x.render e g) :
    SelectItem.renderAll d f items = SelectItem.renderAll e g items := by
  unfold SelectItem.renderAll
  congr 1
  refine mapM_congr fun item hitem => ?_
  rw [hx item.expr (List.mem_map_of_mem hitem)]

/-- What is returned is written alike where its expressions are. -/
theorem SelectItem.renderReturning_congr {items : Option (List SelectItem)}
    (hx : ∀ x ∈ SelectItem.exprs items, x.render d f = x.render e g) :
    SelectItem.renderReturning d f items = SelectItem.renderReturning e g items := by
  cases items with
  | none => rfl
  | some items => simp only [SelectItem.renderReturning, SelectItem.renderAll_congr hx]

/-- Assignments are written alike where the values are. -/
theorem Assignment.renderAll_congr {assignments : List Assignment}
    (hx : ∀ x ∈ assignments.map (·.value), x.render d f = x.render e g) :
    Assignment.renderAll d f assignments = Assignment.renderAll e g assignments := by
  unfold Assignment.renderAll
  congr 1
  refine mapM_congr fun a ha => ?_
  rw [hx a.value (List.mem_map_of_mem ha)]

/-- Rows are written alike where their values are. -/
theorem Expr.renderRows_congr {rows : List (List Expr)}
    (hx : ∀ x ∈ rows.flatten, x.render d f = x.render e g) :
    Expr.renderRows d f rows = Expr.renderRows e g rows := by
  unfold Expr.renderRows
  congr 1
  refine mapM_congr fun row hrow => Expr.renderAll_congr_mem fun x hxrow => ?_
  exact hx x (List.mem_flatten.mpr ⟨row, hrow, hxrow⟩)

/-- The bounds of a page are written alike where their expressions are. -/
theorem Expr.renderPage_congr (h : d.SpellsLike e) {limit offset : Option Expr}
    (hx : ∀ x ∈ limit.toList ++ offset.toList, x.render d f = x.render e g) :
    Expr.renderPage d f limit offset = Expr.renderPage e g limit offset := by
  cases limit <;> cases offset <;> simp_all [Expr.renderPage, h.offsetWithoutLimit]

/-- A rule upon a conflict is written alike where its expressions are. -/
theorem Upsert.renderOption_congr (h : d.SpellsLike e) {upsert : Option Upsert}
    (hx : ∀ x ∈ Upsert.exprs upsert, x.render d f = x.render e g) :
    Upsert.renderOption d f upsert = Upsert.renderOption e g upsert := by
  cases upsert with
  | none => rfl
  | some upsert =>
    obtain ⟨target, action⟩ := upsert
    have hassignments : ∀ assignments, action = .doUpdate assignments →
        Assignment.renderAll d f assignments = Assignment.renderAll e g assignments := by
      rintro assignments rfl
      exact Assignment.renderAll_congr hx
    cases action with
    | doNothing =>
      simp only [Upsert.renderOption, h.upsert, h.name]
      rfl
    | doUpdate assignments =>
      simp only [Upsert.renderOption, h.upsert, h.name, Upsert.render, hassignments assignments rfl]

mutual

/-- A statement has the same tokens in two dialects of the same spellings, if its expressions
have. -/
theorem Statement.render_congr (h : d.SpellsLike e) : ∀ {s : Statement},
    (∀ x ∈ s.exprs, x.render d f = x.render e g) → s.render d f = s.render e g
  | .select block, hx => Block.render_congr h hx
  | .setOperation op all left right, hx => by
    simp only [Statement.exprs, List.forall_mem_append] at hx
    simp only [Statement.render, Statement.render_congr h hx.1, Statement.render_congr h hx.2]
  | .withCtes recursive ctes body, hx => by
    simp only [Statement.exprs, List.forall_mem_append] at hx
    simp only [Statement.render, Cte.renderAll_congr h hx.1, Statement.render_congr h hx.2]
  | .insert i, hx => Insert.render_congr h hx
  | .update u, hx => by
    simp only [Statement.exprs, Update.exprs, List.forall_mem_append] at hx
    simp only [Statement.render, Update.render, Assignment.renderAll_congr hx.1.1, Expr.renderAnd,
      Expr.renderAll_congr_mem hx.1.2, SelectItem.renderReturning_congr hx.2]
  | .delete x, hx => by
    simp only [Statement.exprs, Delete.exprs, List.forall_mem_append] at hx
    simp only [Statement.render, Delete.render, Expr.renderAnd, Expr.renderAll_congr_mem hx.1,
      SelectItem.renderReturning_congr hx.2]
termination_by structural s => s

/-- A SELECT is written alike where its expressions are. -/
theorem Block.render_congr (h : d.SpellsLike e) : ∀ {b : Block},
    (∀ x ∈ b.exprs, x.render d f = x.render e g) → b.render d f = b.render e g
  | ⟨origin, joins, filters, groupBy, having, projection, distinct, orderBy, limit, offset⟩,
    hx => by
    simp only [Block.exprs, List.forall_mem_append] at hx
    obtain ⟨⟨⟨⟨⟨⟨⟨⟨hitems, horigin⟩, hjoins⟩, hfilters⟩, hgroup⟩, hhaving⟩, horder⟩, hlimit⟩,
      hoffset⟩ := hx
    have hpage := Expr.renderPage_congr h (List.forall_mem_append.mpr ⟨hlimit, hoffset⟩)
    simp only [Block.render, Origin.render_congr h horigin, Join.renderAll_congr h hjoins,
      Expr.renderAnd, Expr.renderClause, OrderKey.renderClause, Expr.renderAll_congr_mem hfilters,
      Expr.renderAll_congr_mem hgroup, Expr.renderAll_congr_mem hhaving,
      OrderKey.renderAll_congr_mem h horder, hpage]
    cases projection with
    | none => rfl
    | some items => simp only [SelectItem.renderAll_congr hitems]
termination_by structural b => b

/-- What a SELECT reads from is written alike where its expressions are. -/
theorem Origin.render_congr (h : d.SpellsLike e) : ∀ {o : Origin},
    (∀ x ∈ o.exprs, x.render d f = x.render e g) → o.render d f = o.render e g
  | .table _, _ => rfl
  | .derived body name, hx => by
    simp only [Origin.render, Statement.render_congr h hx]
termination_by structural o => o

/-- Joins are written alike where their expressions are. -/
theorem Join.renderAll_congr (h : d.SpellsLike e) : ∀ {joins : List Join},
    (∀ x ∈ Join.exprs joins, x.render d f = x.render e g) →
      Join.renderAll d f joins = Join.renderAll e g joins
  | [], _ => rfl
  | ⟨kind, target, condition⟩ :: joins, hx => by
    simp only [Join.exprs, List.forall_mem_append] at hx
    simp only [Join.renderAll, JoinTarget.render_congr h hx.1.1, Join.renderAll_congr h hx.2]
    cases condition with
    | none => rfl
    | some condition => simp only [hx.1.2 condition (by simp)]
termination_by structural joins => joins

/-- What is joined is written alike where its expressions are. -/
theorem JoinTarget.render_congr (h : d.SpellsLike e) : ∀ {target : JoinTarget Statement},
    (∀ x ∈ JoinTarget.exprs target, x.render d f = x.render e g) →
      JoinTarget.render d f target = JoinTarget.render e g target
  | .table _, _ => rfl
  | .lateral body name, hx => by
    simp only [JoinTarget.render, Statement.render_congr h hx]
termination_by structural target => target

/-- The entries of a WITH are written alike where their expressions are. -/
theorem Cte.renderAll_congr (h : d.SpellsLike e) : ∀ {ctes : List (Cte Statement)},
    (∀ x ∈ Cte.exprs ctes, x.render d f = x.render e g) →
      Cte.renderAll d f ctes = Cte.renderAll e g ctes
  | [], _ => rfl
  | ⟨name, columns, body⟩ :: ctes, hx => by
    simp only [Cte.exprs, List.forall_mem_append] at hx
    simp only [Cte.renderAll, Statement.render_congr h hx.1, Cte.renderAll_congr h hx.2]
termination_by structural ctes => ctes

/-- An INSERT is written alike where its expressions are. -/
theorem Insert.render_congr (h : d.SpellsLike e) : ∀ {i : Insert},
    (∀ x ∈ i.exprs, x.render d f = x.render e g) → i.render d f = i.render e g
  | ⟨name, columns, none, upsert, returning⟩, _ => rfl
  | ⟨name, columns, some source, upsert, returning⟩, hx => by
    simp only [Insert.exprs, List.forall_mem_append] at hx
    have hcheck : Upsert.check d upsert = Upsert.check e upsert := by
      cases upsert <;> simp [Upsert.check, h.upsert, h.name]
    have hignore : Upsert.isIgnore d upsert = Upsert.isIgnore e upsert := by
      unfold Upsert.isIgnore
      rw [h.upsert]
    simp only [Insert.render, hcheck, hignore, InsertSource.render_congr h hx.1.1,
      Upsert.renderOption_congr h hx.1.2, SelectItem.renderReturning_congr hx.2]
termination_by structural i => i

/-- What is inserted is written alike where its expressions are. -/
theorem InsertSource.render_congr (h : d.SpellsLike e) : ∀ {s : InsertSource},
    (∀ x ∈ s.exprs, x.render d f = x.render e g) → s.render d f = s.render e g
  | .values rows, hx => by
    simp only [InsertSource.render, Expr.renderRows_congr hx]
  | .select body, hx => by
    simp only [InsertSource.render, Statement.render_congr h hx]
termination_by structural s => s

end

end Rendering

section Lowering

variable {d e : Dialect}

/-- Dialects that spell alike guard an INSERT alike. -/
theorem Insert.guardJoin_congr (h : d.SpellsLike e) (i : Insert) :
    i.guardJoin d = i.guardJoin e := by
  unfold Insert.guardJoin
  rw [h.upsert]

mutual

/-- A query has the same statement in two dialects that agree at its nodes. -/
theorem Query.lower_congr (h : d.SpellsLike e) : ∀ {q : Query},
    (∀ n ∈ q.nodes, n.Agrees d e) → q.lower d = q.lower e
  | .table _, _ | .insertInto .., _ | .update _, _ | .deleteFrom _, _ => rfl
  | .setOperation op all left right, hn => by
    simp only [Query.nodes, List.forall_mem_cons, List.forall_mem_append] at hn
    obtain ⟨-, ⟨-, hleft⟩, -, hright⟩ := hn
    simp only [Query.lower, h.name, h.supportsSetAll, Query.lower_congr h hleft,
      Query.lower_congr h hright]
  | .withCtes recursive ctes main, hn => by
    simp only [Query.nodes, List.forall_mem_cons, List.forall_mem_append] at hn
    obtain ⟨hroot, hctes, -, hmain⟩ := hn
    have hcte := hroot.capability .cte rfl
    simp only [Query.lower, Dialect.require, hcte, h.name, Cte.lowerAll_congr h hctes,
      Query.lower_congr h hmain]
  | .step source stage, hn => by
    simp only [Query.nodes, List.forall_mem_cons, List.forall_mem_append] at hn
    obtain ⟨hsource, hstage, hnodes⟩ := hn
    simp only [Query.lower, Query.lower_congr h hsource, Stage.lower_congr h hstage hnodes]
termination_by structural q => q

/-- Dialects that agree on the nodes of the entries of a WITH lower the entries alike. -/
theorem Cte.lowerAll_congr (h : d.SpellsLike e) : ∀ {ctes : List (Cte Query)},
    (∀ n ∈ Cte.nodesAll ctes, n.Agrees d e) → Cte.lowerAll d ctes = Cte.lowerAll e ctes
  | [], _ => rfl
  | ⟨name, columns, body⟩ :: ctes, hn => by
    simp only [Cte.nodesAll, List.forall_mem_cons, List.forall_mem_append] at hn
    simp only [Cte.lowerAll, Query.lower_congr h hn.1.2, Cte.lowerAll_congr h hn.2]
termination_by structural ctes => ctes

/-- Dialects that agree on a join and on the nodes of what is joined lower it alike. -/
theorem JoinTarget.lower_congr (h : d.SpellsLike e) : ∀ {target : JoinTarget Query}
    {root : Query} {condition : Option Expr} {kind : JoinKind},
    (Node.stage root (.join target condition kind)).Agrees d e →
    (∀ n ∈ JoinTarget.nodes target, n.Agrees d e) →
      JoinTarget.lower d target = JoinTarget.lower e target
  | .table _, _, _, _, _, _ => rfl
  | .lateral body name, _, _, _, hstage, hn => by
    simp only [JoinTarget.nodes, List.forall_mem_cons] at hn
    have hlateral := hstage.capability .lateral rfl
    simp only [JoinTarget.lower, Dialect.require, hlateral, h.name, Query.lower_congr h hn.2]
termination_by structural target => target

/-- Dialects that agree on a stage and on its nodes lower the stage alike. -/
theorem Stage.lower_congr (h : d.SpellsLike e) : ∀ {stage : Stage} {root : Query} {scope : Scope}
    {source : Source}, (Node.stage root stage).Agrees d e →
    (∀ n ∈ stage.nodes scope, n.Agrees d e) →
      stage.lower d scope source = stage.lower e scope source
  | .filter _, _, _, _, _, _ | .select .., _, _, _, _, _ | .orderBy _, _, _, _, _, _
  | .limit _, _, _, _, _, _ | .offset _, _, _, _, _, _ | .distinct, _, _, _, _, _
  | .having _, _, _, _, _, _ | .values _, _, _, _, _, _ | .set _, _, _, _, _, _
  | .updateWhere _, _, _, _, _, _ | .deleteWhere _, _, _, _, _, _ => by
    simp only [Stage.lower]
  | .groupBy keys, _, _, _, _, _ => by
    cases keys <;> simp only [Stage.lower]
  | .join target condition kind, _, _, _, hstage, hn => by
    simp only [Stage.nodes, List.forall_mem_append] at hn
    have hkind : kind.check d condition = kind.check e condition := by
      simp only [JoinKind.check, h.supportsJoin, h.name]
    simp only [Stage.lower, hkind, JoinTarget.lower_congr h hstage hn.1]
  | .insertSelect rows, _, _, _, _, hn => by
    simp only [Stage.nodes, List.forall_mem_cons] at hn
    simp only [Stage.lower, Query.lower_congr h hn.2]
  | .onConflict target action, _, _, _, hstage, _ => by
    have hupsert := hstage.capability .upsert rfl
    simp only [Stage.lower, Dialect.require, hupsert, h.name, Insert.guardJoin_congr h]
  | .returning _ items, _, _, _, hstage, _ => by
    have hreturning := hstage.capability .returning rfl
    simp only [Stage.lower, Dialect.require, hreturning, h.name]
termination_by structural stage => stage

end

/-- What an expression asks of a dialect does not change when it is resolved. -/
theorem Node.agrees_qualify {scope : Scope} (table : String) (x : Expr) :
    (Node.expr scope x).Agrees d e ↔ (Node.expr scope (x.qualify table)).Agrees d e := by
  have hcapability : (Node.expr scope (x.qualify table)).capability? =
      (Node.expr scope x).capability? := by cases x <;> rfl
  have hoperator : (Node.expr scope (x.qualify table)).operator? =
      (Node.expr scope x).operator? := by cases x <;> rfl
  constructor
  · intro h
    exact ⟨hcapability ▸ h.capability, hoperator ▸ h.operator⟩
  · intro h
    exact ⟨hcapability ▸ h.capability, hoperator ▸ h.operator⟩

/-- The statement of a query has the same tokens in two dialects that agree at the nodes of the
query, if the nested queries have. -/
theorem Query.render_lower_congr (h : d.SpellsLike e) {f g : Query → Rendered} {q : Query}
    {s : Statement} (hn : ∀ n ∈ q.nodes, n.Agrees d e)
    (hfg : ∀ q', (∀ n ∈ q'.nodes, n.Agrees d e) → f q' = g q') (hs : q.lower d = .ok s) :
    s.render d f = s.render e g := by
  refine Statement.render_congr h fun x hx => ?_
  rcases Query.forall_exprs_lower (fun _ => Node.agrees_qualify) hn hs x hx with
    rfl | ⟨scope, hnodes, hqueries⟩
  · simp [Expr.guard, Expr.render, Value.render, h.boolean]
  · exact Expr.render_congr h scope hnodes fun q' hq' => hfg q' (hqueries q' hq')

/-- A query that is read for its rows has the same tokens in two dialects that agree at its
nodes. -/
theorem Query.renderRows_congr (h : d.SpellsLike e) : ∀ (limit : Nat) (q : Query),
    (∀ n ∈ q.nodes, n.Agrees d e) → q.renderRows d limit = q.renderRows e limit := by
  intro limit
  induction limit with
  | zero => exact fun _ _ => rfl
  | succ limit ih =>
    intro q hn
    have hlower : q.lowerRows d = q.lowerRows e := by
      simp only [Query.lowerRows, Query.lower_congr h hn]
    rw [Query.renderRows, Query.renderRows, ← hlower]
    cases hs : q.lowerRows d with
    | error _ => rw [error_bind, error_bind]
    | ok s =>
      rw [ok_bind, ok_bind]
      exact Query.render_lower_congr h hn ih (Query.lowerRows_eq_ok.mp hs).1

/-- A query has the same tokens in two dialects that agree at its nodes, or is refused for the same
reason. -/
theorem Query.render_congr (h : d.SpellsLike e) {q : Query} (hn : ∀ n ∈ q.nodes, n.Agrees d e) :
    q.render d = q.render e := by
  rw [Query.render, Query.render, ← Query.lower_congr h hn]
  cases hs : q.lower d with
  | error _ => rw [error_bind, error_bind]
  | ok s =>
    rw [ok_bind, ok_bind]
    exact Query.render_lower_congr h hn (Query.renderRows_congr h q.depth) hs

/-- A command has the same tokens in two dialects of the same capabilities that agree at every
node. -/
theorem Command.render_congr (h : d.SpellsLike e) (hsupports : d.supports = e.supports)
    (hn : ∀ n : Node, n.Agrees d e) (c : Command) : c.render d = c.render e := by
  have hrequire : d.require = e.require := by
    funext c
    simp only [Dialect.require, hsupports, h.name]
  have hkey (x : Expr) :
      x.render d (Query.renderRows d x.depth) = x.render e (Query.renderRows e x.depth) :=
    Expr.render_congr h Command.scope (fun n _ => hn n)
      fun q _ => Query.renderRows_congr h x.depth q fun n _ => hn n
  cases c with
  | savepoint | releaseSavepoint | rollbackToSavepoint =>
    simp only [Command.render, Command.renderSavepoint, hrequire]
  | advisoryLock key | advisoryUnlock key =>
    simp only [Command.render, Command.renderLock, hrequire, h.advisoryLock, h.name, hkey]
  | copyIn table columns =>
    simp only [Command.render, hrequire, h.bulkCopy, h.name]

end Lowering

end SqlAlgebra
