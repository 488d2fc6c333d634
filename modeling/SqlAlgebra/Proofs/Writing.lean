import SqlAlgebra.Compile
import SqlAlgebra.Proofs.Expressions

/-!
# What can be written

Writing a statement fails only in its expressions and where a modification lacks a part. For each
clause the question whether it can be written comes down to its expressions, and adding a clause to
a SELECT that accepts it asks for nothing more than the clause does.
-/

namespace SqlAlgebra

/-- A list that is not a single query is written value by value. -/
theorem Expr.render_inList {d : Dialect} {f : Query → Rendered} {subject : Expr}
    {values : List Expr} {negated : Bool} (hne : values ≠ [])
    (hquery : ∀ q, values ≠ [.subquery q]) :
    (Expr.inList subject values negated).render d f = do
      let subject ← subject.render d f
      let values ← Expr.renderAll d f values
      return Token.parens (subject ++ [.text (" " ++ negation negated ++ "IN ")] ++
        Token.parens (Token.commas values)) := by
  cases values with
  | nil => exact absurd rfl hne
  | cons value values =>
    cases values with
    | cons _ _ => cases value <;> rfl
    | nil =>
      cases value with
      | subquery q => exact absurd rfl (hquery q)
      | _ => rfl

/-- A list is written expression by expression. -/
theorem Expr.renderAll_eq_mapM (d : Dialect) (f : Query → Rendered) (xs : List Expr) :
    Expr.renderAll d f xs = xs.mapM (Expr.render d f) := by
  induction xs with
  | nil => rfl
  | cons x xs ih => rw [Expr.renderAll, List.mapM_cons, ih]

/-- Order keys are written one by one. -/
theorem OrderKey.renderAll_eq_mapM (d : Dialect) (f : Query → Rendered) (keys : List OrderKey) :
    OrderKey.renderAll d f keys = keys.mapM fun key => do
      return d.nulls.renderKey (← key.expr.render d f) key.direction key.nulls := by
  induction keys with
  | nil => rfl
  | cons key keys ih =>
    obtain ⟨x, direction, nulls⟩ := key
    rw [OrderKey.renderAll, List.mapM_cons, ih]
    simp

/-- The expression can be written, if `nested` writes the queries in it. -/
def Expr.Writable (d : Dialect) (nested : Query → Rendered) (e : Expr) : Prop :=
  Succeeds (e.render d nested)

section Clauses

variable {d : Dialect} {nested : Query → Rendered}

/-- A list can be written if all its expressions can. -/
theorem Expr.succeeds_renderAll {es : List Expr} :
    Succeeds (Expr.renderAll d nested es) ↔ ∀ e ∈ es, e.Writable d nested := by
  rw [Expr.renderAll_eq_mapM, succeeds_mapM]
  rfl

/-- Order keys can be written if all their expressions can. -/
theorem OrderKey.succeeds_renderAll {keys : List OrderKey} :
    Succeeds (OrderKey.renderAll d nested keys) ↔
      ∀ e ∈ keys.map (·.expr), e.Writable d nested := by
  rw [OrderKey.renderAll_eq_mapM, succeeds_mapM, List.forall_mem_map]
  simp only [succeeds_bind, succeeds_pure, and_true, exists_eq_ok, Expr.Writable]

/-- Projected items can be written if all their expressions can. -/
theorem SelectItem.succeeds_renderAll {items : List SelectItem} :
    Succeeds (SelectItem.renderAll d nested items) ↔
      ∀ e ∈ items.map (·.expr), e.Writable d nested := by
  simp only [SelectItem.renderAll, succeeds_bind, succeeds_pure, and_true, exists_eq_ok,
    succeeds_mapM, List.forall_mem_map, Expr.Writable]
  refine forall₂_congr fun item _ => ?_
  cases item.name <;> simp only [succeeds_pure, and_true, exists_eq_ok]

/-- What is returned can be written if all its expressions can. -/
theorem SelectItem.succeeds_renderReturning {items : Option (List SelectItem)} :
    Succeeds (SelectItem.renderReturning d nested items) ↔
      ∀ e ∈ SelectItem.exprs items, e.Writable d nested := by
  cases items with
  | none => simp [SelectItem.renderReturning, SelectItem.exprs]
  | some items =>
    simp only [SelectItem.renderReturning, SelectItem.exprs, succeeds_bind, succeeds_pure,
      and_true, exists_eq_ok, SelectItem.succeeds_renderAll]

/-- Assignments can be written if all their values can. -/
theorem Assignment.succeeds_renderAll {assignments : List Assignment} :
    Succeeds (Assignment.renderAll d nested assignments) ↔
      ∀ e ∈ assignments.map (·.value), e.Writable d nested := by
  simp only [Assignment.renderAll, succeeds_bind, succeeds_pure, and_true, exists_eq_ok,
    succeeds_mapM, List.forall_mem_map, Expr.Writable]

/-- Rows can be written if all their values can. -/
theorem Expr.succeeds_renderRows {rows : List (List Expr)} :
    Succeeds (Expr.renderRows d nested rows) ↔ ∀ e ∈ rows.flatten, e.Writable d nested := by
  simp only [Expr.renderRows, succeeds_bind, succeeds_pure, and_true, exists_eq_ok,
    succeeds_mapM, Expr.succeeds_renderAll, List.forall_mem_flatten]

/-- A clause of conditions can be written if all conditions can. -/
theorem Expr.succeeds_renderAnd {keyword : String} {es : List Expr} :
    Succeeds (Expr.renderAnd d nested keyword es) ↔ ∀ e ∈ es, e.Writable d nested := by
  simp only [Expr.renderAnd, succeeds_bind, apply_ite Succeeds, succeeds_pure, ite_self, and_true,
    exists_eq_ok, Expr.succeeds_renderAll]

/-- A clause that lists expressions can be written if all of them can. -/
theorem Expr.succeeds_renderClause {keyword : String} {es : List Expr} :
    Succeeds (Expr.renderClause d nested keyword es) ↔ ∀ e ∈ es, e.Writable d nested := by
  simp only [Expr.renderClause, succeeds_bind, apply_ite Succeeds, succeeds_pure, ite_self,
    and_true, exists_eq_ok, Expr.succeeds_renderAll]

/-- An ORDER BY can be written if all expressions of its keys can. -/
theorem OrderKey.succeeds_renderClause {keys : List OrderKey} :
    Succeeds (OrderKey.renderClause d nested keys) ↔
      ∀ e ∈ keys.map (·.expr), e.Writable d nested := by
  simp only [OrderKey.renderClause, succeeds_bind, apply_ite Succeeds, succeeds_pure, ite_self,
    and_true, exists_eq_ok, OrderKey.succeeds_renderAll]

/-- The bounds of a page can be written if both expressions can. -/
theorem Expr.succeeds_renderPage {limit offset : Option Expr} :
    Succeeds (Expr.renderPage d nested limit offset) ↔
      (∀ e ∈ limit.toList, e.Writable d nested) ∧ ∀ e ∈ offset.toList, e.Writable d nested := by
  cases limit <;> cases offset <;> cases hclause : d.offsetWithoutLimit <;>
    simp [Expr.renderPage, hclause, succeeds_bind, exists_eq_ok, Expr.Writable]

/-- The upsert, if there is one, can be written: the dialect has a spelling for it, and the columns
that conflict are named where the spelling needs them. -/
def Upsert.Writable (d : Dialect) (nested : Query → Rendered) : Option Upsert → Prop
  | none => True
  | some ⟨target, action⟩ =>
    d.upsert ≠ none ∧ (∀ e ∈ action.exprs, e.Writable d nested) ∧
      (d.upsert = some .onConflict → action ≠ .doNothing → target ≠ [])

/-- A rule upon a conflict can be written if it is writable. -/
theorem Upsert.succeeds_renderOption {upsert : Option Upsert} :
    Succeeds (Upsert.renderOption d nested upsert) ↔ Upsert.Writable d nested upsert := by
  cases upsert with
  | none => simp [Upsert.renderOption, Upsert.Writable]
  | some upsert =>
    obtain ⟨target, action⟩ := upsert
    cases hspelling : d.upsert with
    | none => simp [Upsert.renderOption, Upsert.Writable, hspelling]
    | some spelling =>
      cases spelling <;> cases action <;> cases target <;>
        simp [Upsert.renderOption, Upsert.Writable, Upsert.render, hspelling,
          Assignment.succeeds_renderAll, ConflictAction.exprs]

/-- An UPDATE can be written if it assigns something and all its expressions can be written. -/
theorem Update.succeeds_render {u : Update} :
    Succeeds (u.render d nested) ↔ u.assignments ≠ [] ∧ ∀ e ∈ u.exprs, e.Writable d nested := by
  cases hassignments : u.assignments with
  | nil => simp [Update.render, hassignments]
  | cons a assignments =>
    simp only [Update.render, hassignments, List.isEmpty_cons, Bool.false_eq_true, if_false,
      succeeds_bind, succeeds_pure, and_true, exists_and_right, exists_eq_ok,
      Assignment.succeeds_renderAll, Expr.succeeds_renderAnd, SelectItem.succeeds_renderReturning,
      Update.exprs, List.forall_mem_append, and_assoc]
    simp

/-- A DELETE can be written if all its expressions can. -/
theorem Delete.succeeds_render {x : Delete} :
    Succeeds (x.render d nested) ↔ ∀ e ∈ x.exprs, e.Writable d nested := by
  simp only [Delete.render, succeeds_bind, succeeds_pure, and_true, exists_and_right, exists_eq_ok,
    Expr.succeeds_renderAnd, SelectItem.succeeds_renderReturning, Delete.exprs,
    List.forall_mem_append]

/-- A SELECT can be written exactly if its clauses can. -/
theorem Block.succeeds_render {b : Block} :
    Succeeds (b.render d nested) ↔
      (∀ e ∈ SelectItem.exprs b.projection, e.Writable d nested) ∧
      Succeeds (b.origin.render d nested) ∧ Succeeds (Join.renderAll d nested b.joins) ∧
      (∀ e ∈ b.filters, e.Writable d nested) ∧ (∀ e ∈ b.groupBy, e.Writable d nested) ∧
      (∀ e ∈ b.having, e.Writable d nested) ∧
      (∀ e ∈ b.orderBy.map (·.expr), e.Writable d nested) ∧
      (∀ e ∈ b.limit.toList, e.Writable d nested) ∧
      ∀ e ∈ b.offset.toList, e.Writable d nested := by
  obtain ⟨origin, joins, filters, groupBy, having, projection, distinct, orderBy, limit,
    offset⟩ := b
  cases projection with
  | none =>
    simp only [Block.render, succeeds_bind, succeeds_pure, and_true, exists_and_right,
      exists_eq_ok, Expr.succeeds_renderAnd, Expr.succeeds_renderClause,
      OrderKey.succeeds_renderClause, Expr.succeeds_renderPage, SelectItem.exprs]
    simp
  | some items =>
    simp only [Block.render, succeeds_bind, succeeds_pure, and_true, exists_and_right,
      exists_eq_ok, Expr.succeeds_renderAnd, Expr.succeeds_renderClause,
      OrderKey.succeeds_renderClause, Expr.succeeds_renderPage, SelectItem.exprs,
      SelectItem.succeeds_renderAll]

/-- What a stage adds can be written. -/
def Addition.Writable (d : Dialect) (nested : Query → Rendered) : Addition → Prop
  | .join added => Succeeds (Join.renderAll d nested [added])
  | .filter e | .having e | .offset e | .limit e => e.Writable d nested
  | .groupBy keys => ∀ e ∈ keys, e.Writable d nested
  | .select items => ∀ e ∈ items.map (·.expr), e.Writable d nested
  | .distinct => True
  | .orderBy keys => ∀ e ∈ keys.map (·.expr), e.Writable d nested

/-- Joins can be written if the first one can, with its condition, and the others can. -/
theorem Join.succeeds_renderAll_cons {join : Join} {joins : List Join} :
    Succeeds (Join.renderAll d nested (join :: joins)) ↔
      Succeeds (JoinTarget.render d nested join.target) ∧
      (∀ e ∈ join.condition.toList, e.Writable d nested) ∧
      Succeeds (Join.renderAll d nested joins) := by
  obtain ⟨kind, target, condition⟩ := join
  cases condition <;>
    simp [Join.renderAll, succeeds_bind, exists_eq_ok, Expr.Writable]

/-- Joins can be written if the first ones and the others can. -/
theorem Join.succeeds_renderAll_append {joins joins' : List Join} :
    Succeeds (Join.renderAll d nested (joins ++ joins')) ↔
      Succeeds (Join.renderAll d nested joins) ∧ Succeeds (Join.renderAll d nested joins') := by
  induction joins with
  | nil => simp [Join.renderAll]
  | cons join joins ih =>
    rw [List.cons_append, Join.succeeds_renderAll_cons, Join.succeeds_renderAll_cons, ih]
    simp only [and_assoc]

/-- A SELECT that accepts a clause can be written with it exactly if both can be. -/
theorem Block.succeeds_render_add {b : Block} {a : Addition}
    (haccepts : b.accepts a.clause = true) :
    Succeeds ((b.add a).render d nested) ↔
      Succeeds (b.render d nested) ∧ a.Writable d nested := by
  have hlacks := Block.lacks_of_accepts haccepts
  rw [Block.succeeds_render, Block.succeeds_render]
  cases a with
  | join added =>
    simp only [Block.add, Join.succeeds_renderAll_append, Addition.Writable]
    tauto
  | filter e | having e =>
    simp only [Block.add, List.forall_mem_append, List.forall_mem_singleton, Addition.Writable]
    tauto
  | distinct => simp [Block.add, Addition.Writable]
  | groupBy keys | orderBy keys =>
    simp only [Block.Lacks] at hlacks
    simp only [Block.add, Addition.Writable, hlacks, List.map_nil]
    tauto
  | select items =>
    have hprojection : b.projection = none := hlacks
    simp only [Block.add, Addition.Writable, hprojection, SelectItem.exprs]
    tauto
  | offset e | limit e =>
    simp only [Block.Lacks] at hlacks
    simp only [Block.add, Addition.Writable, hlacks, Option.toList_none, Option.toList_some,
      List.forall_mem_singleton]
    tauto

/-- The SELECT opened over a statement can be written exactly if the statement can. -/
theorem Statement.succeeds_render_blockFor {clause : Clause} {name : String} {s : Statement} :
    Succeeds ((s.blockFor clause name).render d nested) ↔ Succeeds (s.render d nested) := by
  have horigin (s : Statement) : Succeeds ((Block.ofOrigin (.derived s name)).render d nested) ↔
      Succeeds (s.render d nested) := by
    rw [Block.succeeds_render]
    simp [Block.ofOrigin, SelectItem.exprs, Join.renderAll, Origin.render]
  cases s with
  | select block =>
    by_cases h : block.accepts clause = true
    · rw [Statement.blockFor, if_pos h, Statement.render]
    · rw [Statement.blockFor, if_neg h]
      exact horigin _
  | _ => exact horigin _

/-- A statement that a row stage extends can be written if it could before and what is added can. -/
theorem Statement.succeeds_render_extend {name : String} {s : Statement} {a : Option Addition} :
    Succeeds ((s.extend name a).render d nested) ↔
      Succeeds (s.render d nested) ∧ ∀ b ∈ a, b.Writable d nested := by
  cases a with
  | none => simp [Statement.extend]
  | some a =>
    rw [Statement.extend, Statement.render,
      Block.succeeds_render_add (s.accepts_blockFor a.clause name),
      Statement.succeeds_render_blockFor]
    simp

/-- A guard can always be written, so guarding a statement changes nothing. -/
theorem Statement.succeeds_render_guardJoin : ∀ {s : Statement},
    Succeeds (s.guardJoin.render d nested) ↔ Succeeds (s.render d nested)
  | .select block => by
    have hguard : Expr.guard.Writable d nested := succeeds_ok _
    cases hfilters : block.filters with
    | nil =>
      simp only [Statement.guardJoin, hfilters, List.isEmpty_nil, if_true, Statement.render,
        Block.succeeds_render, List.forall_mem_singleton]
      tauto
    | cons e es => simp [Statement.guardJoin, hfilters]
  | .withCtes recursive ctes body => by
    have hbody := Statement.succeeds_render_guardJoin (s := body)
    simp only [Statement.guardJoin, Statement.render, succeeds_bind, succeeds_pure, and_true,
      exists_and_right, exists_eq_ok, hbody]
  | .setOperation .. | .insert _ | .update _ | .delete _ => Iff.rfl
termination_by structural s => s

/-- What there is of an INSERT can be written. -/
def Insert.Writable (d : Dialect) (nested : Query → Rendered) (i : Insert) : Prop :=
  (∀ source ∈ i.source, Succeeds (source.render d nested)) ∧ Upsert.Writable d nested i.upsert ∧
    ∀ e ∈ SelectItem.exprs i.returning, e.Writable d nested

/-- An INSERT can be written if it has rows and is writable. -/
theorem Insert.succeeds_render {i : Insert} :
    Succeeds (i.render d nested) ↔ i.source.isSome = true ∧ i.Writable d nested := by
  obtain ⟨name, columns, source, upsert, returning⟩ := i
  cases source with
  | none => simp [Insert.render]
  | some source =>
    have hcheck : Upsert.Writable d nested upsert → Succeeds (Upsert.check d upsert) := by
      intro h
      cases upsert with
      | none => exact succeeds_ok _
      | some upsert =>
        cases hspelling : d.upsert with
        | none => exact absurd hspelling h.1
        | some spelling => simp [Upsert.check, hspelling]
    simp only [Insert.render, succeeds_bind, succeeds_pure, and_true, exists_and_right,
      exists_eq_ok, Upsert.succeeds_renderOption, SelectItem.succeeds_renderReturning,
      Insert.Writable, Option.isSome_some, Option.mem_some_iff, forall_eq', true_and]
    tauto

/-- The guard of an INSERT changes nothing in whether it can be written. -/
theorem Insert.writable_guardJoin {i : Insert} :
    (i.guardJoin d).Writable d nested ↔ i.Writable d nested := by
  unfold Insert.guardJoin
  split
  · rename_i body hupsert hsource
    simp [Insert.Writable, hsource, InsertSource.render, Statement.succeeds_render_guardJoin]
  · exact Iff.rfl

/-- What there is of a statement can be written. -/
def Statement.Writable (d : Dialect) (nested : Query → Rendered) : Statement → Prop
  | .insert i => i.Writable d nested
  | .update u => ∀ e ∈ u.exprs, e.Writable d nested
  | .delete x => ∀ e ∈ x.exprs, e.Writable d nested
  | .select block => Succeeds (block.render d nested)
  | .setOperation _ _ left right =>
    Succeeds (left.render d nested) ∧ Succeeds (right.render d nested)
  | .withCtes _ ctes body =>
    Succeeds (Cte.renderAll d nested ctes) ∧ Succeeds (body.render d nested)

/-- A statement can be written exactly if what there is of it can, and nothing is missing. -/
theorem Statement.succeeds_render {s : Statement} :
    Succeeds (s.render d nested) ↔ s.Writable d nested ∧ s.form.isComplete = true := by
  cases s with
  | select block => simp [Statement.render, Statement.Writable, Statement.form, Form.isComplete]
  | setOperation op all left right =>
    simp only [Statement.render, Statement.Writable, Statement.form, Form.isComplete,
      succeeds_bind, succeeds_pure, and_true, exists_and_right, exists_eq_ok]
  | withCtes recursive ctes body =>
    simp only [Statement.render, Statement.Writable, Statement.form, Form.isComplete,
      succeeds_bind, succeeds_pure, and_true, exists_and_right, exists_eq_ok]
  | insert i =>
    rw [Statement.render, Insert.succeeds_render, and_comm]
    rfl
  | update u =>
    rw [Statement.render, Update.succeeds_render, and_comm]
    simp [Statement.Writable, Statement.form, Form.isComplete]
  | delete x =>
    rw [Statement.render, Delete.succeeds_render]
    simp [Statement.Writable, Statement.form, Form.isComplete]

end Clauses

end SqlAlgebra
