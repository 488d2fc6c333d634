import SqlAlgebra.Proofs.FiniteNumbers
import SqlAlgebra.Proofs.StoredValues

/-!
# Expressions are stored faithfully

A reader that carries the expressions and the queries in a node carries the parts of the node, and
the node itself if it is an expression. What belongs to a kind has a level less, so the node may
have a level more than what the reader carries.
-/

namespace SqlAlgebra

open Format.Faithful

section Written

variable {ω δ : Type} (f : Format ω δ)

/-- What is written for a branch. -/
def Branch.write (b : Branch) : ω := f.pair (b.condition.write f) (b.result.write f)

/-- What is written for a projected item. -/
def SelectItem.write (item : SelectItem) : ω :=
  f.record [("expr", item.expr.write f), ("alias", f.ofOption f.text item.name)]

/-- What is written for an assignment. -/
def Assignment.write (a : Assignment) : ω :=
  f.record [("column", f.text a.column), ("value", a.value.write f)]

/-- What is written for an entry of a WITH. -/
def Cte.write (cte : Cte Query) : ω :=
  f.record [("name", f.text cte.name), ("columns", f.texts cte.columns),
    ("query", cte.body.write f)]

/-- A list is written expression by expression. -/
theorem Expr.writeAll_eq (es : List Expr) : Expr.writeAll f es = es.map (Expr.write f) := by
  induction es with
  | nil => rfl
  | cons e es ih => rw [Expr.writeAll, ih, List.map_cons]

/-- An expression that may be missing is written as a value that may be missing. -/
theorem Expr.writeOption_eq (e : Option Expr) :
    Expr.writeOption f e = f.ofOption (Expr.write f) e := by
  cases e with
  | none => rfl
  | some e => rfl

/-- Rows are written one by one, each as a list. -/
theorem Expr.writeRows_eq (rows : List (List Expr)) :
    Expr.writeRows f rows = rows.map fun row => f.list (Expr.writeAll f row) := by
  induction rows with
  | nil => rfl
  | cons row rows ih => rw [Expr.writeRows, ih, List.map_cons]

/-- Branches are written one by one. -/
theorem Branch.writeAll_eq (branches : List Branch) :
    Branch.writeAll f branches = branches.map (Branch.write f) := by
  induction branches with
  | nil => rfl
  | cons b branches ih =>
    obtain ⟨condition, result⟩ := b
    rw [Branch.writeAll, ih, List.map_cons, Branch.write]

/-- Order keys are written one by one. -/
theorem OrderKey.writeAll_eq (keys : List OrderKey) :
    OrderKey.writeAll f keys = keys.map (OrderKey.write f) := by
  induction keys with
  | nil => rfl
  | cons key keys ih => rw [OrderKey.writeAll, ih, List.map_cons]

/-- Projected items are written one by one. -/
theorem SelectItem.writeAll_eq (items : List SelectItem) :
    SelectItem.writeAll f items = items.map (SelectItem.write f) := by
  induction items with
  | nil => rfl
  | cons item items ih =>
    obtain ⟨e, name⟩ := item
    rw [SelectItem.writeAll, ih, List.map_cons, SelectItem.write]

/-- Assignments are written one by one. -/
theorem Assignment.writeAll_eq (assignments : List Assignment) :
    Assignment.writeAll f assignments = assignments.map (Assignment.write f) := by
  induction assignments with
  | nil => rfl
  | cons a assignments ih =>
    obtain ⟨column, value⟩ := a
    rw [Assignment.writeAll, ih, List.map_cons, Assignment.write]

/-- The entries of a WITH are written one by one. -/
theorem Cte.writeAll_eq (ctes : List (Cte Query)) :
    Cte.writeAll f ctes = ctes.map (Cte.write f) := by
  induction ctes with
  | nil => rfl
  | cons cte ctes ih =>
    obtain ⟨name, columns, body⟩ := cte
    rw [Cte.writeAll, ih, List.map_cons, Cte.write]

/-- No expression is taken for a missing one. -/
theorem Expr.solid (e : Expr) : f.Solid (e.write f) := by
  cases e <;> constructor

end Written

variable {ω δ : Type} {f : Format ω δ}

namespace NodeReader

/-- The reader carries expressions and queries up to a limit of levels. -/
structure Carries (h : f.Faithful) (limit : Nat) (read : NodeReader δ) : Prop where
  expr : h.Carries limit (Expr.write f) read.expr (fun e => e.isFinite = true)
  query : h.Carries limit (Query.write f) read.query (fun q => q.isFinite = true)

namespace Carries

variable {h : f.Faithful} {limit : Nat} {read : NodeReader δ}

/-- Lists of finite expressions are carried if expressions are. -/
theorem exprs (hr : read.Carries h limit) :
    h.Carries limit (fun es => f.list (Expr.writeAll f es)) (read.exprs f)
      (fun es => Expr.allFinite es = true) := by
  simp only [Expr.writeAll_eq, Expr.allFinite_iff]
  exact hr.expr.list

/-- Finite expressions that may be missing are carried if expressions are. -/
theorem option (hr : read.Carries h limit) :
    h.Carries limit (Expr.writeOption f) (f.optionOf? read.expr)
      (fun e => Expr.optionFinite e = true) := by
  simp only [funext (Expr.writeOption_eq f), Expr.optionFinite_iff]
  exact hr.expr.option (Expr.solid f)

/-- Finite rows are carried if expressions are. -/
theorem rows (hr : read.Carries h limit) :
    h.Carries limit (fun rows => f.list (Expr.writeRows f rows)) (f.listOf? (read.exprs f))
      (fun rows => Expr.rowsFinite rows = true) := by
  simp only [Expr.writeRows_eq, Expr.rowsFinite_iff]
  exact hr.exprs.list

/-- Finite branches are carried if expressions are. -/
theorem branch (hr : read.Carries h limit) :
    h.Carries limit (Branch.write f) (read.branch f)
      (fun b => b.condition.isFinite = true ∧ b.result.isFinite = true) where
  read_of_within {x b} hb hx := by
    obtain ⟨condition, result⟩ := b
    have hpair := (hr.expr.pair hr.expr).read_of_within (a := (condition, result)) hb hx
    exact read_bind hpair rfl
  fits_of_read {x b} hb := by
    obtain ⟨pair, hpair, heq⟩ := Option.bind_eq_some_iff.mp hb
    cases heq
    exact (hr.expr.pair hr.expr).fits_of_read hpair

/-- Lists of finite branches are carried if expressions are. -/
theorem branches (hr : read.Carries h limit) :
    h.Carries limit (fun branches => f.list (Branch.writeAll f branches))
      (f.listOf? (read.branch f)) (fun branches => Branch.allFinite branches = true) := by
  simp only [Branch.writeAll_eq, Branch.allFinite_iff]
  exact hr.branch.list

/-- Finite order keys are carried if expressions are. -/
theorem orderKey (hr : read.Carries h limit) :
    h.Carries limit (OrderKey.write f) (read.orderKey f) (fun key => key.isFinite = true) where
  read_of_within {x key} hkey hx := by
    obtain ⟨e, direction, nulls⟩ := key
    obtain ⟨ys, hrecord, hys⟩ := hx.record (by simp)
    obtain _ | ⟨he, _ | ⟨hdirection, _ | ⟨hnulls, _ | _⟩⟩⟩ := hys
    exact read_bind hrecord <|
      read_bind (hr.expr.read_of_within hkey he) <|
      read_bind ((SortDirection.carries h limit).read_of_within trivial hdirection) <|
      read_bind ((NullsOrder.carries_option h limit).read_of_within trivial hnulls) rfl
  fits_of_read {x key} hkey := by
    obtain ⟨parts, hrecord, hkey⟩ := Option.bind_eq_some_iff.mp hkey
    split at hkey
    · simp only [Option.bind_eq_bind, Option.bind_eq_some_iff, Option.pure_def,
        Option.some.injEq] at hkey
      obtain ⟨e, he, direction, hdirection, nulls, hnulls, rfl⟩ := hkey
      obtain ⟨hfits, hfinite⟩ := hr.expr.required he
      have hparts := List.Forall₂.cons hfits <|
        .cons ((SortDirection.carries h limit).required hdirection).1 <|
        .cons ((NullsOrder.carries_option h limit).optional rfl trivial hnulls).1 .nil
      exact ⟨h.fits_record hrecord hparts, hfinite⟩
    · cases hkey

/-- Lists of finite order keys are carried if expressions are. -/
theorem orderKeys (hr : read.Carries h limit) :
    h.Carries limit (fun keys => f.list (OrderKey.writeAll f keys))
      (f.listOf? (read.orderKey f)) (fun keys => OrderKey.allFinite keys = true) := by
  simp only [OrderKey.writeAll_eq, OrderKey.allFinite_iff]
  exact hr.orderKey.list

/-- Finite projected items are carried if expressions are. -/
theorem selectItem (hr : read.Carries h limit) :
    h.Carries limit (SelectItem.write f) (read.selectItem f)
      (fun item => item.expr.isFinite = true) where
  read_of_within {x item} hitem hx := by
    obtain ⟨e, name⟩ := item
    obtain ⟨ys, hrecord, hys⟩ := hx.record (by simp)
    obtain _ | ⟨he, _ | ⟨hname, _ | _⟩⟩ := hys
    exact read_bind hrecord <|
      read_bind (hr.expr.read_of_within hitem he) <|
      read_bind ((Carries.optionalText h limit).read_of_within trivial hname) rfl
  fits_of_read {x item} hitem := by
    obtain ⟨parts, hrecord, hitem⟩ := Option.bind_eq_some_iff.mp hitem
    split at hitem
    · simp only [Option.bind_eq_bind, Option.bind_eq_some_iff, Option.pure_def,
        Option.some.injEq] at hitem
      obtain ⟨e, he, name, hname, rfl⟩ := hitem
      obtain ⟨hfits, hfinite⟩ := hr.expr.required he
      have hparts := List.Forall₂.cons hfits <|
        .cons ((Carries.optionalText h limit).optional rfl trivial hname).1 .nil
      exact ⟨h.fits_record hrecord hparts, hfinite⟩
    · cases hitem

/-- Lists of finite projected items are carried if expressions are. -/
theorem selectItems (hr : read.Carries h limit) :
    h.Carries limit (fun items => f.list (SelectItem.writeAll f items))
      (f.listOf? (read.selectItem f)) (fun items => SelectItem.allFinite items = true) := by
  simp only [SelectItem.writeAll_eq, SelectItem.allFinite_iff]
  exact hr.selectItem.list

/-- Finite assignments are carried if expressions are. -/
theorem assignment (hr : read.Carries h limit) :
    h.Carries limit (Assignment.write f) (read.assignment f)
      (fun a => a.value.isFinite = true) where
  read_of_within {x a} ha hx := by
    obtain ⟨column, value⟩ := a
    obtain ⟨ys, hrecord, hys⟩ := hx.record (by simp)
    obtain _ | ⟨hcolumn, _ | ⟨hvalue, _ | _⟩⟩ := hys
    exact read_bind hrecord <|
      read_bind (h.holds_text hcolumn.2) <|
      read_bind (hr.expr.read_of_within ha hvalue) rfl
  fits_of_read {x a} ha := by
    obtain ⟨parts, hrecord, ha⟩ := Option.bind_eq_some_iff.mp ha
    split at ha
    · simp only [Option.bind_eq_bind, Option.bind_eq_some_iff, Option.pure_def,
        Option.some.injEq] at ha
      obtain ⟨column, hcolumn, value, hvalue, rfl⟩ := ha
      obtain ⟨hfits, hfinite⟩ := hr.expr.required hvalue
      have htext := ((Carries.text h limit).required hcolumn).1
      have hparts := List.Forall₂.cons htext (.cons hfits .nil)
      exact ⟨h.fits_record hrecord hparts, hfinite⟩
    · cases ha

/-- Lists of finite assignments are carried if expressions are. -/
theorem assignments (hr : read.Carries h limit) :
    h.Carries limit (fun assignments => f.list (Assignment.writeAll f assignments))
      (f.listOf? (read.assignment f))
      (fun assignments => Assignment.allFinite assignments = true) := by
  simp only [Assignment.writeAll_eq, Assignment.allFinite_iff]
  exact hr.assignment.list

/-- Finite actions upon a conflict are carried if expressions are. -/
theorem conflictAction (hr : read.Carries h limit) :
    h.Carries limit (ConflictAction.write f) (read.conflictAction f)
      (fun action => action.isFinite = true) where
  read_of_within {x action} haction hx := by
    cases action with
    | doNothing =>
      obtain ⟨contents, hvariant, hempty⟩ := h.holds_constant hx.2
      rw [NodeReader.conflictAction, hvariant]
      exact if_pos hempty
    | doUpdate assignments =>
      obtain ⟨y, hvariant, hy⟩ := (hx.mono (Nat.le_succ limit)).wrapped
      rw [NodeReader.conflictAction, hvariant]
      exact congrArg (Option.map ConflictAction.doUpdate) (hr.assignments.read_of_within haction hy)
  fits_of_read {x action} haction := by
    unfold NodeReader.conflictAction at haction
    split at haction
    · rename_i contents hvariant
      obtain ⟨hempty, heq⟩ := Option.ite_none_right_eq_some.mp haction
      cases heq
      exact ⟨h.fits_constant hvariant hempty, rfl⟩
    · rename_i y hvariant
      obtain ⟨assignments, hassignments, rfl⟩ := Option.map_eq_some_iff.mp haction
      obtain ⟨hfits, hfinite⟩ := hr.assignments.fits_of_read hassignments
      exact ⟨h.fits_wrapped hvariant hfits, hfinite⟩
    · cases haction

/-- What is joined is carried, if it is finite and queries are. -/
theorem joinTarget (hr : read.Carries h limit) :
    h.Carries limit (JoinTarget.write f) (read.joinTarget f)
      (fun target => JoinTarget.isFinite target = true) where
  read_of_within {x target} htarget hx := by
    cases target with
    | table name =>
      obtain ⟨y, hvariant, hy⟩ := (hx.mono (Nat.le_succ limit)).wrapped
      rw [NodeReader.joinTarget, hvariant]
      exact congrArg (Option.map JoinTarget.table) (h.holds_text hy.2)
    | lateral body name =>
      obtain ⟨y, ys, hvariant, hfields, hys⟩ := (hx.mono (Nat.le_succ limit)).tagged (by simp)
      obtain _ | ⟨hbody, _ | ⟨hname, _ | _⟩⟩ := hys
      rw [NodeReader.joinTarget, hvariant]
      exact read_bind hfields <|
        read_bind (hr.query.read_of_within htarget hbody) <|
        read_bind (h.holds_text hname.2) rfl
  fits_of_read {x target} htarget := by
    unfold NodeReader.joinTarget at htarget
    split at htarget
    · rename_i y hvariant
      obtain ⟨name, hname, rfl⟩ := Option.map_eq_some_iff.mp htarget
      exact ⟨h.fits_wrapped hvariant (h.fits_text hname), rfl⟩
    · rename_i y hvariant
      obtain ⟨parts, hfields, htarget⟩ := Option.bind_eq_some_iff.mp htarget
      split at htarget
      · simp only [Option.bind_eq_bind, Option.bind_eq_some_iff, Option.pure_def,
          Option.some.injEq] at htarget
        obtain ⟨body, hbody, name, hname, rfl⟩ := htarget
        obtain ⟨hfits, hfinite⟩ := hr.query.required hbody
        have htext := ((Carries.text h limit).required hname).1
        have hparts := List.Forall₂.cons hfits (.cons htext .nil)
        exact ⟨h.fits_tagged hvariant hfields hparts, hfinite⟩
      · cases htarget
    · cases htarget

/-- Finite entries of a WITH are carried if queries are. -/
theorem cte (hr : read.Carries h limit) :
    h.Carries limit (Cte.write f) (read.cte f) (fun cte => cte.body.isFinite = true) where
  read_of_within {x cte} hcte hx := by
    obtain ⟨name, columns, body⟩ := cte
    obtain ⟨ys, hrecord, hys⟩ := hx.record (by simp)
    obtain _ | ⟨hname, _ | ⟨hcolumns, _ | ⟨hbody, _ | _⟩⟩⟩ := hys
    exact read_bind hrecord <|
      read_bind (h.holds_text hname.2) <|
      read_bind ((Carries.texts h limit).read_of_within trivial hcolumns) <|
      read_bind (hr.query.read_of_within hcte hbody) rfl
  fits_of_read {x cte} hcte := by
    obtain ⟨parts, hrecord, hcte⟩ := Option.bind_eq_some_iff.mp hcte
    split at hcte
    · simp only [Option.bind_eq_bind, Option.bind_eq_some_iff, Option.pure_def,
        Option.some.injEq] at hcte
      obtain ⟨name, hname, columns, hcolumns, body, hbody, rfl⟩ := hcte
      obtain ⟨hfits, hfinite⟩ := hr.query.required hbody
      have hparts := List.Forall₂.cons ((Carries.text h limit).required hname).1 <|
        .cons ((Carries.texts h limit).required hcolumns).1 (.cons hfits .nil)
      exact ⟨h.fits_record hrecord hparts, hfinite⟩
    · cases hcte

/-- Lists of finite entries of a WITH are carried if queries are. -/
theorem ctes (hr : read.Carries h limit) :
    h.Carries limit (fun ctes => f.list (Cte.writeAll f ctes)) (f.listOf? (read.cte f))
      (fun ctes => Cte.allFinite ctes = true) := by
  simp only [Cte.writeAll_eq, Cte.allFinite_iff]
  exact hr.cte.list

/-- What belongs to a kind other than that of the wildcard is read by the name of the kind. -/
theorem exprNode_of_variant {x y : δ} {tag : String} (hvariant : f.variant? x = some (tag, some y))
    (htag : tag ≠ "Wildcard") : read.exprNode f x = read.exprOfParts f tag y := by
  rw [NodeReader.exprNode, hvariant]
  split
  · rename_i heq
    cases heq
    exact absurd rfl htag
  · rename_i heq
    cases heq
    rfl
  · rename_i hne
    exact absurd rfl (hne tag y)

/-- An expression is read if the expressions and the queries in it are. -/
theorem read_exprNode (hr : read.Carries h limit) {x : δ} {e : Expr} (he : e.isFinite = true)
    (hx : h.Within (limit + 1) x (e.write f)) : read.exprNode f x = some e := by
  cases e with
  | column table name =>
    obtain ⟨y, hvariant, hy⟩ := hx.wrapped
    obtain ⟨ys, hrecord, hys⟩ := hy.record (by simp)
    obtain _ | ⟨htable, _ | ⟨hname, _ | _⟩⟩ := hys
    rw [exprNode_of_variant hvariant (by decide)]
    exact read_bind hrecord <|
      read_bind ((Carries.optionalText h limit).read_of_within trivial htable) <|
      read_bind (h.holds_text hname.2) rfl
  | placeholder name =>
    obtain ⟨y, hvariant, hy⟩ := hx.wrapped
    rw [exprNode_of_variant hvariant (by decide)]
    exact congrArg (Option.map Expr.placeholder) (h.holds_text hy.2)
  | literal value =>
    obtain ⟨y, hvariant, hy⟩ := hx.wrapped
    rw [exprNode_of_variant hvariant (by decide)]
    exact congrArg (Option.map Expr.literal) ((Value.carries h limit).read_of_within he hy)
  | parameter type name =>
    obtain ⟨y, hvariant, hy⟩ := hx.wrapped
    obtain ⟨ys, hrecord, hys⟩ := hy.record (by simp)
    obtain _ | ⟨htype, _ | ⟨hname, _ | _⟩⟩ := hys
    rw [exprNode_of_variant hvariant (by decide)]
    exact read_bind hrecord <|
      read_bind ((SqlType.carries h limit).read_of_within trivial htype) <|
      read_bind (h.holds_text hname.2) rfl
  | binary op left right =>
    obtain ⟨y, ys, hvariant, hfields, hys⟩ := hx.tagged (by simp)
    obtain _ | ⟨hop, _ | ⟨hleft, _ | ⟨hright, _ | _⟩⟩⟩ := hys
    simp only [Expr.isFinite, Bool.and_eq_true] at he
    rw [exprNode_of_variant hvariant (by decide)]
    exact read_bind hfields <|
      read_bind ((BinaryOperator.carries h limit).read_of_within trivial hop) <|
      read_bind (hr.expr.read_of_within he.1 hleft) <|
      read_bind (hr.expr.read_of_within he.2 hright) rfl
  | unary op operand =>
    obtain ⟨y, ys, hvariant, hfields, hys⟩ := hx.tagged (by simp)
    obtain _ | ⟨hop, _ | ⟨hoperand, _ | _⟩⟩ := hys
    have hfinite : operand.isFinite = true := he
    rw [exprNode_of_variant hvariant (by decide)]
    exact read_bind hfields <|
      read_bind ((UnaryOperator.carries h limit).read_of_within trivial hop) <|
      read_bind (hr.expr.read_of_within hfinite hoperand) rfl
  | call name args distinct =>
    obtain ⟨y, ys, hvariant, hfields, hys⟩ := hx.tagged (by simp)
    obtain _ | ⟨hname, _ | ⟨hargs, _ | ⟨hdistinct, _ | _⟩⟩⟩ := hys
    rw [exprNode_of_variant hvariant (by decide)]
    exact read_bind hfields <|
      read_bind (h.holds_text hname.2) <|
      read_bind (hr.exprs.read_of_within he hargs) <|
      read_bind (h.holds_bool hdistinct.2) rfl
  | between subject low high negated =>
    obtain ⟨y, ys, hvariant, hfields, hys⟩ := hx.tagged (by simp)
    obtain _ | ⟨hsubject, _ | ⟨hlow, _ | ⟨hhigh, _ | ⟨hnegated, _ | _⟩⟩⟩⟩ := hys
    simp only [Expr.isFinite, Bool.and_eq_true] at he
    rw [exprNode_of_variant hvariant (by decide)]
    exact read_bind hfields <|
      read_bind (hr.expr.read_of_within he.1.1 hsubject) <|
      read_bind (hr.expr.read_of_within he.1.2 hlow) <|
      read_bind (hr.expr.read_of_within he.2 hhigh) <|
      read_bind (h.holds_bool hnegated.2) rfl
  | inList subject values negated =>
    obtain ⟨y, ys, hvariant, hfields, hys⟩ := hx.tagged (by simp)
    obtain _ | ⟨hsubject, _ | ⟨hvalues, _ | ⟨hnegated, _ | _⟩⟩⟩ := hys
    simp only [Expr.isFinite, Bool.and_eq_true] at he
    rw [exprNode_of_variant hvariant (by decide)]
    exact read_bind hfields <|
      read_bind (hr.expr.read_of_within he.1 hsubject) <|
      read_bind (hr.exprs.read_of_within he.2 hvalues) <|
      read_bind (h.holds_bool hnegated.2) rfl
  | cast operand type =>
    obtain ⟨y, ys, hvariant, hfields, hys⟩ := hx.tagged (by simp)
    obtain _ | ⟨hoperand, _ | ⟨htype, _ | _⟩⟩ := hys
    have hfinite : operand.isFinite = true := he
    rw [exprNode_of_variant hvariant (by decide)]
    exact read_bind hfields <|
      read_bind (hr.expr.read_of_within hfinite hoperand) <|
      read_bind ((SqlType.carries h limit).read_of_within trivial htype) rfl
  | subquery query =>
    obtain ⟨y, hvariant, hy⟩ := hx.wrapped
    rw [exprNode_of_variant hvariant (by decide)]
    exact congrArg (Option.map Expr.subquery) (hr.query.read_of_within he hy)
  | existence query negated =>
    obtain ⟨y, ys, hvariant, hfields, hys⟩ := hx.tagged (by simp)
    obtain _ | ⟨hquery, _ | ⟨hnegated, _ | _⟩⟩ := hys
    rw [exprNode_of_variant hvariant (by decide)]
    exact read_bind hfields <|
      read_bind (hr.query.read_of_within he hquery) <|
      read_bind (h.holds_bool hnegated.2) rfl
  | choice branches otherwise =>
    obtain ⟨y, ys, hvariant, hfields, hys⟩ := hx.tagged (by simp)
    obtain _ | ⟨hbranches, _ | ⟨hotherwise, _ | _⟩⟩ := hys
    simp only [Expr.isFinite, Bool.and_eq_true] at he
    rw [exprNode_of_variant hvariant (by decide)]
    exact read_bind hfields <|
      read_bind (hr.branches.read_of_within he.1 hbranches) <|
      read_bind (hr.option.read_of_within he.2 hotherwise) rfl
  | window name args partition order frame =>
    obtain ⟨y, hvariant, hy⟩ := hx.wrapped
    obtain ⟨ys, hrecord, hys⟩ := hy.record (by simp)
    obtain _ | ⟨hname, _ | ⟨hargs, _ | ⟨hpartition, _ | ⟨horder, _ | ⟨hframe, _ | _⟩⟩⟩⟩⟩ := hys
    simp only [Expr.isFinite, Bool.and_eq_true] at he
    rw [exprNode_of_variant hvariant (by decide)]
    exact read_bind hrecord <|
      read_bind (h.holds_text hname.2) <|
      read_bind (hr.exprs.read_of_within he.1.1 hargs) <|
      read_bind (hr.exprs.read_of_within he.1.2 hpartition) <|
      read_bind (hr.orderKeys.read_of_within he.2 horder) <|
      read_bind ((Frame.carries_option h limit).read_of_within trivial hframe) rfl
  | wildcard =>
    obtain ⟨contents, hvariant, hempty⟩ := h.holds_constant hx.2
    rw [NodeReader.exprNode, hvariant]
    exact if_pos hempty

/-- An expression that is read could be written, and its numbers are finite. -/
theorem fits_exprOfParts (hr : read.Carries h limit) {x y : δ} {tag : String} {e : Expr}
    (hvariant : f.variant? x = some (tag, some y)) (he : read.exprOfParts f tag y = some e) :
    h.Fits x (e.write f) ∧ e.isFinite = true := by
  unfold NodeReader.exprOfParts at he
  split at he
  case h_1 =>
    obtain ⟨name, hname, rfl⟩ := Option.map_eq_some_iff.mp he
    exact ⟨h.fits_wrapped hvariant (h.fits_text hname), rfl⟩
  case h_2 =>
    obtain ⟨value, hvalue, rfl⟩ := Option.map_eq_some_iff.mp he
    obtain ⟨hfits, hfinite⟩ := (Value.carries h limit).fits_of_read hvalue
    exact ⟨h.fits_wrapped hvariant hfits, hfinite⟩
  case h_3 =>
    obtain ⟨query, hquery, rfl⟩ := Option.map_eq_some_iff.mp he
    obtain ⟨hfits, hfinite⟩ := hr.query.fits_of_read hquery
    exact ⟨h.fits_wrapped hvariant hfits, hfinite⟩
  case h_15 => cases he
  -- all other kinds have parts with names, and what was read from them is known
  all_goals
    obtain ⟨parts, hfields, he⟩ := Option.bind_eq_some_iff.mp he
    split at he
    swap
    · cases he
    simp only [Option.bind_eq_bind, Option.bind_eq_some_iff, Option.pure_def,
      Option.some.injEq] at he
  · -- Column
    obtain ⟨table, htable, name, hname, rfl⟩ := he
    obtain ⟨htable, -⟩ := (Carries.optionalText h limit).optional rfl trivial htable
    obtain ⟨hname, -⟩ := (Carries.text h limit).required hname
    have hparts := h.fits_record hfields (.cons htable (.cons hname .nil))
    exact ⟨h.fits_wrapped hvariant hparts, rfl⟩
  · -- Parameter
    obtain ⟨type, htype, name, hname, rfl⟩ := he
    obtain ⟨htype, -⟩ := (SqlType.carries h limit).required htype
    obtain ⟨hname, -⟩ := (Carries.text h limit).required hname
    have hparts := h.fits_record hfields (.cons htype (.cons hname .nil))
    exact ⟨h.fits_wrapped hvariant hparts, rfl⟩
  · -- Binary
    obtain ⟨op, hop, left, hleft, right, hright, rfl⟩ := he
    obtain ⟨hop, -⟩ := (BinaryOperator.carries h limit).required hop
    obtain ⟨hleft, hfinite⟩ := hr.expr.required hleft
    obtain ⟨hright, hfinite'⟩ := hr.expr.required hright
    exact ⟨h.fits_tagged hvariant hfields (.cons hop (.cons hleft (.cons hright .nil))),
      by simp [Expr.isFinite, hfinite, hfinite']⟩
  · -- Unary
    obtain ⟨op, hop, operand, hoperand, rfl⟩ := he
    obtain ⟨hop, -⟩ := (UnaryOperator.carries h limit).required hop
    obtain ⟨hoperand, hfinite⟩ := hr.expr.required hoperand
    exact ⟨h.fits_tagged hvariant hfields (.cons hop (.cons hoperand .nil)), hfinite⟩
  · -- Function
    obtain ⟨name, hname, args, hargs, distinct, hdistinct, rfl⟩ := he
    obtain ⟨hname, -⟩ := (Carries.text h limit).required hname
    obtain ⟨hargs, hfinite⟩ := hr.exprs.required hargs
    obtain ⟨hdistinct, -⟩ := (Carries.bool h limit).required hdistinct
    exact ⟨h.fits_tagged hvariant hfields (.cons hname (.cons hargs (.cons hdistinct .nil))),
      hfinite⟩
  · -- Between
    obtain ⟨subject, hsubject, low, hlow, high, hhigh, negated, hnegated, rfl⟩ := he
    obtain ⟨hsubject, hfinite⟩ := hr.expr.required hsubject
    obtain ⟨hlow, hfinite'⟩ := hr.expr.required hlow
    obtain ⟨hhigh, hfinite''⟩ := hr.expr.required hhigh
    obtain ⟨hnegated, -⟩ := (Carries.bool h limit).required hnegated
    have hparts := List.Forall₂.cons hsubject (.cons hlow (.cons hhigh (.cons hnegated .nil)))
    exact ⟨h.fits_tagged hvariant hfields hparts,
      by simp [Expr.isFinite, hfinite, hfinite', hfinite'']⟩
  · -- InList
    obtain ⟨subject, hsubject, values, hvalues, negated, hnegated, rfl⟩ := he
    obtain ⟨hsubject, hfinite⟩ := hr.expr.required hsubject
    obtain ⟨hvalues, hfinite'⟩ := hr.exprs.required hvalues
    obtain ⟨hnegated, -⟩ := (Carries.bool h limit).required hnegated
    exact ⟨h.fits_tagged hvariant hfields (.cons hsubject (.cons hvalues (.cons hnegated .nil))),
      by simp [Expr.isFinite, hfinite, hfinite']⟩
  · -- Cast
    obtain ⟨operand, hoperand, type, htype, rfl⟩ := he
    obtain ⟨hoperand, hfinite⟩ := hr.expr.required hoperand
    obtain ⟨htype, -⟩ := (SqlType.carries h limit).required htype
    exact ⟨h.fits_tagged hvariant hfields (.cons hoperand (.cons htype .nil)), hfinite⟩
  · -- Exists
    obtain ⟨query, hquery, negated, hnegated, rfl⟩ := he
    obtain ⟨hquery, hfinite⟩ := hr.query.required hquery
    obtain ⟨hnegated, -⟩ := (Carries.bool h limit).required hnegated
    exact ⟨h.fits_tagged hvariant hfields (.cons hquery (.cons hnegated .nil)), hfinite⟩
  · -- Case
    obtain ⟨branches, hbranches, otherwise, hotherwise, rfl⟩ := he
    obtain ⟨hbranches, hfinite⟩ := hr.branches.required hbranches
    obtain ⟨hotherwise, hfinite'⟩ := hr.option.optional rfl rfl hotherwise
    exact ⟨h.fits_tagged hvariant hfields (.cons hbranches (.cons hotherwise .nil)),
      by simp [Expr.isFinite, hfinite, hfinite']⟩
  · -- Window
    obtain ⟨name, hname, args, hargs, partition, hpartition, order, horder, frame, hframe,
      rfl⟩ := he
    obtain ⟨hname, -⟩ := (Carries.text h limit).required hname
    obtain ⟨hargs, hfinite⟩ := hr.exprs.required hargs
    obtain ⟨hpartition, hfinite'⟩ := hr.exprs.required hpartition
    obtain ⟨horder, hfinite''⟩ := hr.orderKeys.required horder
    obtain ⟨hframe, -⟩ := (Frame.carries_option h limit).optional rfl trivial hframe
    have hparts := h.fits_record hfields <|
      .cons hname (.cons hargs (.cons hpartition (.cons horder (.cons hframe .nil))))
    exact ⟨h.fits_wrapped hvariant hparts, by simp [Expr.isFinite, hfinite, hfinite', hfinite'']⟩

/-- Expressions are carried one level further than what is in them. -/
theorem exprNode (hr : read.Carries h limit) :
    h.Carries (limit + 1) (Expr.write f) (read.exprNode f) (fun e => e.isFinite = true) where
  read_of_within he hx := hr.read_exprNode he hx
  fits_of_read {x e} he := by
    unfold NodeReader.exprNode at he
    split at he
    · rename_i contents hvariant
      obtain ⟨hempty, heq⟩ := Option.ite_none_right_eq_some.mp he
      cases heq
      exact ⟨h.fits_constant hvariant hempty, rfl⟩
    · rename_i hvariant
      exact hr.fits_exprOfParts hvariant he
    · cases he

end Carries

end NodeReader

end SqlAlgebra
