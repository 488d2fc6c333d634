import SqlAlgebra.Query.Scope

/-!
# The parts of an expression

All expressions that an expression consists of, itself included and the queries nested in it apart.
What is asked of every part is asked of the whole: whether a placeholder is left, which one comes
first, and what becomes of the parts when the placeholders are filled in.
-/

namespace SqlAlgebra

mutual

/-- The expression and all that is in it in the order of its text, nested queries apart. -/
def Expr.parts (e : Expr) : List Expr :=
  e :: match e with
    | .column .. | .placeholder _ | .literal _ | .parameter .. | .subquery _ | .existence ..
    | .wildcard => []
    | .binary _ left right => left.parts ++ right.parts
    | .unary _ operand => operand.parts
    | .call _ args _ => Expr.partsAll args
    | .between subject low high _ => subject.parts ++ low.parts ++ high.parts
    | .inList subject values _ => subject.parts ++ Expr.partsAll values
    | .cast operand _ => operand.parts
    | .choice branches otherwise => Branch.partsAll branches ++ Expr.partsOption otherwise
    | .window _ args partition order _ =>
      Expr.partsAll args ++ Expr.partsAll partition ++ OrderKey.partsAll order
termination_by structural e

def Expr.partsAll : List Expr → List Expr
  | [] => []
  | e :: es => e.parts ++ Expr.partsAll es
termination_by structural es => es

def Expr.partsOption : Option Expr → List Expr
  | none => []
  | some e => e.parts
termination_by structural e => e

def Branch.partsAll : List Branch → List Expr
  | [] => []
  | ⟨condition, result⟩ :: branches =>
    condition.parts ++ result.parts ++ Branch.partsAll branches
termination_by structural branches => branches

def OrderKey.partsAll : List OrderKey → List Expr
  | [] => []
  | ⟨e, _, _⟩ :: keys => e.parts ++ OrderKey.partsAll keys
termination_by structural keys => keys

end

/-- An expression is a part of itself. -/
theorem Expr.mem_parts_self (e : Expr) : e ∈ e.parts := by
  cases e <;> exact List.mem_cons_self

mutual

/-- Filling in the placeholders of an expression does so in each of its parts. -/
theorem Expr.parts_qualify (table : String) : ∀ e : Expr,
    (e.qualify table).parts = e.parts.map (Expr.qualify table)
  | .column .. | .placeholder _ | .literal _ | .parameter .. | .subquery _ | .existence ..
  | .wildcard => rfl
  | .binary _ left right => by
    simp [Expr.qualify, Expr.parts, Expr.parts_qualify table left, Expr.parts_qualify table right]
  | .unary _ operand => by
    simp [Expr.qualify, Expr.parts, Expr.parts_qualify table operand]
  | .call _ args _ => by
    simp [Expr.qualify, Expr.parts, Expr.partsAll_qualify table args]
  | .between subject low high _ => by
    simp [Expr.qualify, Expr.parts, Expr.parts_qualify table subject,
      Expr.parts_qualify table low, Expr.parts_qualify table high]
  | .inList subject values _ => by
    simp [Expr.qualify, Expr.parts, Expr.parts_qualify table subject,
      Expr.partsAll_qualify table values]
  | .cast operand _ => by
    simp [Expr.qualify, Expr.parts, Expr.parts_qualify table operand]
  | .choice branches otherwise => by
    simp [Expr.qualify, Expr.parts, Branch.partsAll_qualify table branches,
      Expr.partsOption_qualify table otherwise]
  | .window _ args partition order _ => by
    simp [Expr.qualify, Expr.parts, Expr.partsAll_qualify table args,
      Expr.partsAll_qualify table partition, OrderKey.partsAll_qualify table order]
termination_by structural e => e

/-- The parts of a qualified list are the qualified parts. -/
theorem Expr.partsAll_qualify (table : String) : ∀ es : List Expr,
    Expr.partsAll (Expr.qualifyAll table es) = (Expr.partsAll es).map (Expr.qualify table)
  | [] => rfl
  | e :: es => by
    simp [Expr.qualifyAll, Expr.partsAll, Expr.parts_qualify table e,
      Expr.partsAll_qualify table es]
termination_by structural es => es

/-- The parts of a qualified expression that may be missing are the qualified parts. -/
theorem Expr.partsOption_qualify (table : String) : ∀ e : Option Expr,
    Expr.partsOption (Expr.qualifyOption table e) =
      (Expr.partsOption e).map (Expr.qualify table)
  | none => rfl
  | some e => by
    simp [Expr.qualifyOption, Expr.partsOption, Expr.parts_qualify table e]
termination_by structural e => e

/-- The parts of qualified branches are the qualified parts. -/
theorem Branch.partsAll_qualify (table : String) : ∀ branches : List Branch,
    Branch.partsAll (Branch.qualifyAll table branches) =
      (Branch.partsAll branches).map (Expr.qualify table)
  | [] => rfl
  | ⟨condition, result⟩ :: branches => by
    simp [Branch.qualifyAll, Branch.partsAll, Expr.parts_qualify table condition,
      Expr.parts_qualify table result, Branch.partsAll_qualify table branches]
termination_by structural branches => branches

/-- The parts of qualified order keys are the qualified parts. -/
theorem OrderKey.partsAll_qualify (table : String) : ∀ keys : List OrderKey,
    OrderKey.partsAll (OrderKey.qualifyAll table keys) =
      (OrderKey.partsAll keys).map (Expr.qualify table)
  | [] => rfl
  | ⟨e, _, _⟩ :: keys => by
    simp [OrderKey.qualifyAll, OrderKey.partsAll, Expr.parts_qualify table e,
      OrderKey.partsAll_qualify table keys]
termination_by structural keys => keys

end

/-- The name of the field, if the expression is a placeholder. -/
def Expr.placeholder? : Expr → Option String
  | .placeholder name => some name
  | _ => none

/-- A qualified expression is no placeholder. -/
theorem Expr.placeholder?_qualify (table : String) (e : Expr) :
    (e.qualify table).placeholder? = none := by
  cases e <;> rfl

mutual

/-- The leftmost placeholder is the first of the parts that is one. -/
theorem Expr.firstPlaceholder?_eq : ∀ e : Expr,
    e.firstPlaceholder? = e.parts.findSome? Expr.placeholder?
  | .column .. | .placeholder _ | .literal _ | .parameter .. | .subquery _ | .existence ..
  | .wildcard => rfl
  | .binary _ left right => by
    simp [Expr.firstPlaceholder?, Expr.parts, List.findSome?_cons, Expr.placeholder?,
      Expr.firstPlaceholder?_eq left, Expr.firstPlaceholder?_eq right, List.findSome?_append]
  | .unary _ operand => by
    simp [Expr.firstPlaceholder?, Expr.parts, List.findSome?_cons, Expr.placeholder?,
      Expr.firstPlaceholder?_eq operand]
  | .call _ args _ => by
    simp [Expr.firstPlaceholder?, Expr.parts, List.findSome?_cons, Expr.placeholder?,
      Expr.firstPlaceholderIn?_eq args]
  | .between subject low high _ => by
    simp [Expr.firstPlaceholder?, Expr.parts, List.findSome?_cons, Expr.placeholder?,
      Expr.firstPlaceholder?_eq subject, Expr.firstPlaceholder?_eq low,
      Expr.firstPlaceholder?_eq high, List.findSome?_append, Option.or_assoc]
  | .inList subject values _ => by
    simp [Expr.firstPlaceholder?, Expr.parts, List.findSome?_cons, Expr.placeholder?,
      Expr.firstPlaceholder?_eq subject, Expr.firstPlaceholderIn?_eq values,
      List.findSome?_append]
  | .cast operand _ => by
    simp [Expr.firstPlaceholder?, Expr.parts, List.findSome?_cons, Expr.placeholder?,
      Expr.firstPlaceholder?_eq operand]
  | .choice branches otherwise => by
    simp [Expr.firstPlaceholder?, Expr.parts, List.findSome?_cons, Expr.placeholder?,
      Branch.firstPlaceholderIn?_eq branches, Expr.firstPlaceholderOption?_eq otherwise,
      List.findSome?_append]
  | .window _ args partition order _ => by
    simp [Expr.firstPlaceholder?, Expr.parts, List.findSome?_cons, Expr.placeholder?,
      Expr.firstPlaceholderIn?_eq args, Expr.firstPlaceholderIn?_eq partition,
      OrderKey.firstPlaceholderIn?_eq order, List.findSome?_append, Option.or_assoc]
termination_by structural e => e

/-- The first placeholder in a list is the first one among its parts. -/
theorem Expr.firstPlaceholderIn?_eq : ∀ es : List Expr,
    Expr.firstPlaceholderIn? es = (Expr.partsAll es).findSome? Expr.placeholder?
  | [] => rfl
  | e :: es => by
    simp [Expr.firstPlaceholderIn?, Expr.partsAll, Expr.firstPlaceholder?_eq e,
      Expr.firstPlaceholderIn?_eq es, List.findSome?_append]
termination_by structural es => es

/-- The first placeholder in an expression that may be missing is the first one among its parts. -/
theorem Expr.firstPlaceholderOption?_eq : ∀ e : Option Expr,
    Expr.firstPlaceholderOption? e = (Expr.partsOption e).findSome? Expr.placeholder?
  | none => rfl
  | some e => by
    simp [Expr.firstPlaceholderOption?, Expr.partsOption, Expr.firstPlaceholder?_eq e]
termination_by structural e => e

/-- The first placeholder in branches is the first one among their parts. -/
theorem Branch.firstPlaceholderIn?_eq : ∀ branches : List Branch,
    Branch.firstPlaceholderIn? branches =
      (Branch.partsAll branches).findSome? Expr.placeholder?
  | [] => rfl
  | ⟨condition, result⟩ :: branches => by
    simp [Branch.firstPlaceholderIn?, Branch.partsAll, Expr.firstPlaceholder?_eq condition,
      Expr.firstPlaceholder?_eq result, Branch.firstPlaceholderIn?_eq branches,
      List.findSome?_append, Option.or_assoc]
termination_by structural branches => branches

/-- The first placeholder in order keys is the first one among their parts. -/
theorem OrderKey.firstPlaceholderIn?_eq : ∀ keys : List OrderKey,
    OrderKey.firstPlaceholderIn? keys = (OrderKey.partsAll keys).findSome? Expr.placeholder?
  | [] => rfl
  | ⟨e, _, _⟩ :: keys => by
    simp [OrderKey.firstPlaceholderIn?, OrderKey.partsAll, Expr.firstPlaceholder?_eq e,
      OrderKey.firstPlaceholderIn?_eq keys, List.findSome?_append]
termination_by structural keys => keys

end

/-- Where an expression has been resolved, no part of it is a placeholder. -/
theorem Expr.placeholder?_of_resolve {scope : Scope} {e e' : Expr}
    (h : e.resolve scope = .ok e') : ∀ x ∈ e'.parts, x.placeholder? = none := by
  cases scope with
  | table table =>
    cases h
    intro x hx
    rw [Expr.parts_qualify, List.mem_map] at hx
    obtain ⟨y, -, rfl⟩ := hx
    exact Expr.placeholder?_qualify table y
  | ambiguous reason =>
    cases hfirst : e.firstPlaceholder? with
    | some field => simp [Expr.resolve, hfirst] at h
    | none =>
      have heq : e = e' := by simpa [Expr.resolve, hfirst] using h
      rw [Expr.firstPlaceholder?_eq, heq] at hfirst
      exact List.findSome?_eq_none_iff.mp hfirst

end SqlAlgebra
