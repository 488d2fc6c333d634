import SqlAlgebra.Command

/-!
# Finite numbers

Whether all numbers in an expression, a query or a command are finite. These are the numbers that
can be stored.
-/

namespace SqlAlgebra

mutual

/-- All numbers in the expression are finite. -/
def Expr.isFinite : Expr → Bool
  | .column .. | .placeholder _ | .parameter .. | .wildcard => true
  | .literal value => value.isFinite
  | .binary _ left right => left.isFinite && right.isFinite
  | .unary _ operand => operand.isFinite
  | .call _ args _ => Expr.allFinite args
  | .between subject low high _ => subject.isFinite && low.isFinite && high.isFinite
  | .inList subject values _ => subject.isFinite && Expr.allFinite values
  | .cast operand _ => operand.isFinite
  | .subquery query => query.isFinite
  | .existence query _ => query.isFinite
  | .choice branches otherwise => Branch.allFinite branches && Expr.optionFinite otherwise
  | .window _ args partition order _ =>
    Expr.allFinite args && Expr.allFinite partition && OrderKey.allFinite order
termination_by structural e => e

def Expr.allFinite : List Expr → Bool
  | [] => true
  | e :: es => e.isFinite && Expr.allFinite es
termination_by structural es => es

def Expr.optionFinite : Option Expr → Bool
  | none => true
  | some e => e.isFinite
termination_by structural e => e

def Expr.rowsFinite : List (List Expr) → Bool
  | [] => true
  | row :: rows => Expr.allFinite row && Expr.rowsFinite rows
termination_by structural rows => rows

def Branch.allFinite : List Branch → Bool
  | [] => true
  | ⟨condition, result⟩ :: branches =>
    (condition.isFinite && result.isFinite) && Branch.allFinite branches
termination_by structural branches => branches

def OrderKey.allFinite : List OrderKey → Bool
  | [] => true
  | ⟨e, _, _⟩ :: keys => e.isFinite && OrderKey.allFinite keys
termination_by structural keys => keys

def SelectItem.allFinite : List SelectItem → Bool
  | [] => true
  | ⟨e, _⟩ :: items => e.isFinite && SelectItem.allFinite items
termination_by structural items => items

def Assignment.allFinite : List Assignment → Bool
  | [] => true
  | ⟨_, value⟩ :: assignments => value.isFinite && Assignment.allFinite assignments
termination_by structural assignments => assignments

def ConflictAction.isFinite : ConflictAction → Bool
  | .doNothing => true
  | .doUpdate assignments => Assignment.allFinite assignments
termination_by structural action => action

def JoinTarget.isFinite : JoinTarget Query → Bool
  | .table _ => true
  | .lateral body _ => body.isFinite
termination_by structural target => target

def Cte.allFinite : List (Cte Query) → Bool
  | [] => true
  | ⟨_, _, body⟩ :: ctes => body.isFinite && Cte.allFinite ctes
termination_by structural ctes => ctes

def Stage.isFinite : Stage → Bool
  | .filter e | .limit e | .offset e | .having e | .updateWhere e | .deleteWhere e => e.isFinite
  | .join target condition _ => JoinTarget.isFinite target && Expr.optionFinite condition
  | .select _ items | .returning _ items => SelectItem.allFinite items
  | .orderBy keys => OrderKey.allFinite keys
  | .distinct => true
  | .groupBy keys => Expr.allFinite keys
  | .values rows => Expr.rowsFinite rows
  | .insertSelect rows => rows.isFinite
  | .onConflict _ action => action.isFinite
  | .set assignments => Assignment.allFinite assignments
termination_by structural stage => stage

/-- All numbers in the query are finite. -/
def Query.isFinite : Query → Bool
  | .table _ | .insertInto .. | .update _ | .deleteFrom _ => true
  | .setOperation _ _ left right => left.isFinite && right.isFinite
  | .withCtes _ ctes main => Cte.allFinite ctes && main.isFinite
  | .step source stage => source.isFinite && stage.isFinite
termination_by structural q => q

end

/-- All numbers in the key are finite. -/
def OrderKey.isFinite (key : OrderKey) : Bool := key.expr.isFinite

/-- All numbers in the key of a lock are finite. -/
def Command.isFinite : Command → Bool
  | .advisoryLock key | .advisoryUnlock key => key.isFinite
  | _ => true

/-- A list has only finite numbers if all its expressions do. -/
theorem Expr.allFinite_iff {es : List Expr} :
    Expr.allFinite es = true ↔ ∀ e ∈ es, e.isFinite = true := by
  induction es with
  | nil => simp [Expr.allFinite]
  | cons e es ih => rw [Expr.allFinite, Bool.and_eq_true, ih, List.forall_mem_cons]

/-- An expression that may be missing has only finite numbers if it does where it is there. -/
theorem Expr.optionFinite_iff {e : Option Expr} :
    Expr.optionFinite e = true ↔ ∀ e' ∈ e, e'.isFinite = true := by
  cases e with
  | none => simp [Expr.optionFinite]
  | some e => simp [Expr.optionFinite]

/-- Rows have only finite numbers if each of them does. -/
theorem Expr.rowsFinite_iff {rows : List (List Expr)} :
    Expr.rowsFinite rows = true ↔ ∀ row ∈ rows, Expr.allFinite row = true := by
  induction rows with
  | nil => simp [Expr.rowsFinite]
  | cons row rows ih => rw [Expr.rowsFinite, Bool.and_eq_true, ih, List.forall_mem_cons]

/-- Branches have only finite numbers if all their conditions and results do. -/
theorem Branch.allFinite_iff {branches : List Branch} : Branch.allFinite branches = true ↔
    ∀ b ∈ branches, b.condition.isFinite = true ∧ b.result.isFinite = true := by
  induction branches with
  | nil => simp [Branch.allFinite]
  | cons b branches ih =>
    obtain ⟨condition, result⟩ := b
    rw [Branch.allFinite, Bool.and_eq_true, Bool.and_eq_true, ih, List.forall_mem_cons]

/-- Order keys have only finite numbers if each of them does. -/
theorem OrderKey.allFinite_iff {keys : List OrderKey} :
    OrderKey.allFinite keys = true ↔ ∀ key ∈ keys, key.isFinite = true := by
  induction keys with
  | nil => simp [OrderKey.allFinite]
  | cons key keys ih =>
    obtain ⟨e, direction, nulls⟩ := key
    rw [OrderKey.allFinite, Bool.and_eq_true, ih, List.forall_mem_cons, OrderKey.isFinite]

/-- Projected items have only finite numbers if all their expressions do. -/
theorem SelectItem.allFinite_iff {items : List SelectItem} :
    SelectItem.allFinite items = true ↔ ∀ item ∈ items, item.expr.isFinite = true := by
  induction items with
  | nil => simp [SelectItem.allFinite]
  | cons item items ih =>
    obtain ⟨e, name⟩ := item
    rw [SelectItem.allFinite, Bool.and_eq_true, ih, List.forall_mem_cons]

/-- Assignments have only finite numbers if all their values do. -/
theorem Assignment.allFinite_iff {assignments : List Assignment} :
    Assignment.allFinite assignments = true ↔ ∀ a ∈ assignments, a.value.isFinite = true := by
  induction assignments with
  | nil => simp [Assignment.allFinite]
  | cons a assignments ih =>
    obtain ⟨column, value⟩ := a
    rw [Assignment.allFinite, Bool.and_eq_true, ih, List.forall_mem_cons]

/-- The entries of a WITH have only finite numbers if all their queries do. -/
theorem Cte.allFinite_iff {ctes : List (Cte Query)} :
    Cte.allFinite ctes = true ↔ ∀ cte ∈ ctes, cte.body.isFinite = true := by
  induction ctes with
  | nil => simp [Cte.allFinite]
  | cons cte ctes ih =>
    obtain ⟨name, columns, body⟩ := cte
    rw [Cte.allFinite, Bool.and_eq_true, ih, List.forall_mem_cons]

end SqlAlgebra
