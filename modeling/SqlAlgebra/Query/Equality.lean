import SqlAlgebra.Query.Basic

/-!
# Equality of queries

Equality of expressions and of queries is decided by walking both trees together. `Expr.same` and
`Query.same` are the tests, and `Expr.same_iff` and `Query.same_iff` say that they decide equality.
-/

namespace SqlAlgebra

mutual

/-- The two expressions are the same tree. -/
def Expr.same : Expr → Expr → Bool
  | .column t n, .column t' n' => t == t' && n == n'
  | .placeholder n, .placeholder n' => n == n'
  | .literal v, .literal v' => v == v'
  | .parameter t n, .parameter t' n' => t == t' && n == n'
  | .binary op l r, .binary op' l' r' => op == op' && l.same l' && r.same r'
  | .unary op e, .unary op' e' => op == op' && e.same e'
  | .call n args d, .call n' args' d' => n == n' && Expr.sameAll args args' && d == d'
  | .between e l h n, .between e' l' h' n' => e.same e' && l.same l' && h.same h' && n == n'
  | .inList e vs n, .inList e' vs' n' => e.same e' && Expr.sameAll vs vs' && n == n'
  | .cast e t, .cast e' t' => e.same e' && t == t'
  | .subquery q, .subquery q' => q.same q'
  | .existence q n, .existence q' n' => q.same q' && n == n'
  | .choice bs o, .choice bs' o' => Branch.sameAll bs bs' && Expr.sameOption o o'
  | .window n args ps ks f, .window n' args' ps' ks' f' =>
    n == n' && Expr.sameAll args args' && Expr.sameAll ps ps' && OrderKey.sameAll ks ks' && f == f'
  | .wildcard, .wildcard => true
  | _, _ => false
termination_by structural a => a

def Expr.sameAll : List Expr → List Expr → Bool
  | [], [] => true
  | e :: es, e' :: es' => e.same e' && Expr.sameAll es es'
  | _, _ => false
termination_by structural a => a

def Expr.sameOption : Option Expr → Option Expr → Bool
  | none, none => true
  | some e, some e' => e.same e'
  | _, _ => false
termination_by structural a => a

def Expr.sameRows : List (List Expr) → List (List Expr) → Bool
  | [], [] => true
  | row :: rows, row' :: rows' => Expr.sameAll row row' && Expr.sameRows rows rows'
  | _, _ => false
termination_by structural a => a

def Branch.sameAll : List Branch → List Branch → Bool
  | [], [] => true
  | ⟨c, r⟩ :: bs, ⟨c', r'⟩ :: bs' => c.same c' && r.same r' && Branch.sameAll bs bs'
  | _, _ => false
termination_by structural a => a

def OrderKey.sameAll : List OrderKey → List OrderKey → Bool
  | [], [] => true
  | ⟨e, d, n⟩ :: ks, ⟨e', d', n'⟩ :: ks' =>
    e.same e' && d == d' && n == n' && OrderKey.sameAll ks ks'
  | _, _ => false
termination_by structural a => a

def SelectItem.sameAll : List SelectItem → List SelectItem → Bool
  | [], [] => true
  | ⟨e, n⟩ :: is, ⟨e', n'⟩ :: is' => e.same e' && n == n' && SelectItem.sameAll is is'
  | _, _ => false
termination_by structural a => a

def Assignment.sameAll : List Assignment → List Assignment → Bool
  | [], [] => true
  | ⟨c, e⟩ :: as, ⟨c', e'⟩ :: as' => c == c' && e.same e' && Assignment.sameAll as as'
  | _, _ => false
termination_by structural a => a

def ConflictAction.same : ConflictAction → ConflictAction → Bool
  | .doNothing, .doNothing => true
  | .doUpdate as, .doUpdate as' => Assignment.sameAll as as'
  | _, _ => false
termination_by structural a => a

def JoinTarget.same : JoinTarget Query → JoinTarget Query → Bool
  | .table n, .table n' => n == n'
  | .lateral q n, .lateral q' n' => q.same q' && n == n'
  | _, _ => false
termination_by structural a => a

def Cte.sameAll : List (Cte Query) → List (Cte Query) → Bool
  | [], [] => true
  | ⟨n, cs, q⟩ :: ctes, ⟨n', cs', q'⟩ :: ctes' =>
    n == n' && cs == cs' && q.same q' && Cte.sameAll ctes ctes'
  | _, _ => false
termination_by structural a => a

def Stage.same : Stage → Stage → Bool
  | .filter e, .filter e' => e.same e'
  | .join t c k, .join t' c' k' => JoinTarget.same t t' && Expr.sameOption c c' && k == k'
  | .select s is, .select s' is' => s == s' && SelectItem.sameAll is is'
  | .orderBy ks, .orderBy ks' => OrderKey.sameAll ks ks'
  | .limit e, .limit e' => e.same e'
  | .offset e, .offset e' => e.same e'
  | .distinct, .distinct => true
  | .groupBy es, .groupBy es' => Expr.sameAll es es'
  | .having e, .having e' => e.same e'
  | .values rows, .values rows' => Expr.sameRows rows rows'
  | .insertSelect q, .insertSelect q' => q.same q'
  | .onConflict t a, .onConflict t' a' => t == t' && a.same a'
  | .set as, .set as' => Assignment.sameAll as as'
  | .updateWhere e, .updateWhere e' => e.same e'
  | .deleteWhere e, .deleteWhere e' => e.same e'
  | .returning s is, .returning s' is' => s == s' && SelectItem.sameAll is is'
  | _, _ => false
termination_by structural a => a

/-- The two queries are the same tree. -/
def Query.same : Query → Query → Bool
  | .table n, .table n' => n == n'
  | .insertInto t cs, .insertInto t' cs' => t == t' && cs == cs'
  | .update t, .update t' => t == t'
  | .deleteFrom t, .deleteFrom t' => t == t'
  | .setOperation op a l r, .setOperation op' a' l' r' =>
    op == op' && a == a' && l.same l' && r.same r'
  | .withCtes rec ctes m, .withCtes rec' ctes' m' =>
    rec == rec' && Cte.sameAll ctes ctes' && m.same m'
  | .step q s, .step q' s' => q.same q' && s.same s'
  | _, _ => false
termination_by structural a => a

end

mutual

/-- The test holds of equal expressions and of no others. -/
theorem Expr.same_iff : ∀ a b : Expr, a.same b = true ↔ a = b
  | .column .., b | .placeholder .., b | .literal .., b | .parameter .., b | .wildcard, b => by
    cases b <;> simp [Expr.same]
  | .binary _ l r, b => by
    cases b <;> simp [Expr.same, and_assoc, Expr.same_iff l, Expr.same_iff r]
  | .unary _ e, b => by cases b <;> simp [Expr.same, Expr.same_iff e]
  | .call _ args _, b => by cases b <;> simp [Expr.same, and_assoc, Expr.sameAll_iff args]
  | .between e l h _, b => by
    cases b <;> simp [Expr.same, and_assoc, Expr.same_iff e, Expr.same_iff l, Expr.same_iff h]
  | .inList e vs _, b => by
    cases b <;> simp [Expr.same, and_assoc, Expr.same_iff e, Expr.sameAll_iff vs]
  | .cast e _, b => by cases b <;> simp [Expr.same, Expr.same_iff e]
  | .subquery q, b => by cases b <;> simp [Expr.same, Query.same_iff q]
  | .existence q _, b => by cases b <;> simp [Expr.same, Query.same_iff q]
  | .choice bs o, b => by
    cases b <;> simp [Expr.same, Branch.sameAll_iff bs, Expr.sameOption_iff o]
  | .window _ args ps ks _, b => by
    cases b <;>
      simp [Expr.same, and_assoc, Expr.sameAll_iff args, Expr.sameAll_iff ps,
        OrderKey.sameAll_iff ks]
termination_by structural a => a

/-- Lists of expressions are found to be the same if they are equal. -/
theorem Expr.sameAll_iff : ∀ a b : List Expr, Expr.sameAll a b = true ↔ a = b
  | [], b => by cases b <;> simp [Expr.sameAll]
  | e :: es, b => by cases b <;> simp [Expr.sameAll, Expr.same_iff e, Expr.sameAll_iff es]
termination_by structural a => a

/-- Expressions that may be missing are found to be the same if they are equal. -/
theorem Expr.sameOption_iff : ∀ a b : Option Expr, Expr.sameOption a b = true ↔ a = b
  | none, b => by cases b <;> simp [Expr.sameOption]
  | some e, b => by cases b <;> simp [Expr.sameOption, Expr.same_iff e]
termination_by structural a => a

/-- Rows of expressions are found to be the same if they are equal. -/
theorem Expr.sameRows_iff : ∀ a b : List (List Expr), Expr.sameRows a b = true ↔ a = b
  | [], b => by cases b <;> simp [Expr.sameRows]
  | row :: rows, b => by
    cases b <;> simp [Expr.sameRows, Expr.sameAll_iff row, Expr.sameRows_iff rows]
termination_by structural a => a

/-- Branches are found to be the same if they are equal. -/
theorem Branch.sameAll_iff : ∀ a b : List Branch, Branch.sameAll a b = true ↔ a = b
  | [], b => by cases b <;> simp [Branch.sameAll]
  | ⟨c, r⟩ :: bs, [] => by simp [Branch.sameAll]
  | ⟨c, r⟩ :: bs, ⟨c', r'⟩ :: bs' => by
    simp [Branch.sameAll, and_assoc, Expr.same_iff c, Expr.same_iff r, Branch.sameAll_iff bs]
termination_by structural a => a

/-- Order keys are found to be the same if they are equal. -/
theorem OrderKey.sameAll_iff : ∀ a b : List OrderKey, OrderKey.sameAll a b = true ↔ a = b
  | [], b => by cases b <;> simp [OrderKey.sameAll]
  | ⟨e, d, n⟩ :: ks, [] => by simp [OrderKey.sameAll]
  | ⟨e, d, n⟩ :: ks, ⟨e', d', n'⟩ :: ks' => by
    simp [OrderKey.sameAll, and_assoc, Expr.same_iff e, OrderKey.sameAll_iff ks]
termination_by structural a => a

/-- Projected items are found to be the same if they are equal. -/
theorem SelectItem.sameAll_iff : ∀ a b : List SelectItem, SelectItem.sameAll a b = true ↔ a = b
  | [], b => by cases b <;> simp [SelectItem.sameAll]
  | ⟨e, n⟩ :: is, [] => by simp [SelectItem.sameAll]
  | ⟨e, n⟩ :: is, ⟨e', n'⟩ :: is' => by
    simp [SelectItem.sameAll, and_assoc, Expr.same_iff e, SelectItem.sameAll_iff is]
termination_by structural a => a

/-- Assignments are found to be the same if they are equal. -/
theorem Assignment.sameAll_iff : ∀ a b : List Assignment, Assignment.sameAll a b = true ↔ a = b
  | [], b => by cases b <;> simp [Assignment.sameAll]
  | ⟨c, e⟩ :: as, [] => by simp [Assignment.sameAll]
  | ⟨c, e⟩ :: as, ⟨c', e'⟩ :: as' => by
    simp [Assignment.sameAll, and_assoc, Expr.same_iff e, Assignment.sameAll_iff as]
termination_by structural a => a

/-- Actions upon a conflict are found to be the same if they are equal. -/
theorem ConflictAction.same_iff : ∀ a b : ConflictAction, a.same b = true ↔ a = b
  | .doNothing, b => by cases b <;> simp [ConflictAction.same]
  | .doUpdate as, b => by cases b <;> simp [ConflictAction.same, Assignment.sameAll_iff as]
termination_by structural a => a

/-- What is joined is found to be the same if it is equal. -/
theorem JoinTarget.same_iff : ∀ a b : JoinTarget Query, JoinTarget.same a b = true ↔ a = b
  | .table n, b => by cases b <;> simp [JoinTarget.same]
  | .lateral q n, b => by cases b <;> simp [JoinTarget.same, Query.same_iff q]
termination_by structural a => a

/-- Entries of a WITH are found to be the same if they are equal. -/
theorem Cte.sameAll_iff : ∀ a b : List (Cte Query), Cte.sameAll a b = true ↔ a = b
  | [], b => by cases b <;> simp [Cte.sameAll]
  | ⟨n, cs, q⟩ :: ctes, [] => by simp [Cte.sameAll]
  | ⟨n, cs, q⟩ :: ctes, ⟨n', cs', q'⟩ :: ctes' => by
    simp [Cte.sameAll, and_assoc, Query.same_iff q, Cte.sameAll_iff ctes]
termination_by structural a => a

/-- Stages are found to be the same if they are equal. -/
theorem Stage.same_iff : ∀ a b : Stage, a.same b = true ↔ a = b
  | .filter e, b | .limit e, b | .offset e, b | .having e, b | .updateWhere e, b
  | .deleteWhere e, b => by cases b <;> simp [Stage.same, Expr.same_iff e]
  | .join t c _, b => by
    cases b <;> simp [Stage.same, and_assoc, JoinTarget.same_iff t, Expr.sameOption_iff c]
  | .select _ is, b | .returning _ is, b => by
    cases b <;> simp [Stage.same, SelectItem.sameAll_iff is]
  | .orderBy ks, b => by cases b <;> simp [Stage.same, OrderKey.sameAll_iff ks]
  | .distinct, b => by cases b <;> simp [Stage.same]
  | .groupBy es, b => by cases b <;> simp [Stage.same, Expr.sameAll_iff es]
  | .values rows, b => by cases b <;> simp [Stage.same, Expr.sameRows_iff rows]
  | .insertSelect q, b => by cases b <;> simp [Stage.same, Query.same_iff q]
  | .onConflict _ a, b => by cases b <;> simp [Stage.same, ConflictAction.same_iff a]
  | .set as, b => by cases b <;> simp [Stage.same, Assignment.sameAll_iff as]
termination_by structural a => a

/-- The test holds of equal queries and of no others. -/
theorem Query.same_iff : ∀ a b : Query, a.same b = true ↔ a = b
  | .table _, b | .insertInto .., b | .update _, b | .deleteFrom _, b => by
    cases b <;> simp [Query.same]
  | .setOperation _ _ l r, b => by
    cases b <;> simp [Query.same, and_assoc, Query.same_iff l, Query.same_iff r]
  | .withCtes _ ctes m, b => by
    cases b <;> simp [Query.same, and_assoc, Cte.sameAll_iff ctes, Query.same_iff m]
  | .step q s, b => by cases b <;> simp [Query.same, Query.same_iff q, Stage.same_iff s]
termination_by structural a => a

end

instance : DecidableEq Expr := fun a b => decidable_of_iff _ (Expr.same_iff a b)
instance : DecidableEq Query := fun a b => decidable_of_iff _ (Query.same_iff a b)
instance : DecidableEq Stage := fun a b => decidable_of_iff _ (Stage.same_iff a b)

end SqlAlgebra
