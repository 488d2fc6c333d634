import Mathlib.Order.Compare
import SqlAlgebra.Proofs.Gluing
import SqlAlgebra.Proofs.Writing

/-!
# Placing nulls by a second key

Where a dialect cannot say where nulls go, a key that says so is written as two: a test for null,
and the key without a place for nulls. The text is that of the longer list, and the longer list puts
any two rows in the same order as the given keys, whatever the values are, however they compare and
wherever nulls go by default.
-/

namespace SqlAlgebra

/-- What rows are sorted by: the value of an expression, or whether it is null. -/
inductive SortTerm where
  | value (e : Expr)
  | isNull (e : Expr)

/-- The expression that a term is about. -/
def SortTerm.expr : SortTerm → Expr
  | value e | isNull e => e

/-- A key as it stands in the text of an ORDER BY. -/
structure SortKey where
  term : SortTerm
  direction : SortDirection
  nulls : Option NullsOrder

/-- The direction in which a test for null puts nulls in their place: false sorts before true. -/
def NullsOrder.testDirection : NullsOrder → SortDirection
  | first => .desc
  | last => .asc

/-- The keys that stand in the text for an order key. -/
def OrderKey.sortKeys (ordering : NullsOrdering) (key : OrderKey) : List SortKey :=
  match ordering, key.nulls with
  | .emulatedWithIsNull, some order =>
    [⟨.isNull key.expr, order.testDirection, none⟩, ⟨.value key.expr, key.direction, none⟩]
  | _, nulls => [⟨.value key.expr, key.direction, nulls⟩]

section Comparison

/-- Values of expressions at rows, null being no value, and where nulls go if a key does not say. -/
structure Sorting (ρ ν : Type) where
  value : Expr → ρ → Option ν
  defaultNulls : SortDirection → NullsOrder

namespace Sorting

/-- How two nullable values compare in a direction, nulls being placed as given. -/
def compareValues {ν : Type} [LinearOrder ν] (direction : SortDirection) (nulls : NullsOrder) :
    Option ν → Option ν → Ordering
  | none, none => .eq
  | none, some _ => match nulls with
    | .first => .lt
    | .last => .gt
  | some _, none => match nulls with
    | .first => .gt
    | .last => .lt
  | some x, some y => match direction with
    | .asc => compare x y
    | .desc => compare y x

variable {ρ ν : Type} [LinearOrder ν] (s : Sorting ρ ν)

/-- How a key of a query compares two rows. -/
def compareKey (key : OrderKey) (a b : ρ) : Ordering :=
  compareValues key.direction (key.nulls.getD (s.defaultNulls key.direction))
    (s.value key.expr a) (s.value key.expr b)

/-- How a key in the text compares two rows. A test for null has a truth value at every row. -/
def compareSortKey (key : SortKey) (a b : ρ) : Ordering :=
  let nulls := key.nulls.getD (s.defaultNulls key.direction)
  match key.term with
  | .value e => compareValues key.direction nulls (s.value e a) (s.value e b)
  | .isNull e =>
    compareValues key.direction nulls (some (s.value e a).isNone) (some (s.value e b).isNone)

/-- The first key that tells two rows apart decides which of them comes first. -/
def lexicographic {κ : Type} (compareBy : κ → ρ → ρ → Ordering) (keys : List κ) (a b : ρ) :
    Ordering :=
  keys.foldr (fun key rest => (compareBy key a b).then rest) .eq

/-- Further keys decide only where the first ones do not. -/
theorem lexicographic_append {κ : Type} (compareBy : κ → ρ → ρ → Ordering) (keys keys' : List κ)
    (a b : ρ) : lexicographic compareBy (keys ++ keys') a b =
      (lexicographic compareBy keys a b).then (lexicographic compareBy keys' a b) := by
  induction keys with
  | nil => rfl
  | cons key keys ih =>
    have hcons (rest : List κ) : lexicographic compareBy (key :: rest) a b =
        (compareBy key a b).then (lexicographic compareBy rest a b) := rfl
    rw [List.cons_append, hcons, hcons, ih, Ordering.then_assoc]

/-- Unless one is null and the other is not, the place of nulls does not matter. -/
theorem compareValues_nulls {x y : Option ν} (h : x.isNone = y.isNone) (direction : SortDirection)
    (nulls nulls' : NullsOrder) :
    compareValues direction nulls x y = compareValues direction nulls' x y := by
  cases x with
  | none =>
    cases y with
    | none => rfl
    | some y => simp at h
  | some x =>
    cases y with
    | none => simp at h
    | some y => rfl

/-- If one is null and the other is not, neither the direction nor what else there is to compare
matters. -/
theorem compareValues_then {x y : Option ν} (h : x.isNone ≠ y.isNone) (nulls : NullsOrder)
    (direction direction' : SortDirection) (rest : Ordering) :
    (compareValues direction nulls x y).then rest = compareValues direction' nulls x y := by
  cases x with
  | none =>
    cases y with
    | none => exact absurd rfl h
    | some y => cases nulls <;> rfl
  | some x =>
    cases y with
    | none => cases nulls <;> rfl
    | some y => exact absurd rfl h

/-- A test for null puts a null where it belongs and tells nothing else apart. -/
theorem compareSortKey_isNull (e : Expr) (order : NullsOrder) (a b : ρ) :
    s.compareSortKey ⟨.isNull e, order.testDirection, none⟩ a b =
      if (s.value e a).isNone = (s.value e b).isNone then .eq
      else compareValues .asc order (s.value e a) (s.value e b) := by
  have htrue : compare true false = .gt := rfl
  have hfalse : compare false true = .lt := rfl
  cases hx : s.value e a <;> cases hy : s.value e b <;> cases order <;>
    simp [compareSortKey, compareValues, NullsOrder.testDirection, hx, hy, htrue, hfalse]

/-- Two rows that the test for null does not tell apart are compared by the key itself, in which the
place of nulls does not matter any more. -/
theorem lexicographic_sortKeys (ordering : NullsOrdering) (key : OrderKey) (a b : ρ) :
    lexicographic s.compareSortKey (key.sortKeys ordering) a b = s.compareKey key a b := by
  obtain ⟨e, direction, nulls⟩ := key
  have hplain : lexicographic s.compareSortKey [⟨.value e, direction, nulls⟩] a b =
      s.compareKey ⟨e, direction, nulls⟩ a b := Ordering.then_eq
  cases ordering with
  | native => exact hplain
  | emulatedWithIsNull =>
    cases nulls with
    | none => exact hplain
    | some order =>
      have hpair : lexicographic s.compareSortKey
          (OrderKey.sortKeys .emulatedWithIsNull ⟨e, direction, some order⟩) a b =
          (s.compareSortKey ⟨.isNull e, order.testDirection, none⟩ a b).then
            (s.compareKey ⟨e, direction, none⟩ a b) :=
        congrArg (Ordering.then _) Ordering.then_eq
      rw [hpair, compareSortKey_isNull]
      by_cases h : (s.value e a).isNone = (s.value e b).isNone
      · rw [if_pos h, Ordering.eq_then]
        exact compareValues_nulls h direction _ order
      · rw [if_neg h]
        exact compareValues_then h order .asc direction _

/-- The keys in the text compare rows as the keys of the query do. -/
theorem lexicographic_flatMap_sortKeys (ordering : NullsOrdering) (keys : List OrderKey)
    (a b : ρ) : lexicographic s.compareSortKey (keys.flatMap (OrderKey.sortKeys ordering)) a b =
      lexicographic s.compareKey keys a b := by
  induction keys with
  | nil => rfl
  | cons key keys ih =>
    rw [List.flatMap_cons, lexicographic_append, lexicographic_sortKeys, ih]
    rfl

end Sorting

end Comparison

section Writing

open Token

/-- A term as SQL writes it, given what its expression is written as. -/
def SortTerm.tokens (body : List Token) : SortTerm → List Token
  | value _ => body
  | isNull _ => text "(" :: body ++ [text " IS NULL)"]

/-- The word that follows a key for its direction. Ascending is the direction without a word. -/
def SortDirection.tokens : SortDirection → List Token
  | asc => []
  | desc => [text " DESC"]

/-- The words that follow a key for the place of nulls, if it has one. -/
def NullsOrder.tokens : Option NullsOrder → List Token
  | none => []
  | some first => [text " NULLS FIRST"]
  | some last => [text " NULLS LAST"]

/-- A key as SQL writes it, given what its expression is written as. -/
def SortKey.tokens (body : List Token) (key : SortKey) : List Token :=
  key.term.tokens body ++ key.direction.tokens ++ NullsOrder.tokens key.nulls

/-- A key as SQL writes it: its term, the direction unless it is ascending, and the place of nulls
if there is one. -/
def SortKey.render (d : Dialect) (nested : Query → Rendered) (key : SortKey) : Rendered := do
  return key.tokens (← key.term.expr.render d nested)

variable {d : Dialect} {nested : Query → Rendered}

/-- At least one key stands in the text for an order key. -/
theorem OrderKey.sortKeys_ne_nil (ordering : NullsOrdering) (key : OrderKey) :
    key.sortKeys ordering ≠ [] := by
  unfold OrderKey.sortKeys
  split <;> simp

/-- The keys for an order key are written from what its expression is written as. -/
theorem OrderKey.mapM_render_sortKeys (ordering : NullsOrdering) (key : OrderKey) :
    (key.sortKeys ordering).mapM (SortKey.render d nested) = do
      return (key.sortKeys ordering).map (SortKey.tokens (← key.expr.render d nested)) := by
  unfold OrderKey.sortKeys
  cases hbody : key.expr.render d nested with
  | error e =>
    split <;> simp [SortKey.render, SortTerm.expr, hbody]
  | ok body =>
    split <;> simp [SortKey.render, SortTerm.expr, hbody]

/-- A key is written as SQL writes it where nulls can be placed, and where they need not be. -/
theorem NullsOrdering.renderKey_eq_tokens {ordering : NullsOrdering} {nulls : Option NullsOrder}
    (h : ordering = native ∨ nulls = none) (body : List Token) (e : Expr)
    (direction : SortDirection) : ordering.renderKey body direction nulls =
      SortKey.tokens body ⟨.value e, direction, nulls⟩ := by
  unfold NullsOrdering.renderKey
  cases nulls with
  | none =>
    cases direction <;>
      simp [SortKey.tokens, SortTerm.tokens, SortDirection.tokens, NullsOrder.tokens]
  | some order =>
    obtain rfl := h.resolve_right (Option.some_ne_none order)
    cases direction <;> cases order <;>
      simp [SortKey.tokens, SortTerm.tokens, SortDirection.tokens, NullsOrder.tokens,
        NullsOrder.keyword]

/-- A test for null is written in brackets. They are pieces of their own in the one text, and not in
the other. -/
theorem UnaryOperator.sameText_isNull (d : Dialect) (body : List Token) (e : Expr) :
    SameText d (isNull.render body) (SortTerm.tokens body (.isNull e)) := by
  have hopen : SameText d [leftParen] [text "("] := sameText_piece rfl
  have hclose : SameText d [rightParen] [text ")"] := sameText_piece rfl
  have hwords : SameText d [text " IS NULL", rightParen] [text " IS NULL)"] :=
    ((SameText.refl d [text " IS NULL"]).append hclose).trans
      (sameText_glue d " IS NULL" ")").symm
  have hall := (hopen.append (.refl d body)).append hwords
  simpa [UnaryOperator.render, parens, SortTerm.tokens] using hall

/-- An order key is written as the keys that stand for it. -/
theorem NullsOrdering.sameText_renderKey (d : Dialect) (ordering : NullsOrdering)
    (body : List Token) (key : OrderKey) :
    SameText d (commas [ordering.renderKey body key.direction key.nulls])
      (commas ((key.sortKeys ordering).map (SortKey.tokens body))) := by
  obtain ⟨e, direction, nulls⟩ := key
  cases ordering with
  | native =>
    rw [renderKey_eq_tokens (.inl rfl) body e]
    exact .refl d _
  | emulatedWithIsNull =>
    cases nulls with
    | none =>
      rw [renderKey_eq_tokens (.inr rfl) body e]
      exact .refl d _
    | some order =>
      have hkeys : ((OrderKey.mk e direction (some order)).sortKeys .emulatedWithIsNull).map
          (SortKey.tokens body) =
          [SortKey.tokens body ⟨.isNull e, order.testDirection, none⟩,
            SortKey.tokens body ⟨.value e, direction, none⟩] := rfl
      rw [hkeys, commas_pair, commas, List.intercalate_singleton,
        ← renderKey_eq_tokens (.inl rfl) body e direction]
      have htest := UnaryOperator.sameText_isNull d body e
      have hkey := SameText.refl d (native.renderKey body direction none)
      cases order with
      | last =>
        have hall := (htest.append (.refl d [text ", "])).append hkey
        simpa [renderKey, SortKey.tokens, NullsOrder.testDirection, SortDirection.tokens,
          NullsOrder.tokens] using hall
      | first =>
        -- the words before the second key are one text here and two there
        have hglue : SameText d [text " DESC, "] [text " DESC", text ", "] :=
          sameText_glue d " DESC" ", "
        have hall := (htest.append hglue).append hkey
        simpa [renderKey, SortKey.tokens, NullsOrder.testDirection, SortDirection.tokens,
          NullsOrder.tokens] using hall

/-- Order keys are written as all the keys that stand for them. -/
theorem NullsOrdering.sameText_commas (d : Dialect) (ordering : NullsOrdering)
    (written : List (OrderKey × List Token)) :
    SameText d (commas (written.map fun w => ordering.renderKey w.2 w.1.direction w.1.nulls))
      (commas (written.flatMap fun w => (w.1.sortKeys ordering).map (SortKey.tokens w.2))) := by
  induction written with
  | nil => exact .refl d _
  | cons w rest ih =>
    have hfirst := ordering.sameText_renderKey d w.2 w.1
    have hne (w : OrderKey × List Token) :
        (w.1.sortKeys ordering).map (SortKey.tokens w.2) ≠ [] := by
      simpa using w.1.sortKeys_ne_nil ordering
    cases rest with
    | nil => simpa using hfirst
    | cons w' rest =>
      rw [List.flatMap_cons]
      refine SameText.commas_append (List.cons_ne_nil _ []) (hne w) (by simp) ?_ hfirst ih
      rw [List.flatMap_cons]
      exact List.append_ne_nil_of_left_ne_nil (hne w') _

/-- Both lists of keys are written from what the expressions of the order keys are written as. -/
theorem OrderKey.exists_written (d : Dialect) (nested : Query → Rendered) (keys : List OrderKey) :
    ∃ written : Except CompileError (List (OrderKey × List Token)),
      OrderKey.renderAll d nested keys = (do
        return (← written).map fun w => d.nulls.renderKey w.2 w.1.direction w.1.nulls) ∧
      (keys.flatMap (OrderKey.sortKeys d.nulls)).mapM (SortKey.render d nested) = do
        return (← written).flatMap fun w => (w.1.sortKeys d.nulls).map (SortKey.tokens w.2) := by
  induction keys with
  | nil => exact ⟨.ok [], rfl, rfl⟩
  | cons key keys ih =>
    obtain ⟨written, hkeys, hsortKeys⟩ := ih
    obtain ⟨e, direction, nulls⟩ := key
    refine ⟨do
      let body ← e.render d nested
      return (⟨e, direction, nulls⟩, body) :: (← written), ?_, ?_⟩
    · rw [OrderKey.renderAll, hkeys]
      cases e.render d nested <;> cases written <;> rfl
    · rw [List.flatMap_cons, List.mapM_append, OrderKey.mapM_render_sortKeys, hsortKeys]
      cases e.render d nested <;> cases written <;> rfl

end Writing

/-- The plan of a text in which a list stands between other tokens. -/
def Plan.around (d : Dialect) (before after : List Token) (parts : List (List Token)) : Plan :=
  Plan.ofTokens d (before ++ Token.commas parts ++ after)

/-- The text of an ORDER BY is that of the keys which stand for the given ones, the keys with tests
for null where nulls cannot be placed otherwise, and these compare any two rows as the given ones
do. -/
theorem lexicographic_written (d : Dialect) (nested : Query → Rendered) (keys : List OrderKey) :
    (∀ before after : List Token,
      (OrderKey.renderAll d nested keys).map (Plan.around d before after) =
        ((keys.flatMap (OrderKey.sortKeys d.nulls)).mapM (SortKey.render d nested)).map
          (Plan.around d before after)) ∧
    ∀ {ρ ν : Type} [LinearOrder ν] (s : Sorting ρ ν) (a b : ρ),
      Sorting.lexicographic s.compareSortKey (keys.flatMap (OrderKey.sortKeys d.nulls)) a b =
        Sorting.lexicographic s.compareKey keys a b := by
  constructor
  · intro before after
    obtain ⟨written, hkeys, hsortKeys⟩ := OrderKey.exists_written d nested keys
    rw [hkeys, hsortKeys]
    cases written with
    | error e => rfl
    | ok written => exact congrArg Except.ok (d.nulls.sameText_commas d written before after)
  · intro ρ ν _ s a b
    exact s.lexicographic_flatMap_sortKeys d.nulls keys a b

end SqlAlgebra
