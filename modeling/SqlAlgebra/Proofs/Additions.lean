import SqlAlgebra.Proofs.Outcome
import SqlAlgebra.Statement.Lowering

/-!
# What a stage adds to a SELECT

Nine kinds of stages act on rows. Each of them resolves its expressions and then adds one clause to
a SELECT over its source. The two halves are separated here, so that a fact about all of these
stages is one fact about adding a clause to a SELECT that accepts it.
-/

namespace SqlAlgebra

/-- A clause that a stage adds to a SELECT. -/
inductive Addition where
  | join (added : Join)
  | filter (predicate : Expr)
  | groupBy (keys : List Expr)
  | having (predicate : Expr)
  | select (items : List SelectItem)
  | distinct
  | orderBy (keys : List OrderKey)
  | offset (count : Expr)
  | limit (count : Expr)

namespace Addition

/-- The clause that has to be accepted. -/
def clause : Addition → Clause
  | join _ => .join
  | filter _ => .filter
  | groupBy _ => .groupBy
  | having _ => .having
  | select _ => .select
  | distinct => .distinct
  | orderBy _ => .orderBy
  | offset _ => .offset
  | limit _ => .limit

end Addition

/-- The SELECT with a clause added. -/
def Block.add (b : Block) : Addition → Block
  | .join added => { b with joins := b.joins ++ [added] }
  | .filter predicate => { b with filters := b.filters ++ [predicate] }
  | .groupBy keys => { b with groupBy := keys }
  | .having predicate => { b with having := b.having ++ [predicate] }
  | .select items => { b with projection := some items }
  | .distinct => { b with distinct := true }
  | .orderBy keys => { b with orderBy := keys }
  | .offset count => { b with offset := some count }
  | .limit count => { b with limit := some count }

namespace QueryKind

/-- The stage acts on rows, whatever they come from. -/
def isRowStage : QueryKind → Bool
  | filter | join | select | orderBy | limit | offset | distinct | groupBy | having => true
  | _ => false

end QueryKind

namespace Stage

/-- What a stage on rows adds, its expressions being resolved in `scope`. Grouping by nothing adds
nothing, and neither does a stage of another kind. -/
def addition (d : Dialect) (scope : Scope) : Stage → Except CompileError (Option Addition)
  | filter predicate => do return some (.filter (← predicate.resolve scope))
  | join target condition kind => do
    kind.check d condition
    let condition ← scope.resolveOption condition
    let target ← JoinTarget.lower d target
    return some (.join ⟨kind, target, condition⟩)
  | select _ items => do
    if items.isEmpty then .error (.structural .emptySelect)
    return some (.select (← scope.resolveItems items))
  | orderBy keys => do
    if keys.isEmpty then .error (.structural .emptyOrderBy)
    return some (.orderBy (← scope.resolveKeys keys))
  | limit count => do return some (.limit (← count.resolve scope))
  | offset count => do return some (.offset (← count.resolve scope))
  | distinct => return some .distinct
  | groupBy [] => return none
  | groupBy keys => do return some (.groupBy (← scope.resolveAll keys))
  | having predicate => do return some (.having (← predicate.resolve scope))
  | _ => return none

end Stage

namespace Block

/-- A SELECT that does not group has no keys for it and no conditions on groups. -/
@[simp] theorem grouped_eq_false {b : Block} :
    b.grouped = false ↔ b.groupBy = [] ∧ b.having = [] := by
  simp [grouped]

/-- A SELECT that does not project has neither items nor a DISTINCT. -/
@[simp] theorem projected_eq_false {b : Block} :
    b.projected = false ↔ b.projection = none ∧ b.distinct = false := by
  simp [projected]

/-- A SELECT that is not paged has no order and no bounds. -/
@[simp] theorem paged_eq_false {b : Block} :
    b.paged = false ↔ b.orderBy = [] ∧ b.limit = none ∧ b.offset = none := by
  simp [paged, and_assoc]

/-- Adding the clause takes nothing away, because what it sets is not there yet. -/
def Lacks (b : Block) : Addition → Prop
  | .join _ | .filter _ | .having _ | .distinct => True
  | .groupBy _ => b.groupBy = []
  | .select _ => b.projection = none
  | .orderBy _ => b.orderBy = []
  | .offset _ => b.offset = none
  | .limit _ => b.limit = none

/-- A SELECT that accepts a clause lacks what the clause fills. -/
theorem lacks_of_accepts {b : Block} {a : Addition} (h : b.accepts a.clause = true) :
    b.Lacks a := by
  cases a with
  | join | filter | having | distinct => trivial
  | groupBy | select | orderBy | offset | limit =>
    simp_all [Addition.clause, accepts, Lacks]

end Block

/-- A new SELECT takes any clause. -/
theorem Block.accepts_ofOrigin (origin : Origin) (clause : Clause) :
    (Block.ofOrigin origin).accepts clause = true := by
  cases clause <;> rfl

namespace Statement

/-- A SELECT over the statement that accepts the clause: the statement itself if it does, else a new
one that reads from it under a name. -/
def blockFor (clause : Clause) (name : String) : Statement → Block
  | select block =>
    if block.accepts clause then block else .ofOrigin (.derived (.select block) name)
  | s => .ofOrigin (.derived s name)

/-- The SELECT that is made ready for a clause accepts it. -/
theorem accepts_blockFor (clause : Clause) (name : String) (s : Statement) :
    (s.blockFor clause name).accepts clause = true := by
  cases s with
  | select block =>
    by_cases h : block.accepts clause = true
    · rw [blockFor, if_pos h]
      exact h
    · rw [blockFor, if_neg h]
      exact Block.accepts_ofOrigin _ _
  | _ => exact Block.accepts_ofOrigin _ _

/-- The statement with what a stage adds. -/
def extend (name : String) (s : Statement) : Option Addition → Statement
  | none => s
  | some a => .select ((s.blockFor a.clause name).add a)

end Statement

/-- A SELECT over the source is one over its rows. -/
theorem Source.block_eq_rows (source : Source) (stage : QueryKind) (clause : Clause) :
    source.block stage clause = do
      return (← source.rows stage).blockFor clause source.derivedName := by
  unfold Source.block
  congr 1
  funext s
  cases s with
  | select block =>
    by_cases h : block.accepts clause = true
    · simp only [Statement.blockFor, if_pos h]
    · simp only [Statement.blockFor, if_neg h]
  | _ => rfl

/-- The source gives its statement for rows unless that modifies data. -/
theorem Source.rows_eq_ok {source : Source} {stage : QueryKind} {s : Statement} :
    source.rows stage = .ok s ↔ source.statement = .ok s ∧ s.isModification = false := by
  unfold Source.rows
  rw [bind_eq_ok]
  constructor
  · rintro ⟨s', hs', h⟩
    cases hm : s'.isModification with
    | true => simp [hm] at h
    | false =>
      simp only [hm, Bool.false_eq_true, if_false, Except.ok.injEq] at h
      subst h
      exact ⟨hs', hm⟩
  · rintro ⟨hs, hm⟩
    exact ⟨s, hs, by simp [hm]⟩

/-- A stage on rows finds out what it adds, and adds it to the rows of its source. -/
theorem Stage.lower_rowStage (d : Dialect) (scope : Scope) (source : Source) {stage : Stage}
    (hrow : stage.kind.isRowStage = true) :
    stage.lower d scope source = do
      let a ← stage.addition d scope
      return (← source.rows stage.kind).extend source.derivedName a := by
  cases stage with
  | groupBy keys | select _ keys | orderBy keys =>
    cases keys <;>
      simp [Stage.lower, addition, Source.block_eq_rows, Statement.extend, Stage.kind,
        Addition.clause, Block.add]
  | values | insertSelect | onConflict | set | updateWhere | deleteWhere | returning =>
    cases hrow
  | _ =>
    simp [Stage.lower, addition, Source.block_eq_rows, Statement.extend, Stage.kind,
      Addition.clause, Block.add]

namespace Stage

/-- The stage reads the rows of its source. Grouping by nothing leaves the source as it is. -/
def readsRows : Stage → Bool
  | groupBy [] => false
  | stage => stage.kind.isRowStage

/-- What there is to know when a stage has found out what it adds. -/
inductive Adds (d : Dialect) (scope : Scope) : Stage → Option Addition → Prop where
  | nothing {stage : Stage} (hreads : stage.readsRows = false) : Adds d scope stage none
  | filter {e e' : Expr} (he : e.resolve scope = .ok e') :
    Adds d scope (.filter e) (some (.filter e'))
  | join {target : JoinTarget Query} {target' : JoinTarget Statement}
      {condition condition' : Option Expr} {kind : JoinKind}
      (hcondition : scope.resolveOption condition = .ok condition')
      (htarget : JoinTarget.lower d target = .ok target') :
    Adds d scope (.join target condition kind) (some (.join ⟨kind, target', condition'⟩))
  | groupBy {key : Expr} {keys keys' : List Expr}
      (hkeys : scope.resolveAll (key :: keys) = .ok keys') :
    Adds d scope (.groupBy (key :: keys)) (some (.groupBy keys'))
  | having {e e' : Expr} (he : e.resolve scope = .ok e') :
    Adds d scope (.having e) (some (.having e'))
  | select {shape : Shape} {items items' : List SelectItem}
      (hitems : scope.resolveItems items = .ok items') :
    Adds d scope (.select shape items) (some (.select items'))
  | distinct : Adds d scope .distinct (some .distinct)
  | orderBy {key : OrderKey} {keys keys' : List OrderKey}
      (hkeys : scope.resolveKeys (key :: keys) = .ok keys') :
    Adds d scope (.orderBy (key :: keys)) (some (.orderBy keys'))
  | offset {e e' : Expr} (he : e.resolve scope = .ok e') :
    Adds d scope (.offset e) (some (.offset e'))
  | limit {e e' : Expr} (he : e.resolve scope = .ok e') :
    Adds d scope (.limit e) (some (.limit e'))

/-- What a stage is found to add is what it adds by its rule. -/
theorem adds_of_addition {d : Dialect} {scope : Scope} {stage : Stage} {a : Option Addition}
    (h : stage.addition d scope = .ok a) : stage.Adds d scope a := by
  cases stage with
  | filter e =>
    obtain ⟨e', he, h⟩ := bind_eq_ok.mp h
    cases h
    exact .filter he
  | having e =>
    obtain ⟨e', he, h⟩ := bind_eq_ok.mp h
    cases h
    exact .having he
  | limit e =>
    obtain ⟨e', he, h⟩ := bind_eq_ok.mp h
    cases h
    exact .limit he
  | offset e =>
    obtain ⟨e', he, h⟩ := bind_eq_ok.mp h
    cases h
    exact .offset he
  | join target condition kind =>
    simp only [addition, bind_eq_ok, pure_eq_ok] at h
    obtain ⟨-, -, condition', hcondition, target', htarget, rfl⟩ := h
    exact .join hcondition htarget
  | select shape items =>
    cases items with
    | nil => cases h
    | cons item items =>
      obtain ⟨items', hitems, h⟩ := bind_eq_ok.mp h
      cases h
      exact .select hitems
  | orderBy keys =>
    cases keys with
    | nil => cases h
    | cons key keys =>
      obtain ⟨keys', hkeys, h⟩ := bind_eq_ok.mp h
      cases h
      exact .orderBy hkeys
  | groupBy keys =>
    cases keys with
    | nil =>
      cases h
      exact .nothing rfl
    | cons key keys =>
      obtain ⟨keys', hkeys, h⟩ := bind_eq_ok.mp h
      cases h
      exact .groupBy hkeys
  | distinct =>
    cases h
    exact .distinct
  | _ =>
    cases h
    exact .nothing rfl

/-- A stage adds a clause exactly if it reads rows. -/
theorem Adds.isSome_eq {d : Dialect} {scope : Scope} {stage : Stage} {a : Option Addition}
    (h : stage.Adds d scope a) : a.isSome = stage.readsRows := by
  cases h with
  | nothing hreads => exact hreads.symm
  | _ => rfl

end Stage

end SqlAlgebra
