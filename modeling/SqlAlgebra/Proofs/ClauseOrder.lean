import Mathlib.Logic.Relation
import SqlAlgebra.Proofs.Forms
import SqlAlgebra.Query.Build

/-!
# Stages become clauses in order

A statement can be read as the list of its clauses, in the sequence in which SQL evaluates them and
innermost SELECT first. Lowering a pipeline gives a statement whose clauses are the stages of the
pipeline: none is lost, doubled or overwritten, and the only change of order is that a projection
comes to stand before the order and paging clauses that were right before it.
-/

namespace SqlAlgebra

/-- What the clauses of a statement start from. -/
inductive Root where
  | table (name : String)
  | rows (statement : Statement)

/-- An element of the list of clauses. -/
inductive Part where
  | root (origin : Root)
  | added (a : Addition)

/-- The clauses of a SELECT itself, in the sequence of their evaluation. -/
def Block.additions (b : Block) : List Addition :=
  b.joins.map .join ++ b.filters.map .filter ++
    (if b.groupBy.isEmpty then [] else [.groupBy b.groupBy]) ++ b.having.map .having ++
    b.projection.toList.map .select ++ (if b.distinct then [.distinct] else []) ++
    (if b.orderBy.isEmpty then [] else [.orderBy b.orderBy]) ++
    b.offset.toList.map .offset ++ b.limit.toList.map .limit

mutual

/-- The clauses of a statement. What is not a SELECT counts as a whole. -/
def Statement.clauses : Statement → List Part
  | .select block => block.clauses
  | .setOperation op all left right => [.root (.rows (.setOperation op all left right))]
  | .withCtes recursive ctes body => [.root (.rows (.withCtes recursive ctes body))]
  | .insert i => [.root (.rows (.insert i))]
  | .update u => [.root (.rows (.update u))]
  | .delete x => [.root (.rows (.delete x))]
termination_by structural s => s

/-- The clauses of a SELECT, after those of what it reads from. -/
def Block.clauses : Block → List Part
  | ⟨origin, joins, filters, groupBy, having, projection, distinct, orderBy, limit, offset⟩ =>
    origin.clauses ++ (Block.additions
      ⟨origin, joins, filters, groupBy, having, projection, distinct, orderBy, limit,
        offset⟩).map .added
termination_by structural b => b

def Origin.clauses : Origin → List Part
  | .table name => [.root (.table name)]
  | .derived body _ => body.clauses
termination_by structural origin => origin

end

/-- The root and the stages of a query from the bottom up, with their expressions resolved. A stage
that groups by nothing is left out. -/
def Query.chain (d : Dialect) : Query → Except CompileError (List Part)
  | .table name => .ok [.root (.table name)]
  | .step source stage => do
    let parts ← source.chain d
    let a ← stage.addition d (Query.step source stage).scope
    return parts ++ a.toList.map .added
  | root => do return [.root (.rows (← root.lower d))]

namespace Addition

/-- The clause orders or counts rows and leaves each of them as it is. -/
def isPaging : Addition → Bool
  | orderBy _ | offset _ | limit _ => true
  | _ => false

/-- The clause is not empty. -/
def Nonempty : Addition → Prop
  | groupBy keys => keys ≠ []
  | orderBy keys => keys ≠ []
  | _ => True

end Addition

/-- The clauses of a SELECT are those of what it reads from and then what was added to it. -/
theorem Block.clauses_eq (b : Block) :
    b.clauses = b.origin.clauses ++ b.additions.map .added := by
  cases b
  rfl

/-- A projection moves to the left past the order or paging clause right before it. -/
inductive SelectMoves : List Part → List Part → Prop where
  | past (before after : List Part) (a : Addition) (items : List SelectItem)
      (hpaging : a.isPaging = true) :
    SelectMoves (before ++ .added a :: .added (.select items) :: after)
      (before ++ .added (.select items) :: .added a :: after)

open Relation

/-- Moves within a list are moves within a longer one. -/
theorem SelectMoves.append {parts parts' : List Part} (h : ReflTransGen SelectMoves parts parts')
    (rest : List Part) : ReflTransGen SelectMoves (parts ++ rest) (parts' ++ rest) := by
  refine ReflTransGen.lift (· ++ rest) ?_ _ _ h
  rintro _ _ ⟨before, after, a, items, hpaging⟩
  have hmove := SelectMoves.past before (after ++ rest) a items hpaging
  change SelectMoves (_ ++ rest) (_ ++ rest)
  simpa using hmove

/-- A projection moves past any number of order and paging clauses. -/
theorem SelectMoves.past_all {paging : List Addition} (hpaging : ∀ a ∈ paging, a.isPaging = true)
    (before : List Part) (items : List SelectItem) :
    ReflTransGen SelectMoves (before ++ paging.map .added ++ [.added (.select items)])
      (before ++ .added (.select items) :: paging.map .added) := by
  induction paging generalizing before with
  | nil =>
    rw [List.map_nil, List.append_nil]
  | cons a paging ih =>
    have hrest := ih (fun x hx => hpaging x (List.mem_cons_of_mem a hx)) (before ++ [.added a])
    have hmove := SelectMoves.past before (paging.map .added) a items (hpaging a List.mem_cons_self)
    rw [List.append_assoc before] at hrest
    simp only [List.map_cons, List.append_assoc, List.cons_append, List.nil_append] at hrest ⊢
    exact hrest.tail hmove

/-- A SELECT that accepts a projection holds it before order and paging once it is added. -/
theorem Block.additions_add_select {b : Block} (haccepts : b.accepts .select = true)
    (items : List SelectItem) :
    ∃ before paging, (∀ x ∈ paging, Addition.isPaging x = true) ∧
      b.additions = before ++ paging ∧
      (b.add (.select items)).additions = before ++ .select items :: paging := by
  obtain ⟨hprojection, hdistinct⟩ : b.projection = none ∧ b.distinct = false := by
    simpa [Block.accepts] using haccepts
  refine ⟨b.joins.map .join ++ b.filters.map .filter ++
    (if b.groupBy.isEmpty then [] else [.groupBy b.groupBy]) ++ b.having.map .having,
    (if b.orderBy.isEmpty then [] else [.orderBy b.orderBy]) ++
      b.offset.toList.map .offset ++ b.limit.toList.map .limit, ?_, ?_, ?_⟩
  · intro x hx
    simp only [List.mem_append, List.mem_map, List.mem_ite_nil_left, List.mem_singleton] at hx
    rcases hx with (⟨-, rfl⟩ | ⟨e, -, rfl⟩) | ⟨e, -, rfl⟩ <;> rfl
  · simp [Block.additions, hprojection, hdistinct]
  · simp [Block.additions, Block.add, hdistinct]

/-- A SELECT that accepts another clause holds it at the end once it is added, because everything
that would come after it is missing. -/
theorem Block.additions_add {b : Block} {a : Addition} (haccepts : b.accepts a.clause = true)
    (hne : a.Nonempty) (hselect : a.clause ≠ .select) :
    (b.add a).additions = b.additions ++ [a] := by
  cases a with
  | select items => exact absurd rfl hselect
  | join added | filter predicate | having predicate | distinct | offset count =>
    simp [Addition.clause, Block.accepts] at haccepts
    simp [Block.additions, Block.add, haccepts]
  | groupBy keys | orderBy keys =>
    simp [Addition.clause, Block.accepts] at haccepts
    have hkeys : keys ≠ [] := hne
    simp [Block.additions, Block.add, haccepts, hkeys]
  | limit count =>
    have hlimit : b.limit = none := by simpa [Addition.clause, Block.accepts] using haccepts
    simp only [Block.additions, Block.add, hlimit, Option.toList_none, Option.toList_some,
      List.map_nil, List.map_cons, List.append_nil]
    rfl

/-- Adding a clause to a SELECT that accepts it puts it behind the others, up to moves of a
projection. -/
theorem Block.clauses_add {b : Block} {a : Addition} (haccepts : b.accepts a.clause = true)
    (hne : a.Nonempty) :
    ReflTransGen SelectMoves (b.clauses ++ [.added a]) (b.add a).clauses := by
  have horigin : (b.add a).origin = b.origin := by cases a <;> rfl
  by_cases hselect : a.clause = .select
  · obtain ⟨items, rfl⟩ : ∃ items, a = .select items := by
      cases a <;> simp_all [Addition.clause]
    obtain ⟨before, paging, hpaging, hb, hadd⟩ := Block.additions_add_select haccepts items
    rw [Block.clauses_eq, Block.clauses_eq, horigin, hb, hadd]
    have hmoves := SelectMoves.past_all hpaging (b.origin.clauses ++ before.map .added) items
    simpa using hmoves
  · rw [Block.clauses_eq, Block.clauses_eq, horigin, Block.additions_add haccepts hne hselect]
    simp only [List.map_append, List.map_cons, List.map_nil, List.append_assoc]
    exact .refl

/-- The SELECT opened over a statement has the clauses of the statement. -/
theorem Statement.clauses_blockFor (clause : Clause) (name : String) (s : Statement) :
    (s.blockFor clause name).clauses = s.clauses := by
  cases s with
  | select block =>
    by_cases h : block.accepts clause = true
    · rw [Statement.blockFor, if_pos h]
      rfl
    · rw [Statement.blockFor, if_neg h]
      exact List.append_nil _
  | _ => exact List.append_nil _

/-- Only clauses that hold something are added. -/
theorem Stage.nonempty_addition {d : Dialect} {scope : Scope} {stage : Stage} {a : Addition}
    (h : stage.addition d scope = .ok (some a)) : a.Nonempty := by
  cases Stage.adds_of_addition h with
  | groupBy hkeys | orderBy hkeys => exact ne_nil_of_mapM hkeys (List.cons_ne_nil _ _)
  | _ => trivial

/-- What a stage adds to a row statement comes behind the clauses of the statement, up to moves of
a projection. -/
theorem Statement.clauses_extend {d : Dialect} {scope : Scope} {stage : Stage}
    {a : Option Addition} (h : stage.addition d scope = .ok a) (name : String) (s : Statement) :
    ReflTransGen SelectMoves (s.clauses ++ a.toList.map .added) (s.extend name a).clauses := by
  cases a with
  | none =>
    rw [Option.toList_none, List.map_nil, List.append_nil]
    exact .refl
  | some a =>
    have hadd := Block.clauses_add (s.accepts_blockFor a.clause name) (Stage.nonempty_addition h)
    rw [Statement.clauses_blockFor] at hadd
    exact hadd

/-- Upon rows there can only be stages on rows. -/
theorem Query.isRowStage_of_lower {d : Dialect} {source : Query} {stage : Stage} {s : Statement}
    (hrows : source.startsWithRows = true) (h : (Query.step source stage).lower d = .ok s) :
    stage.kind.isRowStage = true := by
  obtain ⟨s₀, hs₀, hadvance⟩ := Stage.form_lower h
  have hform := Query.form?_of_startsWithRows hrows (Query.form_lower hs₀)
  by_contra hrow
  simp [hform, Form.advance, hrow] at hadvance

/-- Lowering a pipeline that starts from rows keeps every stage, once and in order, but for
projections that move to the left past order and paging clauses right before them. -/
theorem clauses_lower (d : Dialect) : ∀ {q : Query} {s : Statement}, q.startsWithRows = true →
    q.lower d = .ok s →
    ∃ parts, q.chain d = .ok parts ∧ ReflTransGen SelectMoves parts s.clauses
  | .table name, s, _, h => by
    cases h
    exact ⟨_, rfl, .refl⟩
  | .setOperation op all left right, s, _, h => by
    have hroot := h
    obtain ⟨-, left', right', -, -, rfl⟩ := Query.lower_setOperation.mp h
    exact ⟨_, by simp only [Query.chain, hroot]; rfl, .refl⟩
  | .withCtes recursive ctes main, s, _, h => by
    have hroot := h
    obtain ⟨-, -, ctes', body, -, -, rfl⟩ := Query.lower_withCtes.mp h
    exact ⟨_, by simp only [Query.chain, hroot]; rfl, .refl⟩
  | .insertInto .., _, hrows, _ | .update _, _, hrows, _ | .deleteFrom _, _, hrows, _ => by
    cases hrows
  | .step source stage, s, hrows, h => by
    have hrows : source.startsWithRows = true := hrows
    have hrow := Query.isRowStage_of_lower hrows h
    obtain ⟨a, s₀, ha, hs₀, -, rfl⟩ := (Stage.lower_rowStage_eq_ok hrow).mp h
    have hs₀ : source.lower d = .ok s₀ := hs₀
    obtain ⟨parts, hparts, hmoves⟩ := clauses_lower d hrows hs₀
    refine ⟨parts ++ a.toList.map .added, ?_, ?_⟩
    · rw [Query.chain, hparts, ha]
      rfl
    · exact (SelectMoves.append hmoves _).trans (Statement.clauses_extend ha _ s₀)
termination_by structural q => q

/-- A projection upon a limit joins its SELECT, and a filter upon that opens a new one: only the
projection has moved. -/
theorem clauses_lower_limit_select :
    (∃ s, ((((Query.table "users").limit (.literal (.int 10))).select
        [⟨.column none "id", none⟩] none).filter (.placeholder "active")).lower
          Profile.postgres.dialect = .ok s ∧
      s.clauses = [.root (.table "users"), .added (.select [⟨.column none "id", none⟩]),
        .added (.limit (.literal (.int 10))),
        .added (.filter (.column (some "users") "active"))]) ∧
    ReflTransGen SelectMoves
      [.root (.table "users"), .added (.limit (.literal (.int 10))),
        .added (.select [⟨.column none "id", none⟩]),
        .added (.filter (.column (some "users") "active"))]
      [.root (.table "users"), .added (.select [⟨.column none "id", none⟩]),
        .added (.limit (.literal (.int 10))),
        .added (.filter (.column (some "users") "active"))] := by
  obtain ⟨parts, hparts, hmoves⟩ := clauses_lower Profile.postgres.dialect
    (q := (((Query.table "users").limit (.literal (.int 10))).select
      [⟨.column none "id", none⟩] none).filter (.placeholder "active")) rfl rfl
  cases hparts
  exact ⟨⟨_, rfl, rfl⟩, hmoves⟩

end SqlAlgebra
