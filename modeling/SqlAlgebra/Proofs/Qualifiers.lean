import SqlAlgebra.Proofs.ClauseOrder
import SqlAlgebra.Proofs.Expressions

/-!
# Columns are qualified with what their SELECT reads from

A placeholder is resolved at its stage, before it is known which SELECT the stage will land in. Yet
the name that it gets is always the name under which that SELECT reads: a pipeline over one table
keeps the name of the table through all derived tables, and where there are joins no placeholder has
been resolved.
-/

namespace SqlAlgebra

/-- The name under which rows are read. -/
def Origin.name : Origin → String
  | .table name => name
  | .derived _ name => name

/-- The origin is the table that the query is, or the statement of the query under the name of its
scope. -/
def Origin.Reads (d : Dialect) (q : Query) : Origin → Prop
  | .table name => q = .table name
  | .derived body name => q.lower d = .ok body ∧ name = q.scope.derivedName

/-- The expressions that a clause has itself, those in a lateral body apart. -/
def Addition.ownExprs : Addition → List Expr
  | .join added => added.condition.toList
  | .filter e | .having e | .offset e | .limit e => [e]
  | .groupBy keys => keys
  | .select items => items.map (·.expr)
  | .distinct => []
  | .orderBy keys => keys.map (·.expr)

/-- The expressions of the clauses of a SELECT, those of what it reads from apart. -/
def Block.ownExprs (b : Block) : List Expr := b.additions.flatMap Addition.ownExprs

/-- The expressions that a stage on rows has itself. -/
def Stage.ownExprs : Stage → List Expr
  | .filter e | .having e | .offset e | .limit e => [e]
  | .join _ condition _ => condition.toList
  | .groupBy keys => keys
  | .select _ items => items.map (·.expr)
  | .orderBy keys => keys.map (·.expr)
  | _ => []

namespace Query

/-- The query with further stages upon it. -/
def followedBy (q : Query) (stages : List Stage) : Query := stages.foldl step q

/-- The expressions of the stages upon a query, with the scopes of their placeholders. -/
def exprsAbove (q : Query) : List Stage → List (Scope × Expr)
  | [] => []
  | stage :: stages =>
    stage.ownExprs.map (fun e => ((q.step stage).scope, e)) ++ (q.step stage).exprsAbove stages

/-- Stages may be put upon a query in two groups. -/
theorem followedBy_append (q : Query) (stages stages' : List Stage) :
    q.followedBy (stages ++ stages') = (q.followedBy stages).followedBy stages' :=
  List.foldl_append

/-- The last of the stages is put upon a query after all others. -/
theorem followedBy_concat (q : Query) (stages : List Stage) (stage : Stage) :
    q.followedBy (stages ++ [stage]) = (q.followedBy stages).step stage :=
  followedBy_append q stages [stage]

/-- The expressions of a last stage come after those of the others. -/
theorem exprsAbove_concat (q : Query) (stages : List Stage) (stage : Stage) :
    q.exprsAbove (stages ++ [stage]) = q.exprsAbove stages ++
      stage.ownExprs.map fun e => (((q.followedBy stages).step stage).scope, e) := by
  induction stages generalizing q with
  | nil => simp [exprsAbove, followedBy]
  | cons first stages ih =>
    rw [List.cons_append, exprsAbove, exprsAbove, ih, List.append_assoc]
    rfl

/-- Only joins change the scope. -/
theorem scope_step {q : Query} {stage : Stage} (h : stage.kind ≠ .join) :
    (q.step stage).scope = q.scope := by
  cases stage with
  | join target condition kind => exact absurd rfl h
  | _ => rfl

/-- Above a join, a placeholder has no table. -/
theorem scope_step_join {q : Query} {stage : Stage} (h : stage.kind = .join) :
    (q.step stage).scope = .ambiguous "pipeline contains a JOIN" := by
  cases stage with
  | join target condition kind => rfl
  | _ => cases h

/-- A stage that leaves a table to placeholders is no join, and they had it below, too. -/
theorem scope_of_step {q : Query} {stage : Stage} {table : String}
    (h : (q.step stage).scope = .table table) : stage.kind ≠ .join ∧ q.scope = .table table := by
  have hjoin : stage.kind ≠ .join := by
    intro hjoin
    rw [scope_step_join hjoin] at h
    cases h
  exact ⟨hjoin, by rwa [scope_step hjoin] at h⟩

/-- A pipeline over one table is one from its start. -/
theorem scope_of_followedBy {q : Query} {stages : List Stage} {table : String}
    (h : (q.followedBy stages).scope = .table table) : q.scope = .table table := by
  induction stages generalizing q with
  | nil => exact h
  | cons stage stages ih => exact (scope_of_step (ih h)).2

end Query

/-- The SELECT reads rows from the table and from nothing else, directly or through derived tables
that have its name. -/
inductive Block.ReadsOnly (table : String) : Block → Prop where
  | table {b : Block} (hjoins : b.joins = []) (horigin : b.origin = .table table) :
    ReadsOnly table b
  | derived {b inner : Block} (hjoins : b.joins = [])
      (horigin : b.origin = .derived (.select inner) table) (hinner : ReadsOnly table inner) :
    ReadsOnly table b

/-- The second SELECT is the first one, or what it reads from through derived tables. -/
inductive Block.Contains : Block → Block → Prop where
  | refl (b : Block) : Contains b b
  | derived {b inner b' : Block} {name : String}
      (horigin : b.origin = .derived (.select inner) name) (hinner : Contains inner b') :
    Contains b b'

/-- The expression has become another one where rows are read under a name: its placeholders are
columns of that name, or it has none. -/
def Expr.ResolvedUnder (name : String) (y : Scope × Expr) (z : Expr) : Prop :=
  (y.1 = .table name ∧ z = y.2.qualify name) ∨
    ((∃ reason, y.1 = .ambiguous reason) ∧ y.2.firstPlaceholder? = none ∧ z = y.2)

/-- The SELECT is made of the stages upon a query. -/
structure Block.Over (d : Dialect) (q : Query) (stages : List Stage) (b : Block) : Prop where
  /-- It reads from the query, under the name of its scope. -/
  origin : b.origin.Reads d q
  /-- Its expressions are those of the stages, and their columns have the name of its origin. -/
  exprs : ∃ zs, List.Forall₂ (Expr.ResolvedUnder b.origin.name) (q.exprsAbove stages) zs ∧
    b.ownExprs.Perm zs
  /-- With joins the scope is ambiguous. -/
  joins : b.joins ≠ [] → ∃ reason, (q.followedBy stages).scope = .ambiguous reason
  /-- In an ambiguous scope no stage has had a placeholder. -/
  ambiguous : ∀ reason, (q.followedBy stages).scope = .ambiguous reason →
    ∀ y ∈ q.exprsAbove stages, ∃ reason', y.1 = .ambiguous reason'

/-- What is added to a SELECT does not change what it reads from. -/
theorem Block.origin_add (b : Block) (a : Addition) : (b.add a).origin = b.origin := by
  cases a <;> rfl

/-- Only joins add joins. -/
theorem Stage.Adds.joins_add {d : Dialect} {scope : Scope} {stage : Stage} {a : Addition}
    (h : stage.Adds d scope (some a)) (hjoin : stage.kind ≠ .join) (b : Block) :
    (b.add a).joins = b.joins := by
  cases h with
  | join => exact absurd rfl hjoin
  | _ => rfl

/-- A join stage adds to the clause of joins. -/
theorem Stage.Adds.clause_eq_join {d : Dialect} {scope : Scope} {stage : Stage} {a : Addition}
    (h : stage.Adds d scope (some a)) (hjoin : stage.kind = .join) : a.clause = .join := by
  cases h with
  | join => rfl
  | _ => cases hjoin

/-- What a stage adds has the expressions of the stage. -/
theorem Stage.Adds.forall₂_ownExprs {d : Dialect} {scope : Scope} {stage : Stage} {a : Addition}
    (h : stage.Adds d scope (some a)) :
    List.Forall₂ (fun y z => y.2.resolve y.1 = .ok z) (stage.ownExprs.map fun e => (scope, e))
      a.ownExprs := by
  cases h with
  | filter he | having he | offset he | limit he => exact .cons he .nil
  | join hcondition _ => exact Scope.forall₂_resolveOption hcondition
  | groupBy hkeys => exact Scope.forall₂_resolveAll hkeys
  | select hitems =>
    rw [Stage.ownExprs, List.map_map]
    exact Scope.forall₂_resolveItems hitems
  | orderBy hkeys =>
    rw [Stage.ownExprs, List.map_map]
    exact Scope.forall₂_resolveKeys hkeys
  | distinct => exact .nil

/-- Once a clause is added, a SELECT has the expressions of both. -/
theorem Block.ownExprs_add {b : Block} {a : Addition} (haccepts : b.accepts a.clause = true)
    (hne : a.Nonempty) : (b.add a).ownExprs.Perm (b.ownExprs ++ a.ownExprs) := by
  have hperm : (b.add a).additions.Perm (b.additions ++ [a]) := by
    by_cases hselect : a.clause = .select
    · obtain ⟨items, rfl⟩ : ∃ items, a = .select items := by
        cases a <;> simp_all [Addition.clause]
      obtain ⟨before, paging, -, hb, hadd⟩ := Block.additions_add_select haccepts items
      rw [hb, hadd, List.append_assoc]
      exact (List.perm_append_singleton _ paging).symm.append_left before
    · rw [Block.additions_add haccepts hne hselect]
  have hflat := hperm.flatMap_right Addition.ownExprs
  simpa [Block.ownExprs] using hflat

/-- A SELECT that accepts a join and has none yet has no clauses at all. -/
theorem Block.ownExprs_eq_nil {b : Block} (haccepts : b.accepts .join = true)
    (hjoins : b.joins = []) : b.ownExprs = [] := by
  simp [Block.accepts] at haccepts
  simp [Block.ownExprs, Block.additions, hjoins, haccepts]

/-- What is resolved in a scope is resolved under the name of its table. -/
theorem Expr.resolvedUnder_of_resolve {name : String} {y : Scope × Expr} {z : Expr}
    (hname : ∀ table, y.1 = .table table → name = table) (h : y.2.resolve y.1 = .ok z) :
    Expr.ResolvedUnder name y z := by
  rcases Expr.resolve_eq_ok.mp h with ⟨table, hscope, rfl⟩ | ⟨reason, hscope, hfield, rfl⟩
  · obtain rfl := hname table hscope
    exact .inl ⟨hscope, rfl⟩
  · exact .inr ⟨⟨reason, hscope⟩, hfield, rfl⟩

namespace Block.Over

variable {d : Dialect} {q : Query} {stages : List Stage} {stage : Stage} {b : Block}

/-- A pipeline over one table is read under the name of the table. -/
theorem origin_name (h : b.Over d q stages) {table : String}
    (hscope : (q.followedBy stages).scope = .table table) : b.origin.name = table := by
  have hq : q.scope = .table table := Query.scope_of_followedBy hscope
  have horigin := h.origin
  cases hb : b.origin with
  | table name =>
    rw [hb] at horigin
    have hname : q = .table name := horigin
    rw [hname] at hq
    exact Scope.table.inj hq
  | derived body name =>
    rw [hb] at horigin
    obtain ⟨-, hname⟩ := horigin
    rw [hq] at hname
    exact hname

/-- A new SELECT has no clauses. -/
theorem ofOrigin {origin : Origin} (h : origin.Reads d q) :
    (Block.ofOrigin origin).Over d q [] := by
  refine ⟨h, ⟨[], .nil, .refl _⟩, ?_, ?_⟩
  · intro hjoins
    exact absurd rfl hjoins
  · intro reason _ y hy
    cases hy

/-- Grouping by nothing adds nothing. -/
theorem skip (h : b.Over d q stages) : b.Over d q (stages ++ [.groupBy []]) := by
  have hscope : (q.followedBy (stages ++ [.groupBy []])).scope = (q.followedBy stages).scope := by
    rw [Query.followedBy_concat]
    rfl
  have hexprs : q.exprsAbove (stages ++ [.groupBy []]) = q.exprsAbove stages := by
    rw [Query.exprsAbove_concat]
    exact List.append_nil _
  constructor
  · exact h.origin
  · rw [hexprs]
    exact h.exprs
  · rw [hscope]
    exact h.joins
  · rw [hscope, hexprs]
    exact h.ambiguous

/-- A stage whose clause is accepted lands in the SELECT. -/
theorem add (h : b.Over d q stages) {a : Addition}
    (hadds : stage.Adds d ((q.followedBy stages).step stage).scope (some a))
    (haccepts : b.accepts a.clause = true) (hne : a.Nonempty) :
    (b.add a).Over d q (stages ++ [stage]) := by
  obtain ⟨zs, hzs, hperm⟩ := h.exprs
  have hname (table : String) (hscope : ((q.followedBy stages).step stage).scope = .table table) :
      b.origin.name = table := h.origin_name (Query.scope_of_step hscope).2
  constructor
  · rw [Block.origin_add]
    exact h.origin
  · refine ⟨zs ++ a.ownExprs, ?_, (Block.ownExprs_add haccepts hne).trans (hperm.append_right _)⟩
    rw [Block.origin_add, Query.exprsAbove_concat]
    have hadded := hadds.forall₂_ownExprs
    rw [List.forall₂_map_left_iff] at hadded
    refine List.rel_append hzs (List.forall₂_map_left_iff.mpr (hadded.imp ?_))
    intro e z hz
    exact Expr.resolvedUnder_of_resolve hname hz
  · intro hjoins
    rw [Query.followedBy_concat]
    by_cases hjoin : stage.kind = .join
    · exact ⟨_, Query.scope_step_join hjoin⟩
    · rw [hadds.joins_add hjoin] at hjoins
      rw [Query.scope_step hjoin]
      exact h.joins hjoins
  · intro reason hscope y hy
    rw [Query.followedBy_concat] at hscope
    rw [Query.exprsAbove_concat, List.mem_append] at hy
    rcases hy with hy | hy
    · by_cases hjoin : stage.kind = .join
      · -- a join lands beside other joins only, whose scope is ambiguous as well
        by_cases hjoins : b.joins = []
        · rw [hadds.clause_eq_join hjoin] at haccepts
          rw [Block.ownExprs_eq_nil haccepts hjoins, List.nil_perm] at hperm
          rw [hperm, List.forall₂_nil_right_iff] at hzs
          rw [hzs] at hy
          cases hy
        · obtain ⟨reason', hreason'⟩ := h.joins hjoins
          exact h.ambiguous reason' hreason' y hy
      · rw [Query.scope_step hjoin] at hscope
        exact h.ambiguous reason hscope y hy
    · obtain ⟨e, -, rfl⟩ := List.mem_map.mp hy
      exact ⟨reason, hscope⟩

end Block.Over

/-- A row stage that reads no rows groups by nothing. -/
theorem Stage.eq_groupBy_nil {stage : Stage} (hrow : stage.kind.isRowStage = true)
    (hreads : stage.readsRows = false) : stage = .groupBy [] := by
  cases stage with
  | groupBy keys =>
    cases keys with
    | nil => rfl
    | cons key keys => cases hreads
  | _ => cases hrow.symm.trans hreads

/-- Rows come from rows, by a stage on rows. -/
theorem Stage.lower_rows {d : Dialect} {scope : Scope} {source : Source} {stage : Stage}
    {s : Statement} (h : stage.lower d scope source = .ok s) (hform : s.form = .rows) :
    stage.kind.isRowStage = true ∧ ∃ a s₀, stage.addition d scope = .ok a ∧
      source.statement = .ok s₀ ∧ s₀.form = .rows ∧ s = s₀.extend source.derivedName a := by
  obtain ⟨s₀, -, hadvance⟩ := Stage.form_lower h
  have hbefore : s₀.form = .rows := (Form.eq_rows_iff_of_advance hadvance).mp hform
  have hrow : stage.kind.isRowStage = true := by
    by_contra hrow
    simp [hbefore, Form.advance, hrow] at hadvance
  exact ⟨hrow, (Stage.lower_rowStage_eq_ok hrow).mp h⟩

/-- The SELECT opened over a statement is made of the same stages, or of none. -/
theorem Statement.over_blockFor {d : Dialect} {q : Query} {s : Statement} (hs : q.lower d = .ok s)
    (hover : ∀ b, s = .select b → ∃ p stages, q = p.followedBy stages ∧ b.Over d p stages)
    (clause : Clause) : ∃ p stages, q = p.followedBy stages ∧
      (s.blockFor clause q.scope.derivedName).Over d p stages := by
  have hwrapped : ∃ p stages, q = p.followedBy stages ∧
      (Block.ofOrigin (.derived s q.scope.derivedName)).Over d p stages :=
    ⟨q, [], rfl, .ofOrigin ⟨hs, rfl⟩⟩
  cases s with
  | select b =>
    by_cases haccepts : b.accepts clause = true
    · rw [Statement.blockFor, if_pos haccepts]
      exact hover b rfl
    · rw [Statement.blockFor, if_neg haccepts]
      exact hwrapped
  | _ => exact hwrapped

/-- A SELECT is made of the stages upon a query from which it reads. -/
theorem Query.over_lower {d : Dialect} : ∀ {q : Query} {b : Block}, q.lower d = .ok (.select b) →
    ∃ p stages, q = p.followedBy stages ∧ b.Over d p stages
  | .table name, b, h => by
    cases h
    exact ⟨.table name, [], rfl, .ofOrigin rfl⟩
  | .insertInto .., _, h | .update _, _, h | .deleteFrom _, _, h => by cases h
  | .setOperation op all left right, b, h => by
    obtain ⟨-, left', right', -, -, hs⟩ := Query.lower_setOperation.mp h
    cases hs
  | .withCtes recursive ctes main, b, h => by
    obtain ⟨-, -, ctes', body, -, -, hs⟩ := Query.lower_withCtes.mp h
    cases hs
  | .step source stage, b, h => by
    obtain ⟨hrow, a, s₀, ha, hs₀, hform, hb⟩ := Stage.lower_rows h rfl
    have hs₀ : source.lower d = .ok s₀ := hs₀
    cases a with
    | none =>
      cases hb
      obtain ⟨p, stages, hsource, hover⟩ := Query.over_lower hs₀
      have hreads := (Stage.adds_of_addition ha).isSome_eq
      obtain rfl := Stage.eq_groupBy_nil hrow hreads.symm
      refine ⟨p, stages ++ [.groupBy []], ?_, hover.skip⟩
      rw [Query.followedBy_concat, hsource]
    | some a =>
      cases hb
      have hsource (b : Block) (hb : s₀ = .select b) := Query.over_lower (hb ▸ hs₀)
      obtain ⟨p, stages, hsource, hover⟩ := Statement.over_blockFor hs₀ hsource a.clause
      have hadds := Stage.adds_of_addition ha
      refine ⟨p, stages ++ [stage], ?_, ?_⟩
      · rw [Query.followedBy_concat, hsource]
      · rw [hsource] at hadds
        exact hover.add hadds (s₀.accepts_blockFor _ _) (Stage.nonempty_addition ha)
termination_by structural q => q

/-- A clause that is no join leaves a SELECT over one table one. -/
theorem Block.ReadsOnly.add {d : Dialect} {scope : Scope} {stage : Stage} {a : Addition}
    {table : String} {b : Block} (h : b.ReadsOnly table) (hadds : stage.Adds d scope (some a))
    (hjoin : stage.kind ≠ .join) : (b.add a).ReadsOnly table := by
  have hjoins := hadds.joins_add hjoin b
  have horigin := b.origin_add a
  cases h with
  | table hnone htable => exact .table (hjoins.trans hnone) (horigin.trans htable)
  | derived hnone hderived hinner =>
    exact .derived (hjoins.trans hnone) (horigin.trans hderived) hinner

/-- Making a SELECT ready for a clause keeps it to its one table. -/
theorem Block.ReadsOnly.blockFor {table : String} {b : Block} (h : b.ReadsOnly table)
    (clause : Clause) : ((Statement.select b).blockFor clause table).ReadsOnly table := by
  by_cases haccepts : b.accepts clause = true
  · rw [Statement.blockFor, if_pos haccepts]
    exact h
  · rw [Statement.blockFor, if_neg haccepts]
    exact .derived rfl rfl h

/-- The rows of a pipeline over one table are read by a SELECT over that table. -/
theorem Query.readsOnly_lower {d : Dialect} {table : String} : ∀ {q : Query} {s : Statement},
    q.lower d = .ok s → s.form = .rows → q.scope = .table table →
    ∃ b, s = .select b ∧ b.ReadsOnly table
  | .table name, s, h, _, hscope => by
    cases h
    cases hscope
    exact ⟨_, rfl, .table rfl rfl⟩
  | .insertInto .., _, h, hform, _ | .update _, _, h, hform, _ | .deleteFrom _, _, h, hform, _ => by
    cases h
    cases hform
  | .setOperation .., _, _, _, hscope | .withCtes .., _, _, _, hscope => by cases hscope
  | .step source stage, s, h, hform, hscope => by
    obtain ⟨-, a, s₀, ha, hs₀, hform₀, rfl⟩ := Stage.lower_rows h hform
    obtain ⟨hjoin, hsource⟩ := Query.scope_of_step hscope
    obtain ⟨b, rfl, hb⟩ := Query.readsOnly_lower hs₀ hform₀ hsource
    cases a with
    | none => exact ⟨b, rfl, hb⟩
    | some a =>
      refine ⟨_, rfl, ?_⟩
      rw [hsource]
      exact (hb.blockFor a.clause).add (Stage.adds_of_addition ha) hjoin
termination_by structural q => q

/-- What is known of the SELECT of a query: where it reads from one table, where else, and under
which names. -/
structure Query.InScope (d : Dialect) (q : Query) (b : Block) : Prop where
  single : ∀ table, q.scope = .table table → b.ReadsOnly table
  made : ∃ p stages, q = p.followedBy stages ∧ b.Over d p stages

/-- The SELECT to which a query is lowered is in its scope. -/
theorem Query.inScope_of_lower {d : Dialect} {q : Query} {b : Block}
    (h : q.lower d = .ok (.select b)) : q.InScope d b := by
  refine ⟨?_, Query.over_lower h⟩
  intro table hscope
  obtain ⟨b', hb', hreads⟩ := Query.readsOnly_lower h rfl hscope
  cases hb'
  exact hreads

/-- However often a pipeline has been wrapped, each SELECT is that of a part of the pipeline, and is
in scope there. -/
theorem Query.exists_inScope {d : Dialect} {q : Query} {b b' : Block}
    (h : q.lower d = .ok (.select b)) (hb : b.Contains b') :
    ∃ (p : Query) (stages : List Stage), q = p.followedBy stages ∧ p.lower d = .ok (.select b') ∧
      p.InScope d b' := by
  induction hb generalizing q with
  | refl b => exact ⟨q, [], rfl, h, Query.inScope_of_lower h⟩
  | @derived b inner b' name horigin _ ih =>
    obtain ⟨p, stages, rfl, hover⟩ := Query.over_lower h
    have hreads := hover.origin
    rw [horigin] at hreads
    obtain ⟨p', stages', rfl, hlower, hscope⟩ := ih hreads.1
    exact ⟨p', stages' ++ stages, (Query.followedBy_append ..).symm, hlower, hscope⟩

/-- The columns that the placeholders of a query have become are those of what its SELECT reads
from. However often the pipeline has been wrapped, each SELECT in it is that of a part of the
pipeline, of which the same holds. -/
theorem inScope_lower {d : Dialect} {q : Query} {b : Block} (h : q.lower d = .ok (.select b)) :
    q.InScope d b ∧ ∀ b', b.Contains b' →
      ∃ (p : Query) (stages : List Stage), q = p.followedBy stages ∧
        p.lower d = .ok (.select b') ∧ p.InScope d b' :=
  ⟨Query.inScope_of_lower h, fun _ hb => Query.exists_inScope h hb⟩

/-- A page of active users, of which the adults are joined with their orders: the join wraps a
filter, which wraps the page. -/
def Query.joinedPage : Query :=
  ((((table "users").filter (.placeholder "active")).limit (.literal (.int 10))).filter
    (.placeholder "adult")).step (.join (.table "orders")
      (some (.binary .eq (.column (some "users") "id") (.column (some "orders") "user_id"))) .inner)

/-- The innermost of the three SELECTs keeps the name of the table, although the whole is
ambiguous. -/
theorem inScope_lower_joinedPage :
    ∃ b b', Query.joinedPage.lower Profile.postgres.dialect = .ok (.select b) ∧ b.Contains b' ∧
      b.origin.name = "users" ∧ b'.origin = .table "users" ∧
      b'.ownExprs = [.column (some "users") "active", .literal (.int 10)] ∧
      Query.joinedPage.InScope Profile.postgres.dialect b ∧
      ∃ (p : Query) (stages : List Stage), Query.joinedPage = p.followedBy stages ∧
        p.lower Profile.postgres.dialect = .ok (.select b') ∧
        p.InScope Profile.postgres.dialect b' := by
  have hcontains : ∃ b b', Query.joinedPage.lower Profile.postgres.dialect = .ok (.select b) ∧
      b.Contains b' ∧ b.origin.name = "users" ∧ b'.origin = .table "users" ∧
      b'.ownExprs = [.column (some "users") "active", .literal (.int 10)] :=
    ⟨_, _, rfl, .derived rfl (.derived rfl (.refl _)), rfl, rfl, rfl⟩
  obtain ⟨b, b', hlower, hb, hname, horigin, hexprs⟩ := hcontains
  obtain ⟨hscope, hparts⟩ := inScope_lower hlower
  exact ⟨b, b', hlower, hb, hname, horigin, hexprs, hscope, hparts b' hb⟩

end SqlAlgebra
