import SqlAlgebra.Proofs.Acceptance

/-!
# What rows are read from

A statement reads rows from derived tables and lateral bodies, from the operands of set operations,
from the SELECT of an insertion and from the queries nested in its expressions. None of these is an
INSERT, an UPDATE or a DELETE. One of them can be a WITH whose main statement is, and this happens
exactly if the query reads rows from such a WITH.
-/

namespace SqlAlgebra

/-- The statement changes data, by itself or as the main statement of its WITHs. -/
def Statement.modifies : Statement → Bool
  | .select _ | .setOperation .. => false
  | .insert _ | .update _ | .delete _ => true
  | .withCtes _ _ body => body.modifies

/-- The query changes data, by itself or as the main query of its WITHs. -/
def Query.modifies : Query → Bool
  | .table _ | .setOperation .. => false
  | .insertInto .. | .update _ | .deleteFrom _ => true
  | .withCtes _ _ main => main.modifies
  | .step source stage => !stage.readsRows && source.modifies

mutual

/-- The statements that a statement reads rows from, at any depth, those of nested queries apart. -/
def Statement.rowSources : Statement → List Statement
  | .select block => block.rowSources
  | .setOperation _ _ left right => left :: left.rowSources ++ right :: right.rowSources
  | .withCtes _ ctes body => Cte.rowSources ctes ++ body.rowSources
  | .insert i => i.rowSources
  | .update _ | .delete _ => []
termination_by structural s => s

def Block.rowSources : Block → List Statement
  | ⟨origin, joins, _, _, _, _, _, _, _, _⟩ => origin.rowSources ++ Join.rowSources joins
termination_by structural b => b

def Origin.rowSources : Origin → List Statement
  | .table _ => []
  | .derived body _ => body :: body.rowSources
termination_by structural o => o

def Join.rowSources : List Join → List Statement
  | [] => []
  | ⟨_, target, _⟩ :: joins => JoinTarget.rowSources target ++ Join.rowSources joins
termination_by structural joins => joins

def JoinTarget.rowSources : JoinTarget Statement → List Statement
  | .table _ => []
  | .lateral body _ => body :: body.rowSources
termination_by structural target => target

/-- A body is not read by the WITH itself, but may read rows. -/
def Cte.rowSources : List (Cte Statement) → List Statement
  | [] => []
  | ⟨_, _, body⟩ :: ctes => body.rowSources ++ Cte.rowSources ctes
termination_by structural ctes => ctes

def Insert.rowSources : Insert → List Statement
  | ⟨_, _, none, _, _⟩ => []
  | ⟨_, _, some source, _, _⟩ => source.rowSources
termination_by structural i => i

def InsertSource.rowSources : InsertSource → List Statement
  | .values _ => []
  | .select body => body :: body.rowSources
termination_by structural s => s

end

mutual

/-- The queries that a query reads rows from, at any depth, those nested in expressions apart. -/
def Query.rowSources : Query → List Query
  | .table _ | .insertInto .. | .update _ | .deleteFrom _ => []
  | .setOperation _ _ left right => left :: left.rowSources ++ right :: right.rowSources
  | .withCtes _ ctes main => Cte.rowSourceQueries ctes ++ main.rowSources
  | .step source stage =>
    (if stage.readsRows then [source] else []) ++ source.rowSources ++ stage.rowSources
termination_by structural q => q

def Cte.rowSourceQueries : List (Cte Query) → List Query
  | [] => []
  | ⟨_, _, body⟩ :: ctes => body.rowSources ++ Cte.rowSourceQueries ctes
termination_by structural ctes => ctes

def JoinTarget.rowSourceQueries : JoinTarget Query → List Query
  | .table _ => []
  | .lateral body _ => body :: body.rowSources
termination_by structural target => target

def Stage.rowSources : Stage → List Query
  | .join target _ _ => JoinTarget.rowSourceQueries target
  | .insertSelect rows => rows :: rows.rowSources
  | .filter _ | .select .. | .orderBy _ | .limit _ | .offset _ | .distinct | .groupBy _ | .having _
  | .values _ | .onConflict .. | .set _ | .updateWhere _ | .deleteWhere _ | .returning .. => []
termination_by structural stage => stage

end

/-- The queries nested in the expressions of a statement. -/
def Statement.nestedQueries (s : Statement) : List Query := s.exprs.flatMap Expr.queries

/-- The queries nested in the expressions of a query. -/
def Query.nestedQueries (q : Query) : List Query := q.scopedExprs.flatMap fun y => y.2.queries

/-- The first statement reads rows from the second, somewhere in its text. -/
inductive Statement.ReadsFrom (d : Dialect) : Statement → Statement → Prop where
  | part {s r : Statement} (hr : r ∈ s.rowSources) : ReadsFrom d s r
  | nested {s r : Statement} {q : Query} (hq : q ∈ s.nestedQueries)
      (hr : q.lowerRows d = .ok r) : ReadsFrom d s r
  | within {s t r : Statement} {q : Query} (hq : q ∈ s.nestedQueries)
      (ht : q.lowerRows d = .ok t) (hr : ReadsFrom d t r) : ReadsFrom d s r

/-- The first query reads rows from the second, somewhere in it. -/
inductive Query.ReadsFrom : Query → Query → Prop where
  | part {q p : Query} (hp : p ∈ q.rowSources) : ReadsFrom q p
  | nested {q p : Query} (hp : p ∈ q.nestedQueries) : ReadsFrom q p
  | within {q t p : Query} (ht : t ∈ q.nestedQueries) (hp : ReadsFrom t p) : ReadsFrom q p

/-- A statement that does not give rows modifies data. -/
theorem Statement.modifies_of_form {s : Statement} (h : s.form ≠ .rows) : s.modifies = true := by
  cases s with
  | insert i | update u | delete x => rfl
  | select | setOperation | withCtes => exact absurd rfl h

/-- A stage that reads rows makes a SELECT of them. Any other keeps the statement of its source or
takes a modification to a modification. -/
theorem Stage.statement_lower {d : Dialect} {scope : Scope} {source : Source} {stage : Stage}
    {s : Statement} (h : stage.lower d scope source = .ok s) :
    ∃ s₀, source.statement = .ok s₀ ∧
      (stage.readsRows = true ∧ (∃ block, s = .select block) ∨
        stage.readsRows = false ∧ (s = s₀ ∨ s₀.form ≠ .rows ∧ s.form ≠ .rows)) := by
  cases hrow : stage.kind.isRowStage with
  | true =>
    obtain ⟨a, s₀, ha, hs₀, -, rfl⟩ := (Stage.lower_rowStage_eq_ok hrow).mp h
    refine ⟨s₀, hs₀, ?_⟩
    rw [← (Stage.adds_of_addition ha).isSome_eq]
    cases a with
    | none => exact Or.inr ⟨rfl, Or.inl rfl⟩
    | some a => exact Or.inl ⟨rfl, _, rfl⟩
  | false =>
    obtain ⟨s₀, hs₀, hadvance⟩ := Stage.form_lower h
    have hbefore : s₀.form ≠ .rows := by
      intro hform
      simp [hform, Form.advance, hrow] at hadvance
    have hafter : s.form ≠ .rows := mt (Form.eq_rows_iff_of_advance hadvance).mp hbefore
    have hreads : stage.readsRows = false := by
      cases stage with
      | groupBy keys => cases hrow
      | _ => exact hrow
    exact ⟨s₀, hs₀, Or.inr ⟨hreads, Or.inr ⟨hbefore, hafter⟩⟩⟩

/-- A stage that reads no rows modifies data exactly if its source does. -/
theorem Stage.modifies_lower {d : Dialect} {scope : Scope} {source : Source} {stage : Stage}
    {s : Statement} (h : stage.lower d scope source = .ok s) :
    ∃ s₀, source.statement = .ok s₀ ∧ s.modifies = (!stage.readsRows && s₀.modifies) := by
  obtain ⟨s₀, hs₀, ⟨hreads, block, rfl⟩ | ⟨hreads, rfl | ⟨hbefore, hafter⟩⟩⟩ :=
    Stage.statement_lower h
  · exact ⟨s₀, hs₀, by simp [hreads, Statement.modifies]⟩
  · exact ⟨s, hs₀, by simp [hreads]⟩
  · refine ⟨s₀, hs₀, ?_⟩
    rw [Statement.modifies_of_form hbefore, Statement.modifies_of_form hafter, hreads]
    rfl

/-- The statement of a query modifies data exactly if the query does. -/
theorem Query.modifies_lower {d : Dialect} : ∀ {s : Statement} {q : Query}, q.lower d = .ok s →
    s.modifies = q.modifies
  | s, .table _, h | s, .insertInto .., h | s, .update _, h | s, .deleteFrom _, h => by
    cases h
    rfl
  | s, .setOperation op all left right, h => by
    obtain ⟨-, left', right', -, -, rfl⟩ := Query.lower_setOperation.mp h
    rfl
  | s, .withCtes recursive ctes main, h => by
    obtain ⟨-, -, ctes', body, -, hbody, rfl⟩ := Query.lower_withCtes.mp h
    have hmain := Query.modifies_lower hbody
    exact hmain
  | s, .step source stage, h => by
    obtain ⟨s₀, hs₀, hmodifies⟩ := Stage.modifies_lower h
    rw [hmodifies, Query.modifies, Query.modifies_lower hs₀]
termination_by structural _ q => q

/-- The statements are row sources for the queries: all of them give rows, and one of them modifies
data exactly if one of the queries does. A query whose SELECT went into another one has no statement
of its own. -/
structure SourcesFor (ps : List Query) (rs : List Statement) : Prop where
  isModification : ∀ r ∈ rs, r.isModification = false
  modifies : rs.any Statement.modifies = ps.any Query.modifies

namespace SourcesFor

variable {ps ps' : List Query} {rs rs' : List Statement} {d : Dialect}

/-- No statements are row sources for no queries. -/
theorem nil : SourcesFor [] [] := ⟨by simp, rfl⟩

/-- Row sources are put together as their queries are. -/
theorem append (h : SourcesFor ps rs) (h' : SourcesFor ps' rs') :
    SourcesFor (ps ++ ps') (rs ++ rs') := by
  constructor
  · rw [List.forall_mem_append]
    exact ⟨h.isModification, h'.isModification⟩
  · rw [List.any_append, List.any_append, h.modifies, h'.modifies]

/-- No further queries need no further row sources. -/
theorem append_nil (h : SourcesFor ps rs) : SourcesFor (ps ++ []) rs := by
  rwa [List.append_nil]

/-- A query that is lowered for its rows has its statement as a row source. -/
theorem cons {p : Query} {r : Statement} (hr : p.lowerRows d = .ok r) (h : SourcesFor ps rs) :
    SourcesFor (p :: ps) (r :: rs) := by
  obtain ⟨hlower, hform⟩ := Query.lowerRows_eq_ok.mp hr
  constructor
  · rw [List.forall_mem_cons]
    exact ⟨Statement.form_eq_rows.mp hform, h.isModification⟩
  · rw [List.any_cons, List.any_cons, Query.modifies_lower hlower, h.modifies]

/-- A query that modifies nothing need not have a statement. -/
theorem skip {p : Query} (hp : p.modifies = false) (h : SourcesFor ps rs) :
    SourcesFor (p :: ps) rs := by
  refine ⟨h.isModification, ?_⟩
  rw [List.any_cons, hp, Bool.false_or, h.modifies]

end SourcesFor

/-- The row sources that are added to a SELECT. -/
def Addition.rowSources : Addition → List Statement
  | .join added => Join.rowSources [added]
  | _ => []

/-- A SELECT has the row sources of what it reads from and of its joins. -/
theorem Block.rowSources_eq (b : Block) :
    b.rowSources = b.origin.rowSources ++ Join.rowSources b.joins := by
  cases b
  rfl

/-- The row sources of joins are those of the first ones and then those of the others. -/
theorem Join.rowSources_append (joins joins' : List Join) :
    Join.rowSources (joins ++ joins') = Join.rowSources joins ++ Join.rowSources joins' := by
  induction joins with
  | nil => rfl
  | cons join joins ih =>
    obtain ⟨kind, target, condition⟩ := join
    simp [Join.rowSources, ih]

/-- What is added to a SELECT brings its own row sources. -/
theorem Block.rowSources_add (b : Block) (a : Addition) :
    (b.add a).rowSources = b.rowSources ++ a.rowSources := by
  rw [Block.rowSources_eq, Block.rowSources_eq]
  cases a with
  | join added => simp [Block.add, Addition.rowSources, Join.rowSources_append]
  | _ => simp [Block.add, Addition.rowSources]

/-- A SELECT opened over a statement reads its rows, or is the statement and reads no others. -/
theorem Statement.rowSources_blockFor (clause : Clause) (name : String) (s : Statement) :
    (s.blockFor clause name).rowSources = s :: s.rowSources ∨
      s.modifies = false ∧ (s.blockFor clause name).rowSources = s.rowSources := by
  have horigin (s : Statement) :
      (Block.ofOrigin (.derived s name)).rowSources = s :: s.rowSources := by
    simp [Block.rowSources_eq, Block.ofOrigin, Origin.rowSources, Join.rowSources]
  cases s with
  | select block =>
    by_cases h : block.accepts clause = true
    · right
      rw [Statement.blockFor, if_pos h]
      exact ⟨rfl, rfl⟩
    · left
      rw [Statement.blockFor, if_neg h]
      exact horigin _
  | _ => exact .inl (horigin _)

/-- The guard of an INSERT does not change the row sources of its rows. -/
theorem Statement.rowSources_guardJoin : ∀ s : Statement, s.guardJoin.rowSources = s.rowSources
  | .select block => by
    unfold Statement.guardJoin
    split
    · simp [Statement.rowSources, Block.rowSources_eq]
    · rfl
  | .withCtes _ ctes body => by
    rw [Statement.guardJoin, Statement.rowSources, Statement.rowSources,
      Statement.rowSources_guardJoin body]
  | .setOperation .. | .insert _ | .update _ | .delete _ => rfl
termination_by structural s => s

/-- The guard of an INSERT does not change whether its rows modify data. -/
theorem Statement.modifies_guardJoin : ∀ s : Statement, s.guardJoin.modifies = s.modifies
  | .select block => by
    unfold Statement.guardJoin
    split <;> rfl
  | .withCtes _ ctes body => Statement.modifies_guardJoin body
  | .setOperation .. | .insert _ | .update _ | .delete _ => rfl
termination_by structural s => s

/-- The guard of an INSERT does not make a modification of its rows. -/
theorem Statement.isModification_guardJoin (s : Statement) :
    s.guardJoin.isModification = s.isModification := by
  cases s with
  | select block =>
    unfold Statement.guardJoin
    split <;> rfl
  | _ => rfl

namespace SourcesFor

variable {d : Dialect} {scope : Scope} {source : Query} {stage : Stage} {ps : List Query}
  {s₀ s : Statement}

/-- A stage upon rows reads from what it adds, from its source and from what that reads from. -/
theorem extend (hs₀ : source.lower d = .ok s₀) (hform : s₀.form = .rows) {a : Option Addition}
    (ha : stage.Adds d scope a)
    (hadded : SourcesFor stage.rowSources (a.elim [] Addition.rowSources))
    (h : SourcesFor source.rowSources s₀.rowSources) (name : String) :
    SourcesFor ((if stage.readsRows then [source] else []) ++ source.rowSources ++ stage.rowSources)
      (s₀.extend name a).rowSources := by
  rw [← ha.isSome_eq]
  cases a with
  | none => simpa [Statement.extend] using h.append hadded
  | some a =>
    have hrows : source.lowerRows d = .ok s₀ := Query.lowerRows_eq_ok.mpr ⟨hs₀, hform⟩
    simp only [Statement.extend, Statement.rowSources, Block.rowSources_add, Option.isSome_some,
      if_true, List.singleton_append]
    refine append ?_ hadded
    rcases s₀.rowSources_blockFor a.clause name with hblock | ⟨hmodifies, hblock⟩
    · rw [hblock]
      exact cons hrows h
    · rw [hblock]
      exact skip (Query.modifies_lower hs₀ ▸ hmodifies) h

/-- The row sources of an INSERT are as good with the guard as without. -/
theorem guardJoin {i : Insert} (h : SourcesFor ps i.rowSources) :
    SourcesFor ps (i.guardJoin d).rowSources := by
  unfold Insert.guardJoin
  split
  · rename_i body hupsert hsource
    obtain ⟨table, columns, _, upsert, returning⟩ := i
    cases hsource
    simp only [Insert.rowSources, InsertSource.rowSources, Statement.rowSources_guardJoin] at h ⊢
    constructor
    · have hrows := h.isModification
      rw [List.forall_mem_cons] at hrows ⊢
      rwa [Statement.isModification_guardJoin]
    · have hmodifies := h.modifies
      rw [List.any_cons] at hmodifies ⊢
      rwa [Statement.modifies_guardJoin]
  · exact h

end SourcesFor

/-- Only a join adds something that reads rows. -/
theorem Stage.Adds.rowSources_eq_nil {d : Dialect} {scope : Scope} {stage : Stage}
    {a : Option Addition} (hjoin : stage.kind ≠ .join) (h : stage.Adds d scope a) :
    a.elim [] Addition.rowSources = [] := by
  cases h with
  | join => exact absurd rfl hjoin
  | _ => rfl

/-- An INSERT has the row sources of what it inserts. -/
theorem Insert.rowSources_eq (i : Insert) :
    i.rowSources = i.source.elim [] InsertSource.rowSources := by
  obtain ⟨table, columns, source, upsert, returning⟩ := i
  cases source <;> rfl

/-- A row stage that holds no query of its own reads from its source alone. -/
theorem Stage.sourcesFor_rowStage {d : Dialect} {source : Query} {stage : Stage} {s : Statement}
    (hrow : stage.kind.isRowStage = true) (hjoin : stage.kind ≠ .join)
    (hplain : stage.rowSources = []) (h : (Query.step source stage).lower d = .ok s) :
    ∃ s₀, source.lower d = .ok s₀ ∧ (SourcesFor source.rowSources s₀.rowSources →
      SourcesFor (Query.step source stage).rowSources s.rowSources) := by
  obtain ⟨a, s₀, ha, hs₀, hform, rfl⟩ := (Stage.lower_rowStage_eq_ok hrow).mp h
  have hadds := Stage.adds_of_addition ha
  refine ⟨s₀, hs₀, fun hsource => SourcesFor.extend hs₀ hform hadds ?_ hsource _⟩
  rw [hplain, hadds.rowSources_eq_nil hjoin]
  exact .nil

mutual

/-- The statement of a query reads rows from the statements of what the query reads rows from. -/
theorem Query.sourcesFor_lower (d : Dialect) : ∀ {q : Query} {s : Statement}, q.lower d = .ok s →
    SourcesFor q.rowSources s.rowSources
  | .table _, s, h | .insertInto .., s, h | .update _, s, h | .deleteFrom _, s, h => by
    cases h
    exact .nil
  | .setOperation op all left right, s, h => by
    obtain ⟨-, left', right', hleft, hright, rfl⟩ := Query.lower_setOperation.mp h
    have hleft' := Query.sourcesFor_lower d (Query.lowerRows_eq_ok.mp hleft).1
    have hright' := Query.sourcesFor_lower d (Query.lowerRows_eq_ok.mp hright).1
    exact (hleft'.cons hleft).append (hright'.cons hright)
  | .withCtes recursive ctes main, s, h => by
    obtain ⟨-, -, ctes', body, hctes, hbody, rfl⟩ := Query.lower_withCtes.mp h
    exact (Cte.sourcesFor_lowerAll d hctes).append (Query.sourcesFor_lower d hbody)
  | .step source stage, s, h => by
    obtain ⟨s₀, hs₀, hstage⟩ := Stage.sourcesFor_lower d h
    exact hstage (Query.sourcesFor_lower d hs₀)
termination_by structural q => q

/-- The lowered entries of a WITH have row sources for those of their queries. -/
theorem Cte.sourcesFor_lowerAll (d : Dialect) : ∀ {ctes : List (Cte Query)}
    {ctes' : List (Cte Statement)}, Cte.lowerAll d ctes = .ok ctes' →
    SourcesFor (Cte.rowSourceQueries ctes) (Cte.rowSources ctes')
  | [], ctes', h => by
    cases h
    exact .nil
  | ⟨name, columns, body⟩ :: ctes, ctes', h => by
    simp only [Cte.lowerAll, bind_eq_ok, pure_eq_ok] at h
    obtain ⟨body', hbody, ctes', hctes, rfl⟩ := h
    exact (Query.sourcesFor_lower d hbody).append (Cte.sourcesFor_lowerAll d hctes)
termination_by structural ctes => ctes

/-- What is joined has, once lowered, row sources for those of its query. -/
theorem JoinTarget.sourcesFor_lower (d : Dialect) : ∀ {target : JoinTarget Query}
    {target' : JoinTarget Statement}, JoinTarget.lower d target = .ok target' →
    SourcesFor (JoinTarget.rowSourceQueries target) (JoinTarget.rowSources target')
  | .table _, target', h => by
    cases h
    exact .nil
  | .lateral body name, target', h => by
    obtain ⟨-, body', hbody, rfl⟩ := JoinTarget.lower_lateral.mp h
    exact (Query.sourcesFor_lower d (Query.lowerRows_eq_ok.mp hbody).1).cons hbody
termination_by structural target => target

/-- A stage adds row sources for its queries to those of the statement below. -/
theorem Stage.sourcesFor_lower (d : Dialect) {source : Query} : ∀ {stage : Stage} {s : Statement},
    (Query.step source stage).lower d = .ok s →
    ∃ s₀, source.lower d = .ok s₀ ∧ (SourcesFor source.rowSources s₀.rowSources →
      SourcesFor (Query.step source stage).rowSources s.rowSources)
  | .filter _, s, h | .having _, s, h | .limit _, s, h | .offset _, s, h | .select .., s, h
  | .orderBy _, s, h | .distinct, s, h | .groupBy _, s, h =>
    Stage.sourcesFor_rowStage rfl nofun rfl h
  | .join target condition kind, s, h => by
    obtain ⟨a, s₀, ha, hs₀, hform, rfl⟩ := (Stage.lower_rowStage_eq_ok rfl).mp h
    have hadds := Stage.adds_of_addition ha
    refine ⟨s₀, hs₀, fun hsource => SourcesFor.extend hs₀ hform hadds ?_ hsource _⟩
    cases hadds with
    | nothing hreads => cases hreads
    | join _ htarget =>
      have hlateral := JoinTarget.sourcesFor_lower d htarget
      simpa [Addition.rowSources, Join.rowSources, Stage.rowSources] using hlateral
  | .insertSelect rows, s, h => by
    obtain ⟨i, body, hi, -, hsource, hrows, rfl⟩ := Stage.lower_insertSelect.mp h
    have hbody := Query.sourcesFor_lower d (Query.lowerRows_eq_ok.mp hrows).1
    refine ⟨_, hi, fun hys => ?_⟩
    simp only [Statement.rowSources, Insert.rowSources_eq, hsource, Option.elim_none] at hys
    exact hys.append (hbody.cons hrows)
  | .values rows, s, h => by
    obtain ⟨i, rows', hi, -, hsource, -, -, rfl⟩ := Stage.lower_values.mp h
    refine ⟨_, hi, fun hys => ?_⟩
    simp only [Statement.rowSources, Insert.rowSources_eq, hsource, Option.elim_none] at hys
    exact hys.append .nil
  | .onConflict target action, s, h => by
    obtain ⟨-, i, action', hi, -, -, -, -, rfl⟩ := Stage.lower_onConflict.mp h
    refine ⟨_, hi, fun hys => SourcesFor.guardJoin ?_⟩
    rw [Statement.rowSources, Insert.rowSources_eq] at hys
    rw [Insert.rowSources_eq]
    exact hys.append_nil
  | .set assignments, s, h => by
    obtain ⟨-, u, assignments', hu, -, -, -, rfl⟩ := Stage.lower_set.mp h
    exact ⟨_, hu, fun hys => hys.append .nil⟩
  | .updateWhere e, s, h => by
    obtain ⟨u, e', hu, -, -, rfl⟩ := Stage.lower_updateWhere.mp h
    exact ⟨_, hu, fun hys => hys.append .nil⟩
  | .deleteWhere e, s, h => by
    obtain ⟨x, e', hx, -, -, rfl⟩ := Stage.lower_deleteWhere.mp h
    exact ⟨_, hx, fun hys => hys.append .nil⟩
  | .returning _ items, s, h => by
    obtain ⟨-, -, items', s₀, -, hs₀, hadd⟩ := Stage.lower_returning.mp h
    refine ⟨s₀, hs₀, fun hys => ?_⟩
    rcases Statement.addReturning_eq_ok.mp hadd with
      ⟨i, rfl, -, rfl⟩ | ⟨u, rfl, -, rfl⟩ | ⟨x, rfl, -, rfl⟩
    · rw [Statement.rowSources, Insert.rowSources_eq] at hys ⊢
      exact hys.append_nil
    · exact hys.append .nil
    · exact hys.append .nil
termination_by structural stage => stage

end

/-- Resolving an expression does not touch the queries in it. -/
theorem Expr.queries_resolve {scope : Scope} {e e' : Expr} (h : e.resolve scope = .ok e') :
    e'.queries = e.queries := by
  rcases Expr.resolve_eq_ok.mp h with ⟨table, rfl, rfl⟩ | ⟨reason, rfl, -, rfl⟩
  · exact Expr.queries_qualify table e
  · rfl

/-- Carried expressions nest the same queries. -/
theorem Carries.queries {ys : List (Scope × Expr)} {xs : List Expr} (h : Carries ys xs) :
    (xs.flatMap Expr.queries).Perm (ys.flatMap fun y => y.2.queries) := by
  obtain ⟨zs, guards, hzs, hguards, hperm⟩ := h
  have hresolved : zs.flatMap Expr.queries = ys.flatMap fun y => y.2.queries := by
    clear hperm
    induction hzs with
    | nil => rfl
    | cons hz _ ih => rw [List.flatMap_cons, List.flatMap_cons, Expr.queries_resolve hz, ih]
  have hguarded : guards.flatMap Expr.queries = [] := by
    rw [List.flatMap_eq_nil_iff]
    intro g hg
    rw [hguards g hg]
    rfl
  have hflat := hperm.flatMap_right Expr.queries
  rwa [List.flatMap_append, hresolved, hguarded, List.append_nil] at hflat

/-- The queries nested in a statement are those nested in the query it was made from. -/
theorem Query.mem_nestedQueries_lower {d : Dialect} {q p : Query} {s : Statement}
    (h : q.lower d = .ok s) : p ∈ s.nestedQueries ↔ p ∈ q.nestedQueries :=
  (Query.carries_lower d h).queries.mem_iff

/-- In a valid query the nested queries are valid. -/
theorem Query.validRows_of_mem_nestedQueries {d : Dialect} {q p : Query}
    (hq : ∀ n ∈ q.nodes, n.Allowed d) (hp : p ∈ q.nestedQueries) : p.ValidRows d := by
  obtain ⟨⟨scope, e⟩, he, hpe⟩ := List.mem_flatMap.mp hp
  intro n hn
  exact hq n (Query.mem_nodes_of_scopedExprs he (Expr.nodes_queries scope e p hpe hn))

/-- A query that is valid for its rows can be lowered for them. -/
theorem Query.ValidRows.exists_lowerRows {d : Dialect} {q : Query} (h : q.ValidRows d) :
    ∃ s, q.lowerRows d = .ok s := by
  have hlowers := Query.lowers (writesBelow_renderRows d q.depth) (Nat.le_refl q.depth)
  obtain ⟨s, hs, -⟩ := hlowers.rowsWritable.mpr h
  exact ⟨s, hs⟩

namespace Statement.ReadsFrom

variable {d : Dialect} {s r : Statement}

/-- No modification stands itself where rows are read. -/
theorem isModification (h : s.ReadsFrom d r) {q : Query} (hs : q.lower d = .ok s) :
    r.isModification = false := by
  induction h generalizing q with
  | part hr => exact (Query.sourcesFor_lower d hs).isModification _ hr
  | nested _ hr => exact Statement.form_eq_rows.mp (Query.lowerRows_eq_ok.mp hr).2
  | within _ ht _ ih => exact ih (Query.lowerRows_eq_ok.mp ht).1

/-- Where a WITH over a modification is read for rows, the query reads one. -/
theorem exists_query (h : s.ReadsFrom d r) (hr : r.modifies = true) {q : Query}
    (hs : q.lower d = .ok s) : ∃ p, q.ReadsFrom p ∧ p.modifies = true := by
  induction h generalizing q with
  | part hmem =>
    have hany := (Query.sourcesFor_lower d hs).modifies
    rw [List.any_eq_true.mpr ⟨_, hmem, hr⟩] at hany
    obtain ⟨p, hp, hmodifies⟩ := List.any_eq_true.mp hany.symm
    exact ⟨p, .part hp, hmodifies⟩
  | @nested _ _ p hp hlower =>
    have hp := (Query.mem_nestedQueries_lower hs).mp hp
    have hmodifies := Query.modifies_lower (Query.lowerRows_eq_ok.mp hlower).1
    exact ⟨p, .nested hp, hmodifies ▸ hr⟩
  | within ht hlower _ ih =>
    obtain ⟨p, hp, hmodifies⟩ := ih hr (Query.lowerRows_eq_ok.mp hlower).1
    exact ⟨p, .within ((Query.mem_nestedQueries_lower hs).mp ht) hp, hmodifies⟩

end Statement.ReadsFrom

/-- A WITH over a modification that a query reads for rows is in its statement. -/
theorem Query.ReadsFrom.exists_statement {d : Dialect} {q p : Query} (h : q.ReadsFrom p)
    (hp : p.modifies = true) {s : Statement} (hs : q.lower d = .ok s)
    (hq : ∀ n ∈ q.nodes, n.Allowed d) : ∃ r, s.ReadsFrom d r ∧ r.modifies = true := by
  induction h generalizing s with
  | part hmem =>
    have hany := (Query.sourcesFor_lower d hs).modifies
    rw [List.any_eq_true.mpr ⟨_, hmem, hp⟩] at hany
    obtain ⟨r, hr, hmodifies⟩ := List.any_eq_true.mp hany
    exact ⟨r, .part hr, hmodifies⟩
  | nested hmem =>
    obtain ⟨r, hr⟩ := (Query.validRows_of_mem_nestedQueries hq hmem).exists_lowerRows
    have hmodifies := Query.modifies_lower (Query.lowerRows_eq_ok.mp hr).1
    exact ⟨r, .nested ((Query.mem_nestedQueries_lower hs).mpr hmem) hr, hmodifies ▸ hp⟩
  | within hmem _ ih =>
    have hvalid := Query.validRows_of_mem_nestedQueries hq hmem
    obtain ⟨t, ht⟩ := hvalid.exists_lowerRows
    obtain ⟨r, hr, hmodifies⟩ := ih hp (Query.lowerRows_eq_ok.mp ht).1
      fun n hn => hvalid n (List.mem_cons_of_mem _ hn)
    exact ⟨r, .within ((Query.mem_nestedQueries_lower hs).mpr hmem) ht hr, hmodifies⟩

/-- A plan is the text of a statement, and of the statements that it reads rows from none is a
modification. One of them has a modification as the main statement of its WITHs exactly if the query
reads rows from a WITH with such a main query. -/
theorem readsFrom_modification_iff {d : Dialect} {q : Query} {plan : Plan}
    (h : q.compile d = .ok plan) :
    ∃ s tokens, q.lower d = .ok s ∧ s.render d (Query.renderRows d q.depth) = .ok tokens ∧
      plan = Plan.ofTokens d tokens ∧
      (∀ r, s.ReadsFrom d r → r.isModification = false) ∧
      ((∃ r, s.ReadsFrom d r ∧ r.modifies = true) ↔ ∃ p, q.ReadsFrom p ∧ p.modifies = true) := by
  obtain ⟨tokens, htokens, hplan⟩ := bind_eq_ok.mp h
  obtain ⟨s, hs, hrender⟩ := bind_eq_ok.mp htokens
  have hlowers := Query.lowers (writesBelow_renderRows d q.depth) (Nat.le_refl q.depth)
  have hvalid : q.Valid d := hlowers.writable_iff_valid.mp ⟨s, hs, tokens, hrender⟩
  refine ⟨s, tokens, hs, hrender, (pure_eq_ok.mp hplan).symm, fun r hr => hr.isModification hs, ?_⟩
  constructor
  · rintro ⟨r, hr, hmodifies⟩
    exact hr.exists_query hmodifies hs
  · rintro ⟨p, hp, hmodifies⟩
    exact hp.exists_statement hmodifies hs fun n hn => hvalid n (List.mem_cons_of_mem _ hn)

namespace Query

/-- A WITH that deletes rows and reads what it has deleted. -/
def deletedRows : Query :=
  .withCtes false
    [⟨"x", [], .step (.deleteFrom "logs") (.returning .unit [⟨.wildcard, none⟩])⟩] (.table "x")

/-- A WITH that reads rows and deletes others. -/
def deletion : Query := .withCtes false [⟨"x", [], .table "t"⟩] (.deleteFrom "logs")

/-- The users, if the query gives rows. -/
def usersIf (q : Query) : Query := (table "users").filter (.existence q false)

end Query

/-- The bodies of a WITH may modify data where rows are read, as its main statement is a SELECT. -/
theorem readsFrom_modification_iff_deletedRows :
    ∃ s, Query.deletedRows.usersIf.lower Profile.postgres.dialect = .ok s ∧
      ∀ r, s.ReadsFrom Profile.postgres.dialect r → r.modifies = false := by
  have hplan : Query.deletedRows.usersIf.compile Profile.postgres.dialect =
      .ok ⟨"SELECT * FROM \"users\" WHERE EXISTS (WITH \"x\" AS (DELETE FROM \"logs\" " ++
        "RETURNING *) SELECT * FROM \"x\")", []⟩ := rfl
  obtain ⟨s, -, hs, -, -, -, hiff⟩ := readsFrom_modification_iff hplan
  have hquery : ∀ p, Query.deletedRows.usersIf.ReadsFrom p → p.modifies = false := by
    intro p hp
    cases hp with
    | part hp =>
      cases List.mem_singleton.mp hp
      rfl
    | nested hp =>
      cases List.mem_singleton.mp hp
      rfl
    | within ht hp =>
      cases List.mem_singleton.mp ht
      cases hp with
      | part hp | nested hp | within hp => cases hp
  refine ⟨s, hs, fun r hr => ?_⟩
  by_contra hmodifies
  obtain ⟨p, hp, hp'⟩ := hiff.mp ⟨r, hr, by simpa using hmodifies⟩
  rw [hquery p hp] at hp'
  cases hp'

/-- A WITH that deletes rows in its main statement is read for rows. -/
theorem readsFrom_modification_exists :
    ∃ plan s r, Query.deletion.usersIf.compile Profile.postgres.dialect = .ok plan ∧
      plan.sql = "SELECT * FROM \"users\" WHERE EXISTS (WITH \"x\" AS (SELECT * FROM \"t\") " ++
        "DELETE FROM \"logs\")" ∧
      Query.deletion.usersIf.lower Profile.postgres.dialect = .ok s ∧
      s.ReadsFrom Profile.postgres.dialect r ∧ r.modifies = true := by
  refine ⟨⟨_, []⟩, _, _, rfl, rfl, rfl, .nested List.mem_cons_self rfl, rfl⟩

end SqlAlgebra
