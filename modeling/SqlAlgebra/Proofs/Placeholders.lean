import SqlAlgebra.Command
import SqlAlgebra.Dialect.Profile
import SqlAlgebra.Proofs.Unbroken

/-!
# No placeholder is left over

Lowering fills in every placeholder or refuses the query, so that a statement has none in any of its
expressions. Writing therefore never comes upon one, neither in the statement itself nor in the
queries that are lowered when writing comes to them.
-/

namespace SqlAlgebra

/-- The step does not end with a placeholder left over. -/
abbrev LeavesNone {α : Type} (x : Except CompileError α) : Prop :=
  Ends (fun _ => True) (fun err => err.isLeftOver = false) x

section Lowering

/-- A choice leaves no placeholder over if neither of its sides does. -/
theorem leavesNone_ite {α : Type} {p : Prop} [Decidable p] {x y : Except CompileError α}
    (hx : LeavesNone x) (hy : LeavesNone y) : LeavesNone (if p then x else y) := by
  split
  · exact hx
  · exact hy

/-- A placeholder that cannot be resolved is refused for its scope, never as left over. -/
theorem Expr.leavesNone_resolve (scope : Scope) (e : Expr) : LeavesNone (e.resolve scope) := by
  cases scope with
  | table name => trivial
  | ambiguous reason =>
    cases hfirst : e.firstPlaceholder? with
    | some field =>
      simp only [Expr.resolve, hfirst]
      exact ends_error rfl
    | none =>
      simp only [Expr.resolve, hfirst]
      trivial

/-- Resolving part by part leaves no placeholder over, if resolving each part does not. -/
theorem leavesNone_mapM {α β : Type} {f : α → Except CompileError β} {as : List α}
    (hf : ∀ a, LeavesNone (f a)) : LeavesNone (as.mapM f) :=
  (ends_mapM fun a _ => hf a).imp fun _ _ => trivial

namespace Scope

variable (scope : Scope)

/-- Resolving a list leaves no placeholder over. -/
theorem leavesNone_resolveAll (es : List Expr) : LeavesNone (scope.resolveAll es) :=
  leavesNone_mapM (Expr.leavesNone_resolve scope)

/-- Resolving rows leaves no placeholder over. -/
theorem leavesNone_resolveRows (rows : List (List Expr)) : LeavesNone (scope.resolveRows rows) :=
  leavesNone_mapM scope.leavesNone_resolveAll

/-- Resolving an expression that may be missing leaves no placeholder over. -/
theorem leavesNone_resolveOption (e : Option Expr) : LeavesNone (scope.resolveOption e) := by
  cases e with
  | none => trivial
  | some e => exact (e.leavesNone_resolve scope).bind fun _ _ => trivial

/-- Resolving projected items leaves no placeholder over. -/
theorem leavesNone_resolveItems (items : List SelectItem) : LeavesNone (scope.resolveItems items) :=
  leavesNone_mapM fun item => (item.expr.leavesNone_resolve scope).bind fun _ _ => trivial

/-- Resolving order keys leaves no placeholder over. -/
theorem leavesNone_resolveKeys (keys : List OrderKey) : LeavesNone (scope.resolveKeys keys) :=
  leavesNone_mapM fun key => (key.expr.leavesNone_resolve scope).bind fun _ _ => trivial

/-- Resolving assignments leaves no placeholder over. -/
theorem leavesNone_resolveAssignments (assignments : List Assignment) :
    LeavesNone (scope.resolveAssignments assignments) :=
  leavesNone_mapM fun a => (a.value.leavesNone_resolve scope).bind fun _ _ => trivial

end Scope

/-- Resolving an action upon a conflict leaves no placeholder over. -/
theorem ConflictAction.leavesNone_resolve (scope : Scope) (action : ConflictAction) :
    LeavesNone (action.resolve scope) := by
  cases action with
  | doNothing => trivial
  | doUpdate assignments =>
    have hassignments := scope.leavesNone_resolveAssignments assignments
    exact leavesNone_ite (ends_error rfl) (hassignments.bind fun _ _ => trivial)

/-- Lacking a capability is no error about placeholders. -/
theorem Dialect.leavesNone_require (d : Dialect) (c : Capability) : LeavesNone (d.require c) :=
  leavesNone_ite trivial (ends_error rfl)

/-- What the check of a join refuses is no placeholder. -/
theorem JoinKind.leavesNone_check (d : Dialect) (kind : JoinKind) (condition : Option Expr) :
    LeavesNone (kind.check d condition) :=
  leavesNone_ite (ends_error rfl) (leavesNone_ite (ends_error rfl)
    (leavesNone_ite trivial (ends_error rfl)))

/-- What the check of rows refuses is no placeholder. -/
theorem Insert.leavesNone_checkRows (i : Insert) (rows : List (List Expr)) :
    LeavesNone (i.checkRows rows) := by
  unfold Insert.checkRows
  split
  · exact ends_error rfl
  · simp only
    split
    · exact ends_error rfl
    · trivial

/-- A statement without rows is refused for what it is, not for a placeholder. -/
theorem Statement.leavesNone_asRows (kind : QueryKind) (s : Statement) :
    LeavesNone (s.asRows kind) :=
  leavesNone_ite (ends_error rfl) trivial

/-- What cannot return items is refused for what it is, not for a placeholder. -/
theorem Statement.leavesNone_addReturning (items : List SelectItem) (kind : QueryKind)
    (s : Statement) : LeavesNone (s.addReturning items kind) := by
  cases s with
  | insert | update | delete => exact leavesNone_ite (ends_error rfl) trivial
  | _ => exact ends_error rfl

namespace Source

variable {source : Source} (h : LeavesNone source.statement) (stage : QueryKind)

include h

/-- Asking a source for its rows leaves no placeholder over, if the source leaves none. -/
theorem leavesNone_rows : LeavesNone (source.rows stage) :=
  h.bind fun _ _ => leavesNone_ite (ends_error rfl) trivial

/-- Asking a source for its SELECT leaves no placeholder over, if the source leaves none. -/
theorem leavesNone_block (clause : Clause) : LeavesNone (source.block stage clause) := by
  rw [Source.block_eq_rows]
  exact (leavesNone_rows h stage).bind fun _ _ => trivial

/-- Asking a source for its INSERT leaves no placeholder over, if the source leaves none. -/
theorem leavesNone_insert : LeavesNone (source.insert stage) := by
  refine h.bind fun s _ => ?_
  cases s with
  | insert i => exact leavesNone_ite (ends_error rfl) trivial
  | _ => exact ends_error rfl

/-- Asking a source for its UPDATE leaves no placeholder over, if the source leaves none. -/
theorem leavesNone_update : LeavesNone (source.update stage) := by
  refine h.bind fun s _ => ?_
  cases s with
  | update u => exact leavesNone_ite (ends_error rfl) trivial
  | _ => exact ends_error rfl

/-- Asking a source for its DELETE leaves no placeholder over, if the source leaves none. -/
theorem leavesNone_delete : LeavesNone (source.delete stage) := by
  refine h.bind fun s _ => ?_
  cases s with
  | delete x => exact leavesNone_ite (ends_error rfl) trivial
  | _ => exact ends_error rfl

end Source

mutual

/-- Lowering reports placeholders that it cannot fill in, and leaves none over. -/
theorem Query.leavesNone_lower (d : Dialect) : ∀ q : Query, LeavesNone (q.lower d)
  | .table _ | .insertInto .. | .update _ | .deleteFrom _ => trivial
  | .setOperation op all left right => by
    have hleft := Query.leavesNone_lower d left
    have hright := Query.leavesNone_lower d right
    simp only [Query.lower]
    refine leavesNone_ite (ends_error rfl) ?_
    refine hleft.bind fun left' _ => (left'.leavesNone_asRows _).bind fun _ _ => ?_
    exact hright.bind fun right' _ => (right'.leavesNone_asRows _).bind fun _ _ => trivial
  | .withCtes recursive ctes main => by
    have hctes := Cte.leavesNone_lowerAll d ctes
    have hmain := Query.leavesNone_lower d main
    simp only [Query.lower]
    refine (d.leavesNone_require .cte).bind fun _ _ => leavesNone_ite (ends_error rfl) ?_
    exact hctes.bind fun _ _ => hmain.bind fun _ _ => trivial
  | .step source stage => by
    simp only [Query.lower]
    exact Stage.leavesNone_lower d _ ⟨_, _, source.lower d⟩ (Query.leavesNone_lower d source) stage
termination_by structural q => q

/-- Lowering the entries of a WITH leaves no placeholder over. -/
theorem Cte.leavesNone_lowerAll (d : Dialect) : ∀ ctes : List (Cte Query),
    LeavesNone (Cte.lowerAll d ctes)
  | [] => trivial
  | ⟨_, _, body⟩ :: ctes => by
    simp only [Cte.lowerAll]
    exact (Query.leavesNone_lower d body).bind fun _ _ =>
      (Cte.leavesNone_lowerAll d ctes).bind fun _ _ => trivial
termination_by structural ctes => ctes

/-- Lowering what is joined leaves no placeholder over. -/
theorem JoinTarget.leavesNone_lower (d : Dialect) : ∀ target : JoinTarget Query,
    LeavesNone (JoinTarget.lower d target)
  | .table _ => trivial
  | .lateral body _ => by
    simp only [JoinTarget.lower]
    exact (d.leavesNone_require .lateral).bind fun _ _ =>
      (Query.leavesNone_lower d body).bind fun body' _ =>
        (body'.leavesNone_asRows _).bind fun _ _ => trivial
termination_by structural target => target

/-- Lowering a stage leaves no placeholder over, if lowering what it follows leaves none. -/
theorem Stage.leavesNone_lower (d : Dialect) (scope : Scope) (source : Source)
    (h : LeavesNone source.statement) : ∀ stage : Stage,
      LeavesNone (stage.lower d scope source)
  | .filter e | .having e | .limit e | .offset e => by
    simp only [Stage.lower]
    exact (e.leavesNone_resolve scope).bind fun _ _ =>
      (Source.leavesNone_block h _ _).bind fun _ _ => trivial
  | .join target condition kind => by
    simp only [Stage.lower]
    refine (kind.leavesNone_check d condition).bind fun _ _ =>
      (scope.leavesNone_resolveOption condition).bind fun _ _ => ?_
    exact (JoinTarget.leavesNone_lower d target).bind fun _ _ =>
      (Source.leavesNone_block h _ _).bind fun _ _ => trivial
  | .select _ items => by
    simp only [Stage.lower]
    refine leavesNone_ite (ends_error rfl) ?_
    exact (scope.leavesNone_resolveItems items).bind fun _ _ =>
      (Source.leavesNone_block h _ _).bind fun _ _ => trivial
  | .orderBy keys => by
    simp only [Stage.lower]
    refine leavesNone_ite (ends_error rfl) ?_
    exact (scope.leavesNone_resolveKeys keys).bind fun _ _ =>
      (Source.leavesNone_block h _ _).bind fun _ _ => trivial
  | .distinct => by
    simp only [Stage.lower]
    exact (Source.leavesNone_block h _ _).bind fun _ _ => trivial
  | .groupBy [] => by
    simp only [Stage.lower]
    exact Source.leavesNone_rows h _
  | .groupBy (key :: keys) => by
    simp only [Stage.lower]
    exact (scope.leavesNone_resolveAll (key :: keys)).bind fun _ _ =>
      (Source.leavesNone_block h _ _).bind fun _ _ => trivial
  | .values rows => by
    simp only [Stage.lower]
    refine (Source.leavesNone_insert h _).bind fun i _ => leavesNone_ite (ends_error rfl) ?_
    exact (i.leavesNone_checkRows rows).bind fun _ _ =>
      (scope.leavesNone_resolveRows rows).bind fun _ _ => trivial
  | .insertSelect rows => by
    simp only [Stage.lower]
    refine (Source.leavesNone_insert h _).bind fun i _ => leavesNone_ite (ends_error rfl) ?_
    exact (Query.leavesNone_lower d rows).bind fun body _ =>
      (body.leavesNone_asRows _).bind fun _ _ => trivial
  | .onConflict target action => by
    simp only [Stage.lower]
    refine (d.leavesNone_require .upsert).bind fun _ _ =>
      (Source.leavesNone_insert h _).bind fun i _ => leavesNone_ite (ends_error rfl) ?_
    exact (action.leavesNone_resolve scope).bind fun _ _ => trivial
  | .set assignments => by
    simp only [Stage.lower]
    refine leavesNone_ite (ends_error rfl) ?_
    refine (scope.leavesNone_resolveAssignments assignments).bind fun _ _ =>
      (Source.leavesNone_update h _).bind fun u _ => ?_
    exact leavesNone_ite trivial (ends_error rfl)
  | .updateWhere e => by
    simp only [Stage.lower]
    exact (e.leavesNone_resolve scope).bind fun _ _ =>
      (Source.leavesNone_update h _).bind fun _ _ => trivial
  | .deleteWhere e => by
    simp only [Stage.lower]
    exact (e.leavesNone_resolve scope).bind fun _ _ =>
      (Source.leavesNone_delete h _).bind fun _ _ => trivial
  | .returning _ items => by
    simp only [Stage.lower]
    refine (d.leavesNone_require .returning).bind fun _ _ => leavesNone_ite (ends_error rfl) ?_
    exact (scope.leavesNone_resolveItems items).bind fun _ _ =>
      h.bind fun s _ => s.leavesNone_addReturning _ _
termination_by structural stage => stage

end

end Lowering

section Writing

variable {d : Dialect}

/-- An expression in which no placeholder is left can only fail to be written for another reason. -/
theorem Expr.leavesIn_of_placeholder? {e : Expr} (h : e.placeholder? = none) :
    e.LeavesIn fun err => err.isLeftOver = false := by
  cases e with
  | placeholder name => cases h
  | _ => trivial

/-- The statement of a query has no placeholder in its expressions. -/
theorem Query.placeholder?_of_lower {q : Query} {s : Statement} (h : q.lower d = .ok s)
    {e : Expr} (he : e ∈ s.exprs) : ∀ x ∈ e.parts, x.placeholder? = none := by
  rcases (Query.carries_lower d h).mem he with rfl | ⟨y, -, hy⟩
  · exact List.forall_mem_singleton.mpr rfl
  · exact Expr.placeholder?_of_resolve hy

/-- The statement of a query is written without coming upon a placeholder, if the nested queries
are. -/
theorem Query.ends_render_lower {f : Query → Rendered} {q : Query} {s : Statement}
    (hf : ∀ q', Ends Token.Balanced (fun err => err.isLeftOver = false) (f q'))
    (h : q.lower d = .ok s) :
    Ends Token.Balanced (fun err => err.isLeftOver = false) (s.render d f) := by
  have hE : CompileError.CoversOthers fun err => err.isLeftOver = false := fun _ herr => herr
  refine Statement.ends_render hE fun e he => Expr.ends_render hE (fun x hx => ?_) fun q' _ => hf q'
  exact Expr.leavesIn_of_placeholder? (Query.placeholder?_of_lower h he x hx)

/-- A query that was lowered is one that a statement was made from, and nothing else is asked. -/
theorem Query.ends_lower (q : Query) :
    Ends (fun s => q.lower d = .ok s) (fun err => err.isLeftOver = false) (q.lower d) := by
  have hlower := Query.leavesNone_lower d q
  cases heq : q.lower d with
  | ok s => exact ends_ok rfl
  | error err => exact ends_error (hlower.error_of_eq heq)

/-- A query is written in balanced brackets, or refused for something else than a placeholder left
over. -/
theorem Query.ends_renderRows (limit : Nat) : ∀ q : Query,
    Ends Token.Balanced (fun err => err.isLeftOver = false) (q.renderRows d limit) := by
  induction limit with
  | zero => exact fun _ => ends_error rfl
  | succ limit ih =>
    intro q
    refine Ends.bind (P := fun s => q.lower d = .ok s) ?_ fun s hs => Query.ends_render_lower ih hs
    refine q.ends_lower.bind fun s hs => ?_
    unfold Statement.asRows
    split
    · exact ends_error rfl
    · exact ends_ok hs

/-- Compiling a query leaves no placeholder over. -/
theorem Query.leavesNone_compile (q : Query) : LeavesNone (q.compile d) := by
  have hrender : Ends Token.Balanced (fun err => err.isLeftOver = false) (q.render d) :=
    q.ends_lower.bind fun s hs => Query.ends_render_lower (Query.ends_renderRows q.depth) hs
  exact hrender.bind fun _ _ => trivial

/-- Writing a lock leaves no placeholder over. -/
theorem Command.leavesNone_renderLock (kind : CommandKind) (key : Expr) (taken : Bool) :
    LeavesNone (Command.renderLock d kind key taken) := by
  refine (d.leavesNone_require _).bind fun _ _ => ?_
  split
  · exact ends_error rfl
  · have hkey : Ends (fun key' => ∀ x ∈ key'.parts, x.placeholder? = none)
        (fun err => err.isLeftOver = false) (key.resolve Command.scope) := by
      cases heq : key.resolve Command.scope with
      | ok key' => exact ends_ok (Expr.placeholder?_of_resolve heq)
      | error err => exact ends_error ((key.leavesNone_resolve _).error_of_eq heq)
    refine hkey.bind fun key' hkey' => ?_
    have hwritten : Ends Token.Unbroken (fun err => err.isLeftOver = false)
        (key'.render d (Query.renderRows d key'.depth)) :=
      Expr.ends_render (fun _ herr => herr)
        (fun x hx => Expr.leavesIn_of_placeholder? (hkey' x hx))
        fun q _ => Query.ends_renderRows key'.depth q
    exact hwritten.bind fun _ _ => trivial

/-- Compiling a command leaves no placeholder over. -/
theorem Command.leavesNone_compile (c : Command) : LeavesNone (c.compile d) := by
  have hrender : LeavesNone (c.render d) := by
    cases c with
    | savepoint | releaseSavepoint | rollbackToSavepoint =>
      exact (d.leavesNone_require _).bind fun _ _ => trivial
    | advisoryLock key | advisoryUnlock key => exact Command.leavesNone_renderLock _ key _
    | copyIn table columns =>
      refine (d.leavesNone_require _).bind fun _ _ => ?_
      split
      · exact ends_error rfl
      · trivial
  exact hrender.bind fun _ _ => trivial

end Writing

/-- A statement that a query is lowered to has no placeholder in any part of its expressions, and so
neither a query nor a command is ever refused because one was left over. -/
theorem placeholder_not_mem_parts (d : Dialect) :
    (∀ (q : Query) (s : Statement), q.lower d = .ok s →
      ∀ e ∈ s.exprs, ∀ name, Expr.placeholder name ∉ e.parts) ∧
    (∀ (q : Query) (e : Expr) (field : String),
      q.compile d ≠ .error (.resolution e field .leftOver)) ∧
    ∀ (c : Command) (e : Expr) (field : String),
      c.compile d ≠ .error (.resolution e field .leftOver) := by
  refine ⟨?_, ?_, ?_⟩
  · intro q s hs e he name hname
    have hnone := Query.placeholder?_of_lower hs he _ hname
    cases hnone
  · intro q e field heq
    have hleft := (Query.leavesNone_compile q).error_of_eq heq
    cases hleft
  · intro c e field heq
    have hleft := (Command.leavesNone_compile c).error_of_eq heq
    cases hleft

/-- A query with placeholders in a WITH body that modifies data, in its main query and in a query
nested there. -/
def Query.manyFields : Query :=
  .withCtes false
    [⟨"moved", [], .step (.step (.step (.update "stock")
      (.set [⟨"left", .unary .minus (.placeholder "left")⟩]))
      (.updateWhere (.placeholder "open")))
      (.returning (.row none ["id"]) [⟨.placeholder "id", none⟩])⟩]
    (.step (.table "moved") (.filter (.binary .and (.unary .not (.placeholder "id"))
      (.existence (.step (.table "log") (.filter (.placeholder "seen"))) true))))

/-- In the sample, four expressions have had their placeholders filled in. -/
theorem placeholder_not_mem_parts_manyFields : ∃ s,
    Query.manyFields.lower Profile.postgres.dialect = .ok s ∧ s.exprs.length = 4 ∧
      (∀ e ∈ s.exprs, ∀ name, Expr.placeholder name ∉ e.parts) ∧
      ∀ e field, Query.manyFields.compile Profile.postgres.dialect ≠
        .error (.resolution e field .leftOver) := by
  have hfilled := placeholder_not_mem_parts Profile.postgres.dialect
  exact ⟨_, rfl, rfl, hfilled.1 Query.manyFields _ rfl, hfilled.2.1 Query.manyFields⟩

end SqlAlgebra
