import SqlAlgebra.Compile
import SqlAlgebra.Proofs.Agreement
import SqlAlgebra.Proofs.Containment

/-!
# Lowering nested queries late

A query in an expression is lowered only when writing comes to it, so that lowering and writing go
on in turns. This recursion is left open here: `Query.lowerWith` takes the statements of the row
queries that it asks for from outside, as writing takes the tokens of nested queries. What is asked
for is always inside the query at hand, and on a deeper level. Therefore the recursion ends, goes no
deeper than queries are nested, and is what compiling computes.
-/

namespace SqlAlgebra

section Dependence

variable {α β γ : Type}

/-- The outcome depends on what is answered for `a`: answers that differ for `a` alone can lead to
different outcomes. -/
def DependsAt (outcome : (α → β) → γ) (a : α) : Prop :=
  ∃ f g : α → β, (∀ b, b ≠ a → f b = g b) ∧ outcome f ≠ outcome g

/-- What the answers of some kind determine depends on no other answers. -/
theorem DependsAt.of_congr {outcome : (α → β) → γ} {P : α → Prop} {a : α}
    (h : DependsAt outcome a)
    (hcongr : ∀ f g : α → β, (∀ b, P b → f b = g b) → outcome f = outcome g) : P a := by
  obtain ⟨f, g, hfg, hne⟩ := h
  by_contra ha
  refine hne (hcongr f g fun b hb => hfg b ?_)
  rintro rfl
  exact ha hb

/-- An outcome that fails when one of the answers does depends on this answer. -/
theorem DependsAt.of_error {ε : Type} [DecidableEq α] {outcome : (α → Except ε β) → Except ε γ}
    {a : α} (b : β) (err : ε) {c : γ} (hok : outcome (fun _ => .ok b) = .ok c)
    (herror : outcome (fun x => if x = a then .error err else .ok b) = .error err) :
    DependsAt outcome a := by
  refine ⟨fun _ => .ok b, fun x => if x = a then .error err else .ok b, ?_, ?_⟩
  · intro x hx
    exact (if_neg hx).symm
  · rw [hok, herror]
    exact nofun

end Dependence

section OpenLowering

/-- What a join adds, the statement of a lateral body being given. -/
def JoinTarget.lowerWith (d : Dialect) (rows : Query → Except CompileError Statement) :
    JoinTarget Query → Except CompileError (JoinTarget Statement)
  | .table name => .ok (.table name)
  | .lateral body name => do
    d.require .lateral
    return .lateral (← rows body) name

/-- The statement of a stage upon its source, the statements of the queries that the stage holds
being given. -/
def Stage.lowerWith (d : Dialect) (rows : Query → Except CompileError Statement) (scope : Scope)
    (source : Source) : Stage → Except CompileError Statement
  | .join target condition kind => do
    kind.check d condition
    let condition ← scope.resolveOption condition
    let target ← JoinTarget.lowerWith d rows target
    let block ← source.block .join .join
    return .select { block with joins := block.joins ++ [⟨kind, target, condition⟩] }
  | .insertSelect query => do
    let insert ← source.insert .insertSelect
    if insert.source.isSome then .error (source.misplaced .insertSelect)
    let body ← rows query
    return .insert { insert with source := some (.select body) }
  | stage => stage.lower d scope source

mutual

/-- The statement for a query, `rows` giving those of the queries that are read for their rows. -/
def Query.lowerWith (d : Dialect) (rows : Query → Except CompileError Statement) :
    Query → Except CompileError Statement
  | .setOperation op all left right => do
    if all && !d.supportsSetAll op then .error (.unrepresentable d.name (.setAll op))
    let left ← rows left
    let right ← rows right
    return .setOperation op all left right
  | .withCtes recursive ctes main => do
    d.require .cte
    if ctes.isEmpty then .error (.structural .emptyWith)
    let ctes ← Cte.lowerAllWith d rows ctes
    return .withCtes recursive ctes (← main.lowerWith d rows)
  | .step source stage =>
    stage.lowerWith d rows (Query.step source stage).scope
      ⟨source.kind, source.scope.derivedName, source.lowerWith d rows⟩
  | root => root.lower d
termination_by structural q => q

def Cte.lowerAllWith (d : Dialect) (rows : Query → Except CompileError Statement) :
    List (Cte Query) → Except CompileError (List (Cte Statement))
  | [] => .ok []
  | ⟨name, columns, body⟩ :: ctes => do
    let body ← body.lowerWith d rows
    return ⟨name, columns, body⟩ :: (← Cte.lowerAllWith d rows ctes)
termination_by structural ctes => ctes

end

variable {d : Dialect}

/-- With the statements that lowering gives, a stage is lowered as it is. -/
theorem Stage.lowerWith_lowerRows (scope : Scope) (source : Source) (stage : Stage) :
    stage.lowerWith d (Query.lowerRows d) scope source = stage.lower d scope source := by
  cases stage with
  | join target condition kind =>
    have htarget :
        JoinTarget.lowerWith d (Query.lowerRows d) target = JoinTarget.lower d target := by
      cases target with
      | table name => rfl
      | lateral body name => simp [JoinTarget.lowerWith, JoinTarget.lower, Query.lowerRows]
    simp only [Stage.lowerWith, Stage.lower, htarget]
  | insertSelect query => simp [Stage.lowerWith, Stage.lower, Query.lowerRows]
  | _ => rfl

mutual

/-- Lowering asks for nothing but the statements of row queries. -/
theorem Query.lowerWith_lowerRows : ∀ q : Query, q.lowerWith d (Query.lowerRows d) = q.lower d
  | .setOperation op all left right => by simp [Query.lowerWith, Query.lower, Query.lowerRows]
  | .withCtes recursive ctes main => by
    simp only [Query.lowerWith, Query.lower, Cte.lowerAllWith_lowerRows ctes,
      Query.lowerWith_lowerRows main]
  | .step source stage => by
    simp only [Query.lowerWith, Query.lower, Query.lowerWith_lowerRows source,
      Stage.lowerWith_lowerRows]
  | .table _ | .insertInto .. | .update _ | .deleteFrom _ => by simp only [Query.lowerWith]
termination_by structural q => q

/-- With the statements that lowering gives, the entries of a WITH are lowered as they are. -/
theorem Cte.lowerAllWith_lowerRows : ∀ ctes : List (Cte Query),
    Cte.lowerAllWith d (Query.lowerRows d) ctes = Cte.lowerAll d ctes
  | [] => rfl
  | ⟨name, columns, body⟩ :: ctes => by
    simp only [Cte.lowerAllWith, Cte.lowerAll, Query.lowerWith_lowerRows body,
      Cte.lowerAllWith_lowerRows ctes]
termination_by structural ctes => ctes

end

variable {f g : Query → Except CompileError Statement}

/-- Lowering a stage asks only for the queries that it holds. -/
theorem Stage.lowerWith_congr {scope : Scope} {source : Source} {stage : Stage}
    (h : ∀ p ∈ stage.bodies, f p = g p) :
    stage.lowerWith d f scope source = stage.lowerWith d g scope source := by
  cases stage with
  | join target condition kind =>
    cases target with
    | table name => rfl
    | lateral body name =>
      simp only [Stage.lowerWith, JoinTarget.lowerWith, h body (List.mem_singleton_self body)]
  | insertSelect query => simp only [Stage.lowerWith, h query (List.mem_singleton_self query)]
  | _ => rfl

mutual

/-- Lowering a query asks for queries below it only. -/
theorem Query.lowerWith_congr : ∀ {q : Query}, (∀ p, p.Below q → f p = g p) →
    q.lowerWith d f = q.lowerWith d g
  | .setOperation op all left right, h => by
    have hleft := h left (.of_mem (by simp [Query.bodies]))
    have hright := h right (.of_mem (by simp [Query.bodies]))
    simp only [Query.lowerWith, hleft, hright]
  | .withCtes recursive ctes main, h => by
    -- The bodies and the main query stay on the level of the WITH and are lowered with it.
    have hctes : Cte.lowerAllWith d f ctes = Cte.lowerAllWith d g ctes :=
      Cte.lowerAllWith_congr fun cte hcte p hp =>
        h p (hp.up (by simpa [Query.sources] using Or.inl ⟨cte, hcte, rfl⟩))
    have hmain : main.lowerWith d f = main.lowerWith d g :=
      Query.lowerWith_congr fun p hp => h p (hp.up (by simp [Query.sources]))
    simp only [Query.lowerWith, hctes, hmain]
  | .step source stage, h => by
    have hsource : source.lowerWith d f = source.lowerWith d g :=
      Query.lowerWith_congr fun p hp => h p (hp.up (by simp [Query.sources]))
    have hstage (p : Query) (hp : p ∈ stage.bodies) : f p = g p :=
      h p (.of_mem (List.mem_append_left _ hp))
    simp only [Query.lowerWith, hsource, Stage.lowerWith_congr hstage]
  | .table _, _ | .insertInto .., _ | .update _, _ | .deleteFrom _, _ => by
    simp only [Query.lowerWith]
termination_by structural q => q

/-- Lowering the entries of a WITH asks only for what is below their queries. -/
theorem Cte.lowerAllWith_congr : ∀ {ctes : List (Cte Query)},
    (∀ cte ∈ ctes, ∀ p, p.Below cte.body → f p = g p) →
      Cte.lowerAllWith d f ctes = Cte.lowerAllWith d g ctes
  | [], _ => rfl
  | ⟨name, columns, body⟩ :: ctes, h => by
    rw [List.forall_mem_cons] at h
    have hbody : body.lowerWith d f = body.lowerWith d g := Query.lowerWith_congr h.1
    simp only [Cte.lowerAllWith, hbody, Cte.lowerAllWith_congr h.2]
termination_by structural ctes => ctes

end

end OpenLowering

section Writing

variable {d : Dialect} {f g : Query → Rendered}

/-- A dialect spells like itself. -/
theorem Dialect.SpellsLike.refl (d : Dialect) : d.SpellsLike d :=
  ⟨rfl, rfl, rfl, rfl, rfl, rfl, rfl, rfl, rfl, rfl, rfl, rfl⟩

/-- Writing a statement asks for the queries nested in its expressions only. -/
theorem Statement.render_congr_nested {s : Statement} (h : ∀ p ∈ s.nestedQueries, f p = g p) :
    s.render d f = s.render d g := by
  have hagrees (n : Node) : n.Agrees d d := ⟨fun _ _ => rfl, fun _ _ => rfl⟩
  refine Statement.render_congr (.refl d) fun x hx => ?_
  refine Expr.render_congr (.refl d) (.ambiguous "") (fun n _ => hagrees n) fun p hp => ?_
  exact h p (List.mem_flatMap.mpr ⟨x, hx, hp⟩)

/-- Writing the statement of a query asks for the queries nested in the query only. -/
theorem Query.render_lower_congr_nested {q : Query} {s : Statement} (hs : q.lower d = .ok s)
    (h : ∀ p ∈ q.nestedQueries, f p = g p) : s.render d f = s.render d g :=
  Statement.render_congr_nested fun p hp => h p ((Query.mem_nestedQueries_lower hs).mp hp)

/-- Answers that agree at the queries nested in a query lead to the same outcome, be it read for its
rows or not. -/
theorem Query.bind_render_congr {q : Query} {x : Except CompileError Statement}
    (hx : ∀ s, x = .ok s → q.lower d = .ok s) (h : ∀ p ∈ q.nestedQueries, f p = g p) :
    (do (← x).render d f) = (do (← x).render d g) := by
  cases x with
  | error _ => rw [error_bind, error_bind]
  | ok s =>
    rw [ok_bind, ok_bind]
    exact Query.render_lower_congr_nested (hx s rfl) h

/-- What a query is lowered to for its rows is what it is lowered to. -/
theorem Query.lower_of_lowerRows {q : Query} (s : Statement) (h : q.lowerRows d = .ok s) :
    q.lower d = .ok s :=
  (Query.lowerRows_eq_ok.mp h).1

/-- A limit above the nesting depth plays no part. -/
theorem Query.renderRows_eq_of_depth_lt {q : Query} {m n : Nat} (hm : q.depth < m)
    (hn : q.depth < n) : q.renderRows d m = q.renderRows d n := by
  induction m generalizing q n with
  | zero => cases hm
  | succ m ih =>
    cases n with
    | zero => cases hn
    | succ n =>
      rw [Query.renderRows, Query.renderRows]
      refine Query.bind_render_congr Query.lower_of_lowerRows fun p hp => ?_
      have hp := Query.depth_of_nested hp
      exact ih (by omega) (by omega)

end Writing

section Recursion

namespace Query

/-- Lowering the query asks for the statement of `p`. -/
def LoweringAsks (d : Dialect) (q p : Query) : Prop := DependsAt (fun rows => q.lowerWith d rows) p

/-- Writing the statement of the query hands `p` back to be lowered. -/
def WritingAsks (d : Dialect) (q p : Query) : Prop :=
  ∃ s, q.lower d = .ok s ∧ DependsAt (fun rows => s.render d rows) p

/-- Compiling the query asks for the rows of `p`. -/
def Asks (d : Dialect) (q p : Query) : Prop := q.LoweringAsks d p ∨ q.WritingAsks d p

variable {d : Dialect} {q p : Query}

/-- What writing asks for is nested in the query. -/
theorem WritingAsks.mem (h : q.WritingAsks d p) : p ∈ q.nestedQueries := by
  obtain ⟨s, hs, hasks⟩ := h
  exact hasks.of_congr fun f g hfg => render_lower_congr_nested hs hfg

/-- Whatever is asked for is below the query at hand. -/
theorem Asks.below (h : q.Asks d p) : p.Below q := by
  rcases h with hasks | hasks
  · exact hasks.of_congr fun f g hfg => lowerWith_congr hfg
  · exact below_of_nested hasks.mem

/-- All that is asked for in turn is inside the query at the start. -/
theorem inside_of_isChain {ps : List Query} (h : List.IsChain (Asks d) (q :: ps)) :
    ∀ p ∈ ps, p.Inside q := by
  induction ps generalizing q with
  | nil => simp
  | cons c ps ih =>
    rw [List.isChain_cons_cons] at h
    have hc := h.1.below.inside
    rw [List.forall_mem_cons]
    exact ⟨hc, fun p hp => (ih h.2 p hp).trans hc⟩

end Query

/-- A chain along which a number falls is no longer than the number at its start. -/
theorem length_le_of_isChain {α : Type} {R : α → α → Prop} {m : α → Nat}
    (hR : ∀ {a b}, R a b → m b < m a) {a : α} {as : List α}
    (h : List.IsChain R (a :: as)) : as.length ≤ m a := by
  induction as generalizing a with
  | nil => exact Nat.zero_le _
  | cons b as ih =>
    rw [List.isChain_cons_cons] at h
    have hb := ih h.2
    have hlt := hR h.1
    rw [List.length_cons]
    omega

/-- What is answered for queries that are read for their rows: the statements that they are lowered
to, and the tokens that these are written as. -/
structure Answers where
  lowered : Query → Except CompileError Statement
  written : Query → Rendered

/-- The answers are those of the recursion: lowering a query asks for answers, and writing the
statement it gives asks for others. There is no limit to how often this happens. -/
structure Answers.Solves (d : Dialect) (r : Answers) : Prop where
  lowered : ∀ q, r.lowered q = do (← q.lowerWith d r.lowered).asRows q.kind
  written : ∀ q, r.written q = do (← r.lowered q).render d r.written

/-- The answers that compiling computes. -/
def Answers.compiled (d : Dialect) : Answers where
  lowered := Query.lowerRows d
  written q := q.renderRows d (q.depth + 1)

namespace Answers

variable {d : Dialect} {r : Answers}

/-- The answers that compiling computes are those of the recursion. -/
theorem solves_compiled (d : Dialect) : (compiled d).Solves d where
  lowered q := by
    rw [compiled, Query.lowerWith_lowerRows]
    rfl
  written q := by
    simp only [compiled, Query.renderRows]
    refine Query.bind_render_congr Query.lower_of_lowerRows fun p hp => ?_
    exact Query.renderRows_eq_of_depth_lt (Query.depth_of_nested hp) (Nat.lt_succ_self _)

/-- The recursion has no other answer for how a query is lowered. -/
theorem Solves.lowered_eq (h : r.Solves d) (q : Query) : r.lowered q = q.lowerRows d := by
  -- What lowering `q` asks for is smaller than `q`, so the answers for it are settled already.
  have hbelow (p : Query) (hp : p.Below q) : r.lowered p = p.lowerRows d := h.lowered_eq p
  rw [h.lowered, Query.lowerWith_congr hbelow, Query.lowerWith_lowerRows]
  rfl
termination_by sizeOf q
decreasing_by exact hp.inside.sizeOf_lt

/-- The recursion has no other answer for how a query is written, as long as the limit is above its
depth. -/
theorem Solves.written_eq (h : r.Solves d) {limit : Nat} {q : Query} (hlimit : q.depth < limit) :
    r.written q = q.renderRows d limit := by
  induction limit generalizing q with
  | zero => cases hlimit
  | succ limit ih =>
    rw [h.written, h.lowered_eq, Query.renderRows]
    refine Query.bind_render_congr Query.lower_of_lowerRows fun p hp => ih ?_
    have hp := Query.depth_of_nested hp
    omega

/-- The recursion has no other answers than those that compiling computes. -/
theorem Solves.eq_compiled (h : r.Solves d) : r = compiled d := by
  obtain ⟨lowered, written⟩ := r
  have hlowered : lowered = Query.lowerRows d := funext h.lowered_eq
  have hwritten : written = (compiled d).written := by
    funext q
    exact h.written_eq (Nat.lt_succ_self _)
  rw [hlowered, hwritten]
  rfl

/-- A query is compiled as the recursion says. -/
theorem Solves.render_eq (h : r.Solves d) (q : Query) :
    q.render d = (do (← q.lowerWith d r.lowered).render d r.written) := by
  have hlowered : r.lowered = Query.lowerRows d := funext h.lowered_eq
  rw [hlowered, Query.lowerWith_lowerRows, Query.render]
  refine Query.bind_render_congr (fun _ hs => hs) fun p hp => ?_
  exact (h.written_eq (Query.depth_of_nested hp)).symm

end Answers

end Recursion

/-- The statement of a query nests the queries that the query nests, unchanged, and these are proper
parts of it. Whatever compiling a query asks for, at any depth of the recursion, is a proper part of
the query and smaller, so that the recursion ends: it is well-founded and goes no deeper than row
queries are nested, and as far as writing hands queries back, no deeper than they are nested in
expressions. With no limit set to it, the recursion has one solution, and this is what a query is
compiled by. -/
theorem lateLowering_ends (d : Dialect) :
    (∀ (q : Query) (s : Statement), q.lower d = .ok s →
      s.nestedQueries.Perm q.nestedQueries ∧ ∀ e ∈ s.exprs, ∀ p ∈ e.queries, p.Inside q) ∧
    (∀ (q : Query) (ps : List Query), List.IsChain (Query.Asks d) (q :: ps) →
      (∀ p ∈ ps, p.Inside q ∧ sizeOf p < sizeOf q) ∧ ps.length ≤ q.nesting) ∧
    (∀ (q : Query) (ps : List Query), List.IsChain (Query.WritingAsks d) (q :: ps) →
      ps.length ≤ q.depth) ∧
    (WellFounded fun p q : Query => q.Asks d p) ∧
    ∃ r : Answers, r.Solves d ∧ (∀ r' : Answers, r'.Solves d → r' = r) ∧
      ∀ q : Query, (q.render d = do (← q.lowerWith d r.lowered).render d r.written) ∧
        ∀ limit, q.depth < limit → q.renderRows d limit = r.written q := by
  refine ⟨fun q s hs => ⟨?_, fun e he p hp => ?_⟩, fun q ps h => ⟨fun p hp => ?_, ?_⟩,
    fun q ps h => ?_, ?_, ?_⟩
  · exact (Query.carries_lower d hs).queries
  · have hnested := (Query.mem_nestedQueries_lower hs).mp (List.mem_flatMap.mpr ⟨e, he, hp⟩)
    exact (Query.below_of_nested hnested).inside
  · have hinside := Query.inside_of_isChain h p hp
    exact ⟨hinside, hinside.sizeOf_lt⟩
  · exact length_le_of_isChain (m := Query.nesting) (fun hasks => hasks.below.nesting_lt) h
  · exact length_le_of_isChain (m := Query.depth) (fun hasks => Query.depth_of_nested hasks.mem) h
  · exact Subrelation.wf (fun hasks => hasks.below.inside.sizeOf_lt) (measure sizeOf).wf
  · have hsolves := Answers.solves_compiled d
    refine ⟨Answers.compiled d, hsolves, fun r' h => h.eq_compiled, fun q => ?_⟩
    exact ⟨hsolves.render_eq q, fun limit hlimit => (hsolves.written_eq hlimit).symm⟩

namespace Query

/-- The orders, if there were visits. -/
def visitedOrders : Query := (table "orders").filter (.existence (table "visits") false)

/-- The first of the users, if the orders name them. -/
def firstBuyer : Query :=
  ((table "users").limit (.literal (.int 1))).filter
    (.inList (.placeholder "id") [.subquery visitedOrders] false)

/-- The guests and that user. -/
def guestsOrBuyer : Query := .setOperation .union false (table "guests") firstBuyer

/-- Lowering the set operation asks for its operand. -/
theorem loweringAsks_firstBuyer :
    guestsOrBuyer.LoweringAsks Profile.postgres.dialect firstBuyer :=
  .of_error (.select (.ofOrigin (.table "t"))) (.structural .emptySelect) rfl rfl

/-- Writing the operand hands back a query, and writing this another one. -/
theorem writingAsks_firstBuyer : List.IsChain (WritingAsks Profile.postgres.dialect)
    [firstBuyer, visitedOrders, table "visits"] := by
  have horders : firstBuyer.WritingAsks Profile.postgres.dialect visitedOrders :=
    ⟨_, rfl, .of_error [] (.structural .emptySelect) rfl rfl⟩
  have hvisits : visitedOrders.WritingAsks Profile.postgres.dialect (table "visits") :=
    ⟨_, rfl, .of_error [] (.structural .emptySelect) rfl rfl⟩
  exact .cons_cons horders (.cons_cons hvisits (.singleton _))

end Query

/-- A filter upon a limit needs a derived table. The query in the filter is still handed back as it
is, and writing goes as deep as the queries are nested. -/
theorem lateLowering_ends_guestsOrBuyer :
    ∃ s, Query.guestsOrBuyer.lower Profile.postgres.dialect = .ok s ∧
      s.nestedQueries = [Query.visitedOrders] ∧ Query.visitedOrders.Inside Query.guestsOrBuyer ∧
      (Query.table "visits").Inside Query.guestsOrBuyer ∧ 3 ≤ Query.guestsOrBuyer.nesting ∧
      [Query.visitedOrders, Query.table "visits"].length ≤ Query.firstBuyer.depth ∧
      Query.firstBuyer.depth = 2 ∧
      ∃ r : Answers, r.Solves Profile.postgres.dialect ∧
        Query.firstBuyer.renderRows Profile.postgres.dialect 3 =
          r.written Query.firstBuyer := by
  obtain ⟨hnested, hchain, hwriting, -, r, hr, -, hcompiled⟩ :=
    lateLowering_ends Profile.postgres.dialect
  have hasks : List.IsChain (Query.Asks Profile.postgres.dialect)
      [Query.guestsOrBuyer, Query.firstBuyer, Query.visitedOrders, .table "visits"] :=
    .cons_cons (.inl Query.loweringAsks_firstBuyer)
      (Query.writingAsks_firstBuyer.imp fun _ _ => .inr)
  have hinside := hchain _ _ hasks
  refine ⟨_, rfl, rfl, ?_, ?_, hinside.2, ?_, rfl, r, hr, ?_⟩
  · exact (hnested Query.guestsOrBuyer _ rfl).2 _
      (List.mem_of_mem_getLast? rfl) _ (List.mem_singleton_self _)
  · exact (hinside.1 (.table "visits") (by simp)).1
  · exact hwriting _ _ Query.writingAsks_firstBuyer
  · exact (hcompiled Query.firstBuyer).2 3 (by decide)

end SqlAlgebra
