import SqlAlgebra.Proofs.Acceptance
import SqlAlgebra.Proofs.Agreement

/-!
# Dialects that lack a feature

A dialect from which a capability or an operator has been taken away writes a query as before, or
refuses it for the lack of just that. Which of the two happens is seen at the nodes of the query:
it is refused exactly if one of them needs what is missing.
-/

namespace SqlAlgebra

section Gated

variable {ε α β : Type} {refusal : ε}

/-- Wherever the first step has a result, the second has the same or ends in the given refusal. -/
def Gated (refusal : ε) (x y : Except ε α) : Prop :=
  ∀ a, x = .ok a → y = .ok a ∨ y = .error refusal

/-- A step is gated by itself. -/
theorem Gated.refl (x : Except ε α) : Gated refusal x x := by
  intro a ha
  exact .inl ha

/-- A step that fails gates any other. -/
theorem gated_error (e : ε) (y : Except ε α) : Gated refusal (.error e) y := by
  intro a ha
  cases ha

/-- The refusal itself is gated by any step. -/
theorem gated_refusal (x : Except ε α) : Gated refusal x (.error refusal) := by
  intro a _
  exact .inr rfl

/-- Sequences are gated if their steps are. -/
theorem Gated.bind {x y : Except ε α} {f g : α → Except ε β} (h : Gated refusal x y)
    (hfg : ∀ a, Gated refusal (f a) (g a)) : Gated refusal (x >>= f) (y >>= g) := by
  intro b hb
  obtain ⟨a, hx, hf⟩ := bind_eq_ok.mp hb
  rcases h a hx with hy | hy
  · rw [hy, ok_bind]
    exact hfg a b hf
  · rw [hy, error_bind]
    exact .inr rfl

/-- Steps that are gated may be followed by the same. -/
theorem Gated.bind_left {x y : Except ε α} (h : Gated refusal x y) (f : α → Except ε β) :
    Gated refusal (x >>= f) (y >>= f) :=
  h.bind fun a => .refl (f a)

/-- A choice is gated if both its sides are. -/
theorem Gated.ite {c : Prop} [Decidable c] {x x' y y' : Except ε α} (h : Gated refusal x y)
    (h' : Gated refusal x' y') :
    Gated refusal (if c then x else x') (if c then y else y') := by
  split
  · exact h
  · exact h'

/-- Steps on all items of a list are gated if each of them is. -/
theorem Gated.mapM {f g : α → Except ε β} {as : List α} (h : ∀ a ∈ as, Gated refusal (f a) (g a)) :
    Gated refusal (as.mapM f) (as.mapM g) := by
  induction as with
  | nil => exact .refl _
  | cons a as ih =>
    rw [List.forall_mem_cons] at h
    rw [List.mapM_cons, List.mapM_cons]
    exact h.1.bind fun b => (ih h.2).bind_left _

end Gated

/-- The second dialect differs from the first only in lacking what the refusal is about. -/
structure Dialect.Restricts (d e : Dialect) (refusal : CompileError) : Prop extends
    d.SpellsLike e where
  placeholder : d.placeholder = e.placeholder
  capability : ∀ c, d.supports c = e.supports c ∨
    e.supports c = false ∧ refusal = .capability e.name c
  operator : ∀ op, d.operator? op = e.operator? op ∨
    e.operator? op = none ∧ refusal = .unrepresentable e.name (.operator op)

section Rendering

variable {d e : Dialect} {refusal : CompileError} {f g : Query → Rendered}

mutual

/-- A restricted dialect writes an expression as before or refuses it. -/
theorem Expr.gated_render (h : d.Restricts e refusal) (hq : ∀ q, Gated refusal (f q) (g q)) :
    ∀ x : Expr, Gated refusal (x.render d f) (x.render e g)
  | .column .. | .placeholder _ | .parameter .. | .wildcard | .inList _ [] _ | .choice [] _ =>
    .refl _
  | .literal value => by
    have hvalue : value.render d = value.render e := by
      cases value <;> simp [Value.render, h.boolean]
    simp only [Expr.render, hvalue]
    exact .refl _
  | .binary op left right => by
    have hleft := Expr.gated_render h hq left
    have hright := Expr.gated_render h hq right
    rcases h.operator op with hop | ⟨hop, hrefusal⟩
    · simp only [Expr.render, hop, h.name]
      cases e.operator? op with
      | none => exact .refl _
      | some entry => exact hleft.bind fun _ => hright.bind_left _
    · simp only [Expr.render, hop, ← hrefusal]
      exact gated_refusal _
  | .unary op operand => by
    simp only [Expr.render]
    exact (Expr.gated_render h hq operand).bind_left _
  | .call name args distinct => by
    simp only [Expr.render]
    exact (Expr.gated_renderAll h hq args).bind_left _
  | .between subject low high negated => by
    simp only [Expr.render]
    have hsubject := Expr.gated_render h hq subject
    have hlow := Expr.gated_render h hq low
    have hhigh := Expr.gated_render h hq high
    exact hsubject.bind fun _ => hlow.bind fun _ => hhigh.bind_left _
  | .inList subject (value :: values) negated => by
    have hsubject := Expr.gated_render h hq subject
    have hvalues := Expr.gated_renderAll h hq (value :: values)
    by_cases hquery : ∃ q, value :: values = [.subquery q]
    · obtain ⟨q, hlist⟩ := hquery
      rw [hlist]
      simp only [Expr.render]
      exact hsubject.bind fun _ => (hq q).bind_left _
    · have hquery : ∀ q, value :: values ≠ [.subquery q] := not_exists.mp hquery
      rw [Expr.render_inList (List.cons_ne_nil _ _) hquery,
        Expr.render_inList (List.cons_ne_nil _ _) hquery]
      exact hsubject.bind fun _ => hvalues.bind_left _
  | .cast operand type => by
    have hoperand := Expr.gated_render h hq operand
    simp only [Expr.render, h.typeName, h.name]
    cases e.typeName? type with
    | none => exact .refl _
    | some name => exact hoperand.bind_left _
  | .subquery query => by
    simp only [Expr.render]
    exact (hq query).bind_left _
  | .existence query negated => by
    simp only [Expr.render]
    exact (hq query).bind_left _
  | .choice (branch :: branches) otherwise => by
    simp only [Expr.render]
    have hbranches := Branch.gated_renderAll h hq (branch :: branches)
    have hotherwise := Expr.gated_renderElse h hq otherwise
    exact hbranches.bind fun _ => hotherwise.bind_left _
  | .window name args partition order frame => by
    have hargs := Expr.gated_renderAll h hq args
    have hpartition := Expr.gated_renderAll h hq partition
    have horder := OrderKey.gated_renderAll h hq order
    rcases h.capability .window with hwindow | ⟨hwindow, hrefusal⟩
    · simp only [Expr.render, hwindow, h.name]
      cases e.supports .window with
      | false => exact .refl _
      | true => exact hargs.bind fun _ => hpartition.bind fun _ => horder.bind_left _
    · simp only [Expr.render, hwindow, ← hrefusal]
      exact gated_refusal _
termination_by structural x => x

/-- A restricted dialect writes a list of expressions as before or refuses it. -/
theorem Expr.gated_renderAll (h : d.Restricts e refusal) (hq : ∀ q, Gated refusal (f q) (g q)) :
    ∀ xs : List Expr, Gated refusal (Expr.renderAll d f xs) (Expr.renderAll e g xs)
  | [] => .refl _
  | x :: xs => by
    simp only [Expr.renderAll]
    exact (Expr.gated_render h hq x).bind fun _ => (Expr.gated_renderAll h hq xs).bind_left _
termination_by structural xs => xs

/-- A restricted dialect writes an ELSE as before or refuses it. -/
theorem Expr.gated_renderElse (h : d.Restricts e refusal) (hq : ∀ q, Gated refusal (f q) (g q)) :
    ∀ x : Option Expr, Gated refusal (Expr.renderElse d f x) (Expr.renderElse e g x)
  | none => .refl _
  | some x => by
    simp only [Expr.renderElse]
    exact (Expr.gated_render h hq x).bind_left _
termination_by structural x => x

/-- A restricted dialect writes branches as before or refuses them. -/
theorem Branch.gated_renderAll (h : d.Restricts e refusal) (hq : ∀ q, Gated refusal (f q) (g q)) :
    ∀ branches : List Branch,
      Gated refusal (Branch.renderAll d f branches) (Branch.renderAll e g branches)
  | [] => .refl _
  | ⟨condition, result⟩ :: branches => by
    simp only [Branch.renderAll]
    have hcondition := Expr.gated_render h hq condition
    have hresult := Expr.gated_render h hq result
    have hbranches := Branch.gated_renderAll h hq branches
    exact hcondition.bind fun _ => hresult.bind fun _ => hbranches.bind_left _
termination_by structural branches => branches

/-- A restricted dialect writes order keys as before or refuses them. -/
theorem OrderKey.gated_renderAll (h : d.Restricts e refusal)
    (hq : ∀ q, Gated refusal (f q) (g q)) : ∀ keys : List OrderKey,
      Gated refusal (OrderKey.renderAll d f keys) (OrderKey.renderAll e g keys)
  | [] => .refl _
  | ⟨x, direction, nulls⟩ :: keys => by
    simp only [OrderKey.renderAll, h.nulls]
    exact (Expr.gated_render h hq x).bind fun _ => (OrderKey.gated_renderAll h hq keys).bind_left _
termination_by structural keys => keys

end

/-- A restricted dialect writes projected items as before or refuses them. -/
theorem SelectItem.gated_renderAll (h : d.Restricts e refusal)
    (hq : ∀ q, Gated refusal (f q) (g q)) (items : List SelectItem) :
    Gated refusal (SelectItem.renderAll d f items) (SelectItem.renderAll e g items) := by
  refine Gated.bind_left (.mapM fun item _ => ?_) _
  exact (Expr.gated_render h hq item.expr).bind_left _

/-- A restricted dialect writes what is returned as before or refuses it. -/
theorem SelectItem.gated_renderReturning (h : d.Restricts e refusal)
    (hq : ∀ q, Gated refusal (f q) (g q)) (items : Option (List SelectItem)) :
    Gated refusal (SelectItem.renderReturning d f items)
      (SelectItem.renderReturning e g items) := by
  cases items with
  | none => exact .refl _
  | some items => exact (SelectItem.gated_renderAll h hq items).bind_left _

/-- A restricted dialect writes assignments as before or refuses them. -/
theorem Assignment.gated_renderAll (h : d.Restricts e refusal)
    (hq : ∀ q, Gated refusal (f q) (g q)) (assignments : List Assignment) :
    Gated refusal (Assignment.renderAll d f assignments)
      (Assignment.renderAll e g assignments) := by
  refine Gated.bind_left (.mapM fun a _ => ?_) _
  exact (Expr.gated_render h hq a.value).bind_left _

/-- A restricted dialect writes rows as before or refuses them. -/
theorem Expr.gated_renderRows (h : d.Restricts e refusal) (hq : ∀ q, Gated refusal (f q) (g q))
    (rows : List (List Expr)) :
    Gated refusal (Expr.renderRows d f rows) (Expr.renderRows e g rows) :=
  Gated.bind_left (.mapM fun row _ => Expr.gated_renderAll h hq row) _

/-- A restricted dialect writes a clause of conditions as before or refuses it. -/
theorem Expr.gated_renderAnd (h : d.Restricts e refusal) (hq : ∀ q, Gated refusal (f q) (g q))
    (keyword : String) (predicates : List Expr) :
    Gated refusal (Expr.renderAnd d f keyword predicates)
      (Expr.renderAnd e g keyword predicates) :=
  (Expr.gated_renderAll h hq predicates).bind_left _

/-- A restricted dialect writes a clause that lists expressions as before or refuses it. -/
theorem Expr.gated_renderClause (h : d.Restricts e refusal) (hq : ∀ q, Gated refusal (f q) (g q))
    (keyword : String) (xs : List Expr) :
    Gated refusal (Expr.renderClause d f keyword xs) (Expr.renderClause e g keyword xs) :=
  (Expr.gated_renderAll h hq xs).bind_left _

/-- A restricted dialect writes an ORDER BY as before or refuses it. -/
theorem OrderKey.gated_renderClause (h : d.Restricts e refusal)
    (hq : ∀ q, Gated refusal (f q) (g q)) (keys : List OrderKey) :
    Gated refusal (OrderKey.renderClause d f keys) (OrderKey.renderClause e g keys) :=
  (OrderKey.gated_renderAll h hq keys).bind_left _

/-- A restricted dialect writes the bounds of a page as before or refuses them. -/
theorem Expr.gated_renderPage (h : d.Restricts e refusal) (hq : ∀ q, Gated refusal (f q) (g q))
    (limit offset : Option Expr) :
    Gated refusal (Expr.renderPage d f limit offset) (Expr.renderPage e g limit offset) := by
  have hcount (x : Expr) := Expr.gated_render h hq x
  cases limit with
  | none =>
    cases offset with
    | none => exact .refl _
    | some count =>
      simp only [Expr.renderPage, h.offsetWithoutLimit]
      cases e.offsetWithoutLimit <;> exact Gated.bind_left (hcount count) _
  | some count =>
    cases offset with
    | none =>
      simp only [Expr.renderPage]
      exact (hcount count).bind_left _
    | some start =>
      simp only [Expr.renderPage]
      exact (hcount count).bind fun _ => Gated.bind_left (hcount start) _

/-- A restricted dialect writes a rule upon a conflict as before or refuses it. -/
theorem Upsert.gated_renderOption (h : d.Restricts e refusal)
    (hq : ∀ q, Gated refusal (f q) (g q)) (upsert : Option Upsert) :
    Gated refusal (Upsert.renderOption d f upsert) (Upsert.renderOption e g upsert) := by
  cases upsert with
  | none => exact .refl _
  | some upsert =>
    obtain ⟨target, action⟩ := upsert
    simp only [Upsert.renderOption, h.upsert, h.name]
    cases e.upsert with
    | none => exact .refl _
    | some spelling =>
      cases action with
      | doNothing => cases spelling <;> exact .refl _
      | doUpdate assignments =>
        have hassignments := Assignment.gated_renderAll h hq assignments
        cases spelling with
        | onDuplicateKey => exact hassignments.bind_left _
        | onConflict =>
          simp only [Upsert.render]
          split
          · exact .refl _
          · exact hassignments.bind_left _

/-- A restricted dialect writes an UPDATE as before or refuses it. -/
theorem Update.gated_render (h : d.Restricts e refusal) (hq : ∀ q, Gated refusal (f q) (g q))
    (u : Update) : Gated refusal (u.render d f) (u.render e g) := by
  have hassignments := Assignment.gated_renderAll h hq u.assignments
  have hfilters := Expr.gated_renderAnd h hq " WHERE " u.filters
  have hreturning := SelectItem.gated_renderReturning h hq u.returning
  unfold Update.render
  split
  · exact .refl _
  · exact hassignments.bind fun _ => hfilters.bind fun _ => hreturning.bind_left _

/-- A restricted dialect writes a DELETE as before or refuses it. -/
theorem Delete.gated_render (h : d.Restricts e refusal) (hq : ∀ q, Gated refusal (f q) (g q))
    (x : Delete) : Gated refusal (x.render d f) (x.render e g) := by
  have hfilters := Expr.gated_renderAnd h hq " WHERE " x.filters
  have hreturning := SelectItem.gated_renderReturning h hq x.returning
  exact hfilters.bind fun _ => hreturning.bind_left _

mutual

/-- A restricted dialect writes a statement as before or refuses it. -/
theorem Statement.gated_render (h : d.Restricts e refusal) (hq : ∀ q, Gated refusal (f q) (g q)) :
    ∀ s : Statement, Gated refusal (s.render d f) (s.render e g)
  | .select block => Block.gated_render h hq block
  | .setOperation op all left right => by
    simp only [Statement.render]
    have hleft := Statement.gated_render h hq left
    have hright := Statement.gated_render h hq right
    exact hleft.bind fun _ => hright.bind_left _
  | .withCtes recursive ctes body => by
    simp only [Statement.render]
    have hctes := Cte.gated_renderAll h hq ctes
    have hbody := Statement.gated_render h hq body
    exact hctes.bind fun _ => hbody.bind_left _
  | .insert i => Insert.gated_render h hq i
  | .update u => Update.gated_render h hq u
  | .delete x => Delete.gated_render h hq x
termination_by structural s => s

/-- A restricted dialect writes a SELECT as before or refuses it. -/
theorem Block.gated_render (h : d.Restricts e refusal) (hq : ∀ q, Gated refusal (f q) (g q)) :
    ∀ b : Block, Gated refusal (b.render d f) (b.render e g)
  | ⟨origin, joins, filters, groupBy, having, projection, distinct, orderBy, limit, offset⟩ => by
    have horigin := Origin.gated_render h hq origin
    have hjoins := Join.gated_renderAll h hq joins
    have hfilters := Expr.gated_renderAnd h hq " WHERE " filters
    have hgroup := Expr.gated_renderClause h hq " GROUP BY " groupBy
    have hhaving := Expr.gated_renderAnd h hq " HAVING " having
    have horder := OrderKey.gated_renderClause h hq orderBy
    have hpage := Expr.gated_renderPage h hq limit offset
    simp only [Block.render]
    cases projection with
    | none =>
      exact horigin.bind fun _ => hjoins.bind fun _ => hfilters.bind fun _ => hgroup.bind fun _ =>
        hhaving.bind fun _ => horder.bind fun _ => hpage.bind_left _
    | some items =>
      exact (SelectItem.gated_renderAll h hq items).bind fun _ => horigin.bind fun _ =>
        hjoins.bind fun _ => hfilters.bind fun _ => hgroup.bind fun _ => hhaving.bind fun _ =>
          horder.bind fun _ => hpage.bind_left _
termination_by structural b => b

/-- A restricted dialect writes what a SELECT reads from as before or refuses it. -/
theorem Origin.gated_render (h : d.Restricts e refusal) (hq : ∀ q, Gated refusal (f q) (g q)) :
    ∀ o : Origin, Gated refusal (o.render d f) (o.render e g)
  | .table _ => .refl _
  | .derived body name => by
    simp only [Origin.render]
    exact (Statement.gated_render h hq body).bind_left _
termination_by structural o => o

/-- A restricted dialect writes joins as before or refuses them. -/
theorem Join.gated_renderAll (h : d.Restricts e refusal) (hq : ∀ q, Gated refusal (f q) (g q)) :
    ∀ joins : List Join, Gated refusal (Join.renderAll d f joins) (Join.renderAll e g joins)
  | [] => .refl _
  | ⟨kind, target, condition⟩ :: joins => by
    have htarget := JoinTarget.gated_render h hq target
    have hjoins := Join.gated_renderAll h hq joins
    simp only [Join.renderAll]
    cases condition with
    | none => exact htarget.bind fun _ => hjoins.bind_left _
    | some condition =>
      exact htarget.bind fun _ => (Expr.gated_render h hq condition).bind fun _ =>
        hjoins.bind_left _
termination_by structural joins => joins

/-- A restricted dialect writes what is joined as before or refuses it. -/
theorem JoinTarget.gated_render (h : d.Restricts e refusal)
    (hq : ∀ q, Gated refusal (f q) (g q)) : ∀ target : JoinTarget Statement,
      Gated refusal (JoinTarget.render d f target) (JoinTarget.render e g target)
  | .table _ => .refl _
  | .lateral body name => by
    simp only [JoinTarget.render]
    exact (Statement.gated_render h hq body).bind_left _
termination_by structural target => target

/-- A restricted dialect writes the entries of a WITH as before or refuses them. -/
theorem Cte.gated_renderAll (h : d.Restricts e refusal) (hq : ∀ q, Gated refusal (f q) (g q)) :
    ∀ ctes : List (Cte Statement),
      Gated refusal (Cte.renderAll d f ctes) (Cte.renderAll e g ctes)
  | [] => .refl _
  | ⟨name, columns, body⟩ :: ctes => by
    simp only [Cte.renderAll]
    have hbody := Statement.gated_render h hq body
    exact hbody.bind fun _ => (Cte.gated_renderAll h hq ctes).bind_left _
termination_by structural ctes => ctes

/-- A restricted dialect writes an INSERT as before or refuses it. -/
theorem Insert.gated_render (h : d.Restricts e refusal) (hq : ∀ q, Gated refusal (f q) (g q)) :
    ∀ i : Insert, Gated refusal (i.render d f) (i.render e g)
  | ⟨name, columns, none, upsert, returning⟩ => .refl _
  | ⟨name, columns, some source, upsert, returning⟩ => by
    have hsource := InsertSource.gated_render h hq source
    have hupsert := Upsert.gated_renderOption h hq upsert
    have hreturning := SelectItem.gated_renderReturning h hq returning
    have hcheck : Upsert.check d upsert = Upsert.check e upsert := by
      cases upsert <;> simp [Upsert.check, h.upsert, h.name]
    have hignore : Upsert.isIgnore d upsert = Upsert.isIgnore e upsert := by
      unfold Upsert.isIgnore
      rw [h.upsert]
    simp only [Insert.render, hcheck, hignore]
    exact (Gated.refl _).bind fun _ => hsource.bind fun _ => hupsert.bind fun _ =>
      hreturning.bind_left _
termination_by structural i => i

/-- A restricted dialect writes what is inserted as before or refuses it. -/
theorem InsertSource.gated_render (h : d.Restricts e refusal)
    (hq : ∀ q, Gated refusal (f q) (g q)) :
    ∀ s : InsertSource, Gated refusal (s.render d f) (s.render e g)
  | .values rows => by
    simp only [InsertSource.render]
    exact (Expr.gated_renderRows h hq rows).bind_left _
  | .select body => by
    simp only [InsertSource.render]
    exact (Statement.gated_render h hq body).bind_left _
termination_by structural s => s

end

end Rendering

section Lowering

variable {d e : Dialect} {refusal : CompileError}

/-- A restricted dialect has a capability as before, or its lack is the refusal. -/
theorem Dialect.Restricts.gated_require (h : d.Restricts e refusal) (c : Capability) :
    Gated refusal (d.require c) (e.require c) := by
  unfold Dialect.require
  rcases h.capability c with hc | ⟨hc, hrefusal⟩
  · rw [hc, h.name]
    exact .refl _
  · rw [hc, hrefusal]
    exact gated_refusal _

/-- The sources are of the same kind and name, and the outcome of the second is gated. -/
structure Source.GatedBy (refusal : CompileError) (s t : Source) : Prop where
  kind : s.kind = t.kind
  derivedName : s.derivedName = t.derivedName
  statement : Gated refusal s.statement t.statement

namespace Source.GatedBy

variable {s t : Source}

/-- Sources that are gated call a misplaced stage by the same error. -/
theorem misplaced (h : s.GatedBy refusal t) (stage : QueryKind) :
    s.misplaced stage = t.misplaced stage := by
  rw [Source.misplaced, Source.misplaced, h.kind]

/-- Sources that are gated give their rows alike, or one is refused. -/
theorem rows (h : s.GatedBy refusal t) (stage : QueryKind) :
    Gated refusal (s.rows stage) (t.rows stage) := by
  unfold Source.rows
  rw [h.misplaced]
  exact h.statement.bind_left _

/-- Sources that are gated give the SELECT to which a clause is added alike, or one is refused. -/
theorem block (h : s.GatedBy refusal t) (stage : QueryKind) (clause : Clause) :
    Gated refusal (s.block stage clause) (t.block stage clause) := by
  unfold Source.block
  rw [h.derivedName]
  exact (h.rows stage).bind_left _

/-- Sources that are gated give their INSERT alike, or one is refused. -/
theorem insert (h : s.GatedBy refusal t) (stage : QueryKind) :
    Gated refusal (s.insert stage) (t.insert stage) := by
  unfold Source.insert
  rw [h.misplaced]
  exact h.statement.bind_left _

/-- Sources that are gated give their UPDATE alike, or one is refused. -/
theorem update (h : s.GatedBy refusal t) (stage : QueryKind) :
    Gated refusal (s.update stage) (t.update stage) := by
  unfold Source.update
  rw [h.misplaced]
  exact h.statement.bind_left _

/-- Sources that are gated give their DELETE alike, or one is refused. -/
theorem delete (h : s.GatedBy refusal t) (stage : QueryKind) :
    Gated refusal (s.delete stage) (t.delete stage) := by
  unfold Source.delete
  rw [h.misplaced]
  exact h.statement.bind_left _

end Source.GatedBy

mutual

/-- A restricted dialect lowers a query as before or refuses it. -/
theorem Query.gated_lower (h : d.Restricts e refusal) :
    ∀ q : Query, Gated refusal (q.lower d) (q.lower e)
  | .table _ | .insertInto .. | .update _ | .deleteFrom _ => .refl _
  | .setOperation op all left right => by
    have hleft := Query.gated_lower h left
    have hright := Query.gated_lower h right
    simp only [Query.lower, h.name, h.supportsSetAll]
    refine .ite (gated_error _ _) (hleft.bind fun _ => (Gated.refl _).bind fun _ => ?_)
    exact hright.bind_left _
  | .withCtes recursive ctes main => by
    have hctes := Cte.gated_lowerAll h ctes
    have hmain := Query.gated_lower h main
    simp only [Query.lower]
    refine (h.gated_require .cte).bind fun _ => .ite (gated_error _ _) ?_
    exact hctes.bind fun _ => hmain.bind_left _
  | .step source stage => by
    simp only [Query.lower]
    exact Stage.gated_lower h (s := ⟨_, _, source.lower d⟩) (t := ⟨_, _, source.lower e⟩)
      ⟨rfl, rfl, Query.gated_lower h source⟩ stage
termination_by structural q => q

/-- A restricted dialect lowers the entries of a WITH as before or refuses them. -/
theorem Cte.gated_lowerAll (h : d.Restricts e refusal) :
    ∀ ctes : List (Cte Query), Gated refusal (Cte.lowerAll d ctes) (Cte.lowerAll e ctes)
  | [] => .refl _
  | ⟨name, columns, body⟩ :: ctes => by
    simp only [Cte.lowerAll]
    exact (Query.gated_lower h body).bind fun _ => (Cte.gated_lowerAll h ctes).bind_left _
termination_by structural ctes => ctes

/-- A restricted dialect lowers what is joined as before or refuses it. -/
theorem JoinTarget.gated_lower (h : d.Restricts e refusal) : ∀ target : JoinTarget Query,
    Gated refusal (JoinTarget.lower d target) (JoinTarget.lower e target)
  | .table _ => .refl _
  | .lateral body name => by
    simp only [JoinTarget.lower]
    exact (h.gated_require .lateral).bind fun _ => (Query.gated_lower h body).bind_left _
termination_by structural target => target

/-- A restricted dialect lowers a stage as before or refuses it. -/
theorem Stage.gated_lower (h : d.Restricts e refusal) {scope : Scope} {s t : Source}
    (hsource : s.GatedBy refusal t) : ∀ stage : Stage,
      Gated refusal (stage.lower d scope s) (stage.lower e scope t)
  | .filter _ => by
    simp only [Stage.lower]
    exact (Gated.refl _).bind fun _ => (hsource.block _ _).bind_left _
  | .join target condition kind => by
    have hkind : kind.check d condition = kind.check e condition := by
      simp only [JoinKind.check, h.supportsJoin, h.name]
    simp only [Stage.lower, hkind]
    exact (Gated.refl _).bind fun _ => (Gated.refl _).bind fun _ =>
      (JoinTarget.gated_lower h target).bind fun _ => (hsource.block _ _).bind_left _
  | .select _ items => by
    simp only [Stage.lower]
    refine .ite (gated_error _ _) ((Gated.refl _).bind fun _ => ?_)
    exact (hsource.block _ _).bind_left _
  | .orderBy keys => by
    simp only [Stage.lower]
    refine .ite (gated_error _ _) ((Gated.refl _).bind fun _ => ?_)
    exact (hsource.block _ _).bind_left _
  | .limit _ => by
    simp only [Stage.lower]
    exact (Gated.refl _).bind fun _ => (hsource.block _ _).bind_left _
  | .offset _ => by
    simp only [Stage.lower]
    exact (Gated.refl _).bind fun _ => (hsource.block _ _).bind_left _
  | .distinct => by
    simp only [Stage.lower]
    exact (hsource.block _ _).bind_left _
  | .groupBy [] => by
    simp only [Stage.lower]
    exact hsource.rows _
  | .groupBy (key :: keys) => by
    simp only [Stage.lower]
    exact (Gated.refl _).bind fun _ => (hsource.block _ _).bind_left _
  | .having _ => by
    simp only [Stage.lower]
    exact (Gated.refl _).bind fun _ => (hsource.block _ _).bind_left _
  | .values rows => by
    simp only [Stage.lower, hsource.misplaced]
    exact (hsource.insert _).bind_left _
  | .insertSelect rows => by
    simp only [Stage.lower, hsource.misplaced]
    refine (hsource.insert _).bind fun _ => .ite (gated_error _ _) ?_
    exact (Query.gated_lower h rows).bind_left _
  | .onConflict target action => by
    simp only [Stage.lower, hsource.misplaced, Insert.guardJoin_congr h.toSpellsLike]
    exact (h.gated_require .upsert).bind fun _ => (hsource.insert _).bind_left _
  | .set assignments => by
    simp only [Stage.lower, hsource.misplaced]
    refine .ite (gated_error _ _) ((Gated.refl _).bind fun _ => ?_)
    exact (hsource.update _).bind_left _
  | .updateWhere _ => by
    simp only [Stage.lower]
    exact (Gated.refl _).bind fun _ => (hsource.update _).bind_left _
  | .deleteWhere _ => by
    simp only [Stage.lower]
    exact (Gated.refl _).bind fun _ => (hsource.delete _).bind_left _
  | .returning _ items => by
    simp only [Stage.lower, hsource.kind]
    refine (h.gated_require .returning).bind fun _ => .ite (gated_error _ _) ?_
    exact (Gated.refl _).bind fun _ => hsource.statement.bind_left _
termination_by structural stage => stage

end

/-- Queries that are read for their rows are gated, however deeply they are nested. -/
theorem Query.gated_renderRows (h : d.Restricts e refusal) : ∀ (limit : Nat) (q : Query),
    Gated refusal (q.renderRows d limit) (q.renderRows e limit) := by
  intro limit
  induction limit with
  | zero => exact fun _ => .refl _
  | succ limit ih =>
    intro q
    have hlower : Gated refusal (q.lowerRows d) (q.lowerRows e) :=
      (Query.gated_lower h q).bind_left _
    exact hlower.bind fun s => Statement.gated_render h ih s

/-- A restricted dialect lowers and writes a query as before or refuses it. -/
theorem Query.gated_render (h : d.Restricts e refusal) (q : Query) :
    Gated refusal (q.render d) (q.render e) :=
  (Query.gated_lower h q).bind fun s =>
    Statement.gated_render h (Query.gated_renderRows h q.depth) s

end Lowering

section Features

variable {d e : Dialect} {refusal : CompileError} {q : Query} {n : Node}

/-- The capabilities that a query needs, at any depth. -/
def Query.capabilities (q : Query) : List Capability := q.nodes.filterMap Node.capability?

/-- The binary operators that a query uses, at any depth. -/
def Query.operators (q : Query) : List BinaryOperator := q.nodes.filterMap Node.operator?

/-- A dialect that allows a node has the capability it needs. -/
theorem Node.supports_of_allowed (h : n.Allowed d) {c : Capability} (hc : n.capability? = some c) :
    d.supports c = true := by
  unfold Node.capability? at hc
  split at hc <;> cases hc
  · exact h.1
  · exact h.2.2 ⟨_, _, rfl⟩
  · exact h.1
  · exact h.1
  · exact h

/-- A dialect that allows a node has the operator it uses. -/
theorem Node.operator_of_allowed (h : n.Allowed d) {op : BinaryOperator}
    (hop : n.operator? = some op) : d.operator? op ≠ none := by
  unfold Node.operator? at hop
  split at hop <;> cases hop
  exact h

/-- A query that is written is valid. -/
theorem Query.valid_of_render {ts : List Token} (h : q.render d = .ok ts) : q.Valid d := by
  have hlowers := Query.lowers (writesBelow_renderRows d q.depth) (Nat.le_refl q.depth)
  obtain ⟨s, hs, hts⟩ := bind_eq_ok.mp h
  exact hlowers.writable_iff_valid.mp ⟨s, hs, ts, hts⟩

/-- A restricted dialect makes the same plan of the same tokens. -/
theorem Dialect.Restricts.ofTokens (h : d.Restricts e refusal) (ts : List Token) :
    Plan.ofTokens d ts = Plan.ofTokens e ts := by
  have hsegment : Piece.segment d = Piece.segment e := by
    funext piece
    cases piece <;> simp [Piece.segment, h.quote, h.stringLiteral]
  rw [Plan.ofTokens, Plan.ofTokens, h.placeholder, hsegment]

/-- Where the dialects agree at all nodes of a query, nothing that it needs is missing. -/
theorem Dialect.Restricts.compile_of_agrees (h : d.Restricts e refusal)
    (hn : ∀ n ∈ q.nodes, n.Agrees d e) : q.compile e = q.compile d := by
  simp only [Query.compile, ← Query.render_congr h.toSpellsLike hn, h.ofTokens]

/-- Where a node needs what is missing, the query is refused for it. -/
theorem Dialect.Restricts.compile_of_not_allowed (h : d.Restricts e refusal) {plan : Plan}
    (hq : q.compile d = .ok plan) (hn : n ∈ q.nodes) (hmissing : ¬ n.Allowed e) :
    q.compile e = .error refusal := by
  obtain ⟨ts, hts, -⟩ := bind_eq_ok.mp hq
  rcases Query.gated_render h q ts hts with hrender | hrender
  · exact absurd (Query.valid_of_render hrender n (List.mem_cons_of_mem _ hn)) hmissing
  · rw [Query.compile, hrender, error_bind]

/-- Taking away a capability restricts the dialect of a profile. -/
theorem Profile.restricts_withoutCapability (p : Profile) (c : Capability) :
    p.dialect.Restricts (p.withoutCapability c).dialect (.capability p.name c) := by
  constructor
  · constructor <;> rfl
  · rfl
  · intro x
    by_cases hx : x = c
    · right
      simp [Profile.dialect, Profile.withoutCapability, CapabilitySet.erase, hx]
    · left
      simp [Profile.dialect, Profile.withoutCapability, CapabilitySet.erase, hx]
  · intro op
    exact .inl rfl

/-- Taking away an operator restricts the dialect of a profile. -/
theorem Profile.restricts_withoutOperator (p : Profile) (op : BinaryOperator) :
    p.dialect.Restricts (p.withoutOperator op).dialect
      (.unrepresentable p.name (.operator op)) := by
  constructor
  · constructor <;> rfl
  · rfl
  · intro c
    exact .inl rfl
  · intro x
    by_cases hx : x = op
    · right
      simp [Profile.dialect, Profile.withoutOperator, OperatorTable.spelling?_erase, hx]
    · left
      simp [Profile.dialect, Profile.withoutOperator, OperatorTable.spelling?_erase, hx]

/-- A query that compiles is refused without a capability or an operator that it needs, for the lack
of just that, and has the same plan without any other. -/
theorem compile_withoutFeature {p : Profile} {plan : Plan} (h : q.compile p.dialect = .ok plan) :
    (∀ c, q.compile (p.withoutCapability c).dialect =
      if c ∈ q.capabilities then .error (.capability p.name c) else .ok plan) ∧
    (∀ op, q.compile (p.withoutOperator op).dialect =
      if op ∈ q.operators then .error (.unrepresentable p.name (.operator op)) else .ok plan) := by
  constructor
  · intro c
    have hrestricts := p.restricts_withoutCapability c
    have hmissing : (p.withoutCapability c).dialect.supports c = false := by
      simp [Profile.dialect, Profile.withoutCapability, CapabilitySet.erase]
    split
    · next hc =>
      obtain ⟨n, hn, hnc⟩ := List.mem_filterMap.mp hc
      refine hrestricts.compile_of_not_allowed h hn fun hallowed => ?_
      rw [Node.supports_of_allowed hallowed hnc] at hmissing
      cases hmissing
    · next hc =>
      rw [hrestricts.compile_of_agrees, h]
      intro n hn
      refine ⟨fun x hx => ?_, fun _ _ => rfl⟩
      have hne : x ≠ c := by
        rintro rfl
        exact hc (List.mem_filterMap.mpr ⟨n, hn, hx⟩)
      simp [Profile.dialect, Profile.withoutCapability, CapabilitySet.erase, hne]
  · intro op
    have hrestricts := p.restricts_withoutOperator op
    split
    · next hop =>
      obtain ⟨n, hn, hnop⟩ := List.mem_filterMap.mp hop
      refine hrestricts.compile_of_not_allowed h hn fun hallowed => ?_
      apply Node.operator_of_allowed hallowed hnop
      simp [Profile.dialect, Profile.withoutOperator, OperatorTable.spelling?_erase]
    · next hop =>
      rw [hrestricts.compile_of_agrees, h]
      intro n hn
      refine ⟨fun _ _ => rfl, fun x hx => ?_⟩
      have hne : x ≠ op := by
        rintro rfl
        exact hop (List.mem_filterMap.mpr ⟨n, hn, hx⟩)
      simp [Profile.dialect, Profile.withoutOperator, OperatorTable.spelling?_erase, hne]

/-- Rows ordered by a sum that is computed in a WITH inside the order key. -/
def Query.orderedByWith : Query :=
  (Query.table "t").orderBy
    [⟨.subquery (.withCtes false [⟨"x", [], .table "u"⟩] ((Query.table "x").select
      [⟨.binary .plus (.column none "a") (.parameter .integer "k"), none⟩] none)), .asc, none⟩]

/-- A node is found in a query that is nested in an order key. -/
theorem compile_withoutFeature_orderedByWith :
    ∃ plan, Query.orderedByWith.compile Profile.postgres.dialect = .ok plan ∧
      Query.orderedByWith.compile (Profile.postgres.withoutCapability .cte).dialect =
        .error (.capability "postgres" .cte) ∧
      Query.orderedByWith.compile (Profile.postgres.withoutCapability .window).dialect =
        .ok plan ∧
      Query.orderedByWith.compile (Profile.postgres.withoutOperator .plus).dialect =
        .error (.unrepresentable "postgres" (.operator .plus)) ∧
      Query.orderedByWith.compile (Profile.postgres.withoutOperator .minus).dialect =
        .ok plan := by
  have hplan : Query.orderedByWith.compile Profile.postgres.dialect = .ok _ := rfl
  obtain ⟨hcapability, hoperator⟩ := compile_withoutFeature hplan
  exact ⟨_, hplan, hcapability .cte, hcapability .window, hoperator .plus, hoperator .minus⟩

end Features

end SqlAlgebra
