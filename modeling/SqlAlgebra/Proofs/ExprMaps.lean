import SqlAlgebra.Proofs.Forms
import SqlAlgebra.Proofs.Writing

/-!
# Statements with other expressions

A statement in which every expression is replaced by what a function makes of it has the same
clauses as before. So it takes the same additions at the same places, and it is written alike if
each of its expressions is.
-/

namespace SqlAlgebra

section Keeps

variable {ε α β γ : Type}

/-- Wherever the first step has a result, the second has the same. -/
def Keeps (x y : Except ε α) : Prop := ∀ a, x = .ok a → y = .ok a

/-- A step keeps its own results. -/
theorem Keeps.refl (x : Except ε α) : Keeps x x := fun _ h => h

/-- A step that fails has no results to keep. -/
theorem keeps_error (e : ε) (y : Except ε α) : Keeps (.error e) y := by
  intro a ha
  cases ha

/-- Sequences keep their results if their steps do. -/
theorem Keeps.bind {x y : Except ε α} {f g : α → Except ε β} (h : Keeps x y)
    (hfg : ∀ a, Keeps (f a) (g a)) : Keeps (x >>= f) (y >>= g) := by
  intro b hb
  obtain ⟨a, hx, hf⟩ := bind_eq_ok.mp hb
  exact bind_eq_ok.mpr ⟨a, h a hx, hfg a b hf⟩

/-- Steps that keep their results may be followed by the same. -/
theorem Keeps.bind_left {x y : Except ε α} (h : Keeps x y) (f : α → Except ε β) :
    Keeps (x >>= f) (y >>= f) :=
  h.bind fun a => .refl (f a)

/-- A choice keeps its results if both its sides do. -/
theorem Keeps.ite {c : Prop} [Decidable c] {x x' y y' : Except ε α} (h : Keeps x y)
    (h' : Keeps x' y') : Keeps (if c then x else x') (if c then y else y') := by
  split
  · exact h
  · exact h'

/-- Steps on the mapped items keep the results, if each of them does. -/
theorem keeps_mapM_map {f : α → Except ε γ} {g : β → Except ε γ} {k : α → β} {as : List α}
    (h : ∀ a ∈ as, Keeps (f a) (g (k a))) : Keeps (as.mapM f) ((as.map k).mapM g) := by
  induction as with
  | nil => exact .refl _
  | cons a as ih =>
    rw [List.forall_mem_cons] at h
    rw [List.map_cons, List.mapM_cons, List.mapM_cons]
    exact h.1.bind fun c => (ih h.2).bind_left _

end Keeps

section Maps

/-- The item with its expression replaced. -/
def SelectItem.mapExpr (f : Expr → Expr) (item : SelectItem) : SelectItem :=
  { item with expr := f item.expr }

/-- The order key with its expression replaced. -/
def OrderKey.mapExpr (f : Expr → Expr) (key : OrderKey) : OrderKey :=
  { key with expr := f key.expr }

/-- The assignment with its value replaced. -/
def Assignment.mapExpr (f : Expr → Expr) (a : Assignment) : Assignment :=
  { a with value := f a.value }

/-- What is returned, with its expressions replaced. -/
def SelectItem.mapReturning (f : Expr → Expr) (items : Option (List SelectItem)) :
    Option (List SelectItem) :=
  items.map (List.map (SelectItem.mapExpr f))

/-- Nothing that is returned stays nothing. -/
@[simp] theorem SelectItem.mapReturning_none (f : Expr → Expr) :
    SelectItem.mapReturning f none = none := rfl

/-- Items that are returned are mapped one by one. -/
@[simp] theorem SelectItem.mapReturning_some (f : Expr → Expr) (items : List SelectItem) :
    SelectItem.mapReturning f (some items) = some (items.map (SelectItem.mapExpr f)) := rfl

/-- The action upon a conflict with its values replaced. -/
def ConflictAction.mapExprs (f : Expr → Expr) : ConflictAction → ConflictAction
  | .doNothing => .doNothing
  | .doUpdate assignments => .doUpdate (assignments.map (Assignment.mapExpr f))

/-- The rule upon a conflict with its values replaced. -/
def Upsert.mapExprs (f : Expr → Expr) (u : Upsert) : Upsert :=
  { u with action := u.action.mapExprs f }

/-- The UPDATE with its expressions replaced. -/
def Update.mapExprs (f : Expr → Expr) (u : Update) : Update :=
  { u with
    assignments := u.assignments.map (Assignment.mapExpr f)
    filters := u.filters.map f
    returning := SelectItem.mapReturning f u.returning }

/-- The DELETE with its expressions replaced. -/
def Delete.mapExprs (f : Expr → Expr) (x : Delete) : Delete :=
  { x with filters := x.filters.map f, returning := SelectItem.mapReturning f x.returning }

mutual

/-- The statement with every expression replaced by what `f` makes of it. -/
def Statement.mapExprs (f : Expr → Expr) : Statement → Statement
  | .select block => .select (block.mapExprs f)
  | .setOperation op all left right => .setOperation op all (left.mapExprs f) (right.mapExprs f)
  | .withCtes recursive ctes body => .withCtes recursive (Cte.mapExprs f ctes) (body.mapExprs f)
  | .insert i => .insert (i.mapExprs f)
  | .update u => .update (u.mapExprs f)
  | .delete x => .delete (x.mapExprs f)
termination_by structural s => s

def Block.mapExprs (f : Expr → Expr) : Block → Block
  | ⟨origin, joins, filters, groupBy, having, projection, distinct, orderBy, limit, offset⟩ =>
    ⟨origin.mapExprs f, Join.mapExprs f joins, filters.map f, groupBy.map f, having.map f,
      SelectItem.mapReturning f projection, distinct, orderBy.map (OrderKey.mapExpr f),
      limit.map f, offset.map f⟩
termination_by structural b => b

def Origin.mapExprs (f : Expr → Expr) : Origin → Origin
  | .table name => .table name
  | .derived body name => .derived (body.mapExprs f) name
termination_by structural o => o

def Join.mapExprs (f : Expr → Expr) : List Join → List Join
  | [] => []
  | ⟨kind, target, condition⟩ :: joins =>
    ⟨kind, JoinTarget.mapExprs f target, condition.map f⟩ :: Join.mapExprs f joins
termination_by structural joins => joins

def JoinTarget.mapExprs (f : Expr → Expr) : JoinTarget Statement → JoinTarget Statement
  | .table name => .table name
  | .lateral body name => .lateral (body.mapExprs f) name
termination_by structural target => target

def Cte.mapExprs (f : Expr → Expr) : List (Cte Statement) → List (Cte Statement)
  | [] => []
  | ⟨name, columns, body⟩ :: ctes => ⟨name, columns, body.mapExprs f⟩ :: Cte.mapExprs f ctes
termination_by structural ctes => ctes

def Insert.mapExprs (f : Expr → Expr) : Insert → Insert
  | ⟨table, columns, none, upsert, returning⟩ =>
    ⟨table, columns, none, upsert.map (Upsert.mapExprs f), SelectItem.mapReturning f returning⟩
  | ⟨table, columns, some source, upsert, returning⟩ =>
    ⟨table, columns, some (source.mapExprs f), upsert.map (Upsert.mapExprs f),
      SelectItem.mapReturning f returning⟩
termination_by structural i => i

def InsertSource.mapExprs (f : Expr → Expr) : InsertSource → InsertSource
  | .values rows => .values (rows.map (List.map f))
  | .select body => .select (body.mapExprs f)
termination_by structural s => s

end

/-- What is added to a SELECT, with its expressions replaced. -/
def Addition.mapExprs (f : Expr → Expr) : Addition → Addition
  | .join added =>
    .join ⟨added.kind, JoinTarget.mapExprs f added.target, added.condition.map f⟩
  | .filter predicate => .filter (f predicate)
  | .groupBy keys => .groupBy (keys.map f)
  | .having predicate => .having (f predicate)
  | .select items => .select (items.map (SelectItem.mapExpr f))
  | .distinct => .distinct
  | .orderBy keys => .orderBy (keys.map (OrderKey.mapExpr f))
  | .offset count => .offset (f count)
  | .limit count => .limit (f count)

end Maps

section Clauses

variable {f : Expr → Expr}

/-- The form of a statement does not depend on its expressions. -/
theorem Statement.form_mapExprs (s : Statement) : (s.mapExprs f).form = s.form := by
  cases s with
  | insert i =>
    obtain ⟨table, columns, source, upsert, returning⟩ := i
    cases source <;> simp [Statement.mapExprs, Insert.mapExprs, form, SelectItem.mapReturning]
  | update u | delete x =>
    simp [Statement.mapExprs, Update.mapExprs, Delete.mapExprs, form, SelectItem.mapReturning]
  | _ => rfl

/-- Which clauses a SELECT accepts does not depend on its expressions. -/
theorem Block.accepts_mapExprs (b : Block) (clause : Clause) :
    (b.mapExprs f).accepts clause = b.accepts clause := by
  cases b
  cases clause <;>
    simp [Block.mapExprs, Block.accepts, Block.grouped, Block.projected, Block.paged,
      SelectItem.mapReturning]

/-- The expressions of joins are replaced join by join. -/
theorem Join.mapExprs_append (joins joins' : List Join) :
    Join.mapExprs f (joins ++ joins') = Join.mapExprs f joins ++ Join.mapExprs f joins' := by
  induction joins with
  | nil => rfl
  | cons join joins ih =>
    obtain ⟨kind, target, condition⟩ := join
    simp [Join.mapExprs, ih]

/-- Replacing expressions goes through what is added to a SELECT. -/
theorem Block.mapExprs_add (b : Block) (a : Addition) :
    (b.add a).mapExprs f = (b.mapExprs f).add (a.mapExprs f) := by
  cases b
  cases a with
  | join added =>
    cases added
    simp [Block.add, Block.mapExprs, Addition.mapExprs, Join.mapExprs_append, Join.mapExprs]
  | _ => simp [Block.add, Block.mapExprs, Addition.mapExprs, SelectItem.mapReturning]

/-- Where something is added does not depend on its expressions. -/
theorem Addition.clause_mapExprs (a : Addition) : (a.mapExprs f).clause = a.clause := by
  cases a <;> rfl

/-- Replacing expressions goes through making a SELECT ready for a clause. -/
theorem Statement.mapExprs_blockFor (clause : Clause) (name : String) (s : Statement) :
    (s.blockFor clause name).mapExprs f = (s.mapExprs f).blockFor clause name := by
  have horigin (s : Statement) : (Block.ofOrigin (.derived s name)).mapExprs f =
      Block.ofOrigin (.derived (s.mapExprs f) name) := rfl
  cases s with
  | select block =>
    by_cases h : block.accepts clause = true
    · simp [Statement.mapExprs, blockFor, h, Block.accepts_mapExprs]
    · simp [Statement.mapExprs, blockFor, h, Block.accepts_mapExprs, horigin]
  | _ => rfl

/-- A stage adds to the statement where it would have added to the original one. -/
theorem Statement.mapExprs_extend (name : String) (s : Statement) (a : Option Addition) :
    (s.extend name a).mapExprs f = (s.mapExprs f).extend name (a.map (Addition.mapExprs f)) := by
  cases a with
  | none => rfl
  | some a =>
    simp only [extend, Option.map_some, Statement.mapExprs, Block.mapExprs_add,
      mapExprs_blockFor, Addition.clause_mapExprs]

/-- The expressions of an INSERT are replaced in its rows, in its rule upon a conflict and in what
it returns. -/
theorem Insert.mapExprs_eq (i : Insert) :
    i.mapExprs f = { i with
      source := i.source.map (InsertSource.mapExprs f)
      upsert := i.upsert.map (Upsert.mapExprs f)
      returning := SelectItem.mapReturning f i.returning } := by
  obtain ⟨table, columns, source, upsert, returning⟩ := i
  cases source <;> rfl

/-- Replacing expressions goes through the guard, if it keeps the condition of the guard. -/
theorem Statement.mapExprs_guardJoin (hguard : f Expr.guard = Expr.guard) : ∀ s : Statement,
    s.guardJoin.mapExprs f = (s.mapExprs f).guardJoin
  | .select block => by
    cases hfilters : block.filters with
    | nil =>
      cases block
      subst hfilters
      rw [Expr.guard] at hguard
      simp [Statement.guardJoin, Statement.mapExprs, Block.mapExprs, hguard]
    | cons filter filters =>
      cases block
      subst hfilters
      simp [Statement.guardJoin, Statement.mapExprs, Block.mapExprs]
  | .withCtes _ ctes body => by
    simp only [Statement.guardJoin, Statement.mapExprs, Statement.mapExprs_guardJoin hguard body]
  | .setOperation .. | .insert _ | .update _ | .delete _ => rfl
termination_by structural s => s

/-- Replacing expressions goes through the guard of an INSERT, if it keeps its condition. -/
theorem Insert.mapExprs_guardJoin (hguard : f Expr.guard = Expr.guard) (d : Dialect) (i : Insert) :
    (i.guardJoin d).mapExprs f = (i.mapExprs f).guardJoin d := by
  obtain ⟨table, columns, source, upsert, returning⟩ := i
  rcases source with _ | ⟨_ | body⟩ <;> rcases hupsert : d.upsert with _ | ⟨_ | _⟩ <;>
    simp [Insert.guardJoin, Insert.mapExprs_eq, hupsert, InsertSource.mapExprs,
      Statement.mapExprs_guardJoin hguard]

end Clauses

section Rendering

/-- What `f` makes of an expression is written like the expression. The queries in the one are
written by `g`, those in the other by `h`. -/
def KeepsTexts (d : Dialect) (f : Expr → Expr) (g h : Query → Rendered) : Prop :=
  ∀ e : Expr, Keeps (e.render d g) ((f e).render d h)

variable {d : Dialect} {f : Expr → Expr} {g h : Query → Rendered}

/-- A list keeps its texts, if each expression does. -/
theorem Expr.keeps_renderAll_map (hf : KeepsTexts d f g h) (es : List Expr) :
    Keeps (Expr.renderAll d g es) (Expr.renderAll d h (es.map f)) := by
  rw [Expr.renderAll_eq_mapM, Expr.renderAll_eq_mapM]
  exact keeps_mapM_map fun e _ => hf e

/-- Order keys keep their texts, if each expression does. -/
theorem OrderKey.keeps_renderAll_map (hf : KeepsTexts d f g h) (keys : List OrderKey) :
    Keeps (OrderKey.renderAll d g keys)
      (OrderKey.renderAll d h (keys.map (OrderKey.mapExpr f))) := by
  rw [OrderKey.renderAll_eq_mapM, OrderKey.renderAll_eq_mapM]
  exact keeps_mapM_map fun key _ => (hf key.expr).bind_left _

/-- Projected items keep their text, if each expression does. -/
theorem SelectItem.keeps_renderAll_map (hf : KeepsTexts d f g h) (items : List SelectItem) :
    Keeps (SelectItem.renderAll d g items)
      (SelectItem.renderAll d h (items.map (SelectItem.mapExpr f))) :=
  (keeps_mapM_map fun item _ => (hf item.expr).bind_left _).bind_left _

/-- What is returned keeps its text, if each expression does. -/
theorem SelectItem.keeps_renderReturning_map (hf : KeepsTexts d f g h)
    (items : Option (List SelectItem)) :
    Keeps (SelectItem.renderReturning d g items)
      (SelectItem.renderReturning d h (SelectItem.mapReturning f items)) := by
  cases items with
  | none => exact .refl _
  | some items => exact (SelectItem.keeps_renderAll_map hf items).bind_left _

/-- Assignments keep their text, if each expression does. -/
theorem Assignment.keeps_renderAll_map (hf : KeepsTexts d f g h) (assignments : List Assignment) :
    Keeps (Assignment.renderAll d g assignments)
      (Assignment.renderAll d h (assignments.map (Assignment.mapExpr f))) :=
  (keeps_mapM_map fun a _ => (hf a.value).bind_left _).bind_left _

/-- Rows keep their text, if each expression does. -/
theorem Expr.keeps_renderRows_map (hf : KeepsTexts d f g h) (rows : List (List Expr)) :
    Keeps (Expr.renderRows d g rows) (Expr.renderRows d h (rows.map (List.map f))) :=
  (keeps_mapM_map fun row _ => Expr.keeps_renderAll_map hf row).bind_left _

/-- A clause of conditions keeps its text, if each expression does. -/
theorem Expr.keeps_renderAnd_map (hf : KeepsTexts d f g h) (keyword : String)
    (predicates : List Expr) :
    Keeps (Expr.renderAnd d g keyword predicates)
      (Expr.renderAnd d h keyword (predicates.map f)) :=
  (Expr.keeps_renderAll_map hf predicates).bind_left _

/-- A clause that lists expressions keeps its text, if each expression does. -/
theorem Expr.keeps_renderClause_map (hf : KeepsTexts d f g h) (keyword : String) (es : List Expr) :
    Keeps (Expr.renderClause d g keyword es) (Expr.renderClause d h keyword (es.map f)) :=
  (Expr.keeps_renderAll_map hf es).bind_left _

/-- An ORDER BY keeps its text, if each expression does. -/
theorem OrderKey.keeps_renderClause_map (hf : KeepsTexts d f g h) (keys : List OrderKey) :
    Keeps (OrderKey.renderClause d g keys)
      (OrderKey.renderClause d h (keys.map (OrderKey.mapExpr f))) :=
  (OrderKey.keeps_renderAll_map hf keys).bind_left _

/-- The bounds of a page keep their text, if each expression does. -/
theorem Expr.keeps_renderPage_map (hf : KeepsTexts d f g h) (limit offset : Option Expr) :
    Keeps (Expr.renderPage d g limit offset)
      (Expr.renderPage d h (limit.map f) (offset.map f)) := by
  cases limit with
  | none =>
    cases offset with
    | none => exact .refl _
    | some start =>
      simp only [Expr.renderPage, Option.map_none, Option.map_some]
      cases d.offsetWithoutLimit <;> exact Keeps.bind_left (hf start) _
  | some count =>
    cases offset with
    | none => exact Keeps.bind_left (hf count) _
    | some start =>
      exact Keeps.bind (hf count) fun _ => Keeps.bind_left (hf start) _

/-- A rule upon a conflict keeps its text, if each expression does. -/
theorem Upsert.keeps_renderOption_map (hf : KeepsTexts d f g h) (upsert : Option Upsert) :
    Keeps (Upsert.renderOption d g upsert)
      (Upsert.renderOption d h (upsert.map (Upsert.mapExprs f))) := by
  rcases upsert with _ | ⟨target, _ | assignments⟩
  · exact .refl _
  · exact .refl _
  · have hassignments := Assignment.keeps_renderAll_map hf assignments
    simp only [Upsert.renderOption, Option.map_some, Upsert.mapExprs, ConflictAction.mapExprs]
    rcases d.upsert with _ | ⟨_ | _⟩
    · exact .refl _
    · exact .ite (.refl _) (hassignments.bind_left _)
    · exact hassignments.bind_left _

/-- An UPDATE keeps its text, if each expression does. -/
theorem Update.keeps_render_map (hf : KeepsTexts d f g h) (u : Update) :
    Keeps (u.render d g) ((u.mapExprs f).render d h) := by
  have hassignments := Assignment.keeps_renderAll_map hf u.assignments
  have hfilters := Expr.keeps_renderAnd_map hf " WHERE " u.filters
  have hreturning := SelectItem.keeps_renderReturning_map hf u.returning
  simp only [Update.render, Update.mapExprs, List.isEmpty_map]
  refine .ite (.refl _) ?_
  exact hassignments.bind fun _ => hfilters.bind fun _ => hreturning.bind_left _

/-- A DELETE keeps its text, if each expression does. -/
theorem Delete.keeps_render_map (hf : KeepsTexts d f g h) (x : Delete) :
    Keeps (x.render d g) ((x.mapExprs f).render d h) := by
  have hfilters := Expr.keeps_renderAnd_map hf " WHERE " x.filters
  have hreturning := SelectItem.keeps_renderReturning_map hf x.returning
  exact hfilters.bind fun _ => hreturning.bind_left _

/-- Whether an operand needs brackets does not depend on its expressions. -/
theorem Statement.isFlat_mapExprs (chain : Option (SetOperator × Bool)) (s : Statement) :
    (s.mapExprs f).isFlat chain = s.isFlat chain := by
  cases s with
  | select block =>
    cases block
    simp [Statement.mapExprs, Block.mapExprs, Statement.isFlat, Block.paged]
  | _ => rfl

mutual

/-- A statement is written as before if each of its expressions is. -/
theorem Statement.keeps_render_map (hf : KeepsTexts d f g h) : ∀ s : Statement,
    Keeps (s.render d g) ((s.mapExprs f).render d h)
  | .select block => Block.keeps_render_map hf block
  | .setOperation op all left right => by
    have hleft := Statement.keeps_render_map hf left
    have hright := Statement.keeps_render_map hf right
    simp only [Statement.mapExprs, Statement.render, Statement.isFlat_mapExprs]
    exact hleft.bind fun _ => hright.bind_left _
  | .withCtes recursive ctes body => by
    have hctes := Cte.keeps_renderAll_map hf ctes
    have hbody := Statement.keeps_render_map hf body
    exact hctes.bind fun _ => hbody.bind_left _
  | .insert i => Insert.keeps_render_map hf i
  | .update u => Update.keeps_render_map hf u
  | .delete x => Delete.keeps_render_map hf x
termination_by structural s => s

/-- A SELECT keeps its text, if each expression does. -/
theorem Block.keeps_render_map (hf : KeepsTexts d f g h) : ∀ b : Block,
    Keeps (b.render d g) ((b.mapExprs f).render d h)
  | ⟨origin, joins, filters, groupBy, having, projection, distinct, orderBy, limit, offset⟩ => by
    have horigin := Origin.keeps_render_map hf origin
    have hjoins := Join.keeps_renderAll_map hf joins
    have hfilters := Expr.keeps_renderAnd_map hf " WHERE " filters
    have hgroup := Expr.keeps_renderClause_map hf " GROUP BY " groupBy
    have hhaving := Expr.keeps_renderAnd_map hf " HAVING " having
    have horder := OrderKey.keeps_renderClause_map hf orderBy
    have hpage := Expr.keeps_renderPage_map hf limit offset
    cases projection with
    | none =>
      exact horigin.bind fun _ => hjoins.bind fun _ => hfilters.bind fun _ => hgroup.bind fun _ =>
        hhaving.bind fun _ => horder.bind fun _ => hpage.bind_left _
    | some items =>
      exact (SelectItem.keeps_renderAll_map hf items).bind fun _ => horigin.bind fun _ =>
        hjoins.bind fun _ => hfilters.bind fun _ => hgroup.bind fun _ => hhaving.bind fun _ =>
          horder.bind fun _ => hpage.bind_left _
termination_by structural b => b

/-- What a SELECT reads from keeps its text, if each expression does. -/
theorem Origin.keeps_render_map (hf : KeepsTexts d f g h) : ∀ o : Origin,
    Keeps (o.render d g) ((o.mapExprs f).render d h)
  | .table _ => .refl _
  | .derived body _ => (Statement.keeps_render_map hf body).bind_left _
termination_by structural o => o

/-- Joins keep their text, if each expression does. -/
theorem Join.keeps_renderAll_map (hf : KeepsTexts d f g h) : ∀ joins : List Join,
    Keeps (Join.renderAll d g joins) (Join.renderAll d h (Join.mapExprs f joins))
  | [] => .refl _
  | ⟨kind, target, condition⟩ :: joins => by
    have htarget := JoinTarget.keeps_render_map hf target
    have hjoins := Join.keeps_renderAll_map hf joins
    cases condition with
    | none => exact htarget.bind fun _ => hjoins.bind_left _
    | some condition =>
      exact htarget.bind fun _ => Keeps.bind (hf condition) fun _ => hjoins.bind_left _
termination_by structural joins => joins

/-- What is joined keeps its text, if each expression does. -/
theorem JoinTarget.keeps_render_map (hf : KeepsTexts d f g h) : ∀ target : JoinTarget Statement,
    Keeps (JoinTarget.render d g target) (JoinTarget.render d h (JoinTarget.mapExprs f target))
  | .table _ => .refl _
  | .lateral body _ => (Statement.keeps_render_map hf body).bind_left _
termination_by structural target => target

/-- The entries of a WITH keep their texts, if each expression does. -/
theorem Cte.keeps_renderAll_map (hf : KeepsTexts d f g h) : ∀ ctes : List (Cte Statement),
    Keeps (Cte.renderAll d g ctes) (Cte.renderAll d h (Cte.mapExprs f ctes))
  | [] => .refl _
  | ⟨_, _, body⟩ :: ctes =>
    (Statement.keeps_render_map hf body).bind fun _ => (Cte.keeps_renderAll_map hf ctes).bind_left _
termination_by structural ctes => ctes

/-- An INSERT keeps its text, if each expression does. -/
theorem Insert.keeps_render_map (hf : KeepsTexts d f g h) : ∀ i : Insert,
    Keeps (i.render d g) ((i.mapExprs f).render d h)
  | ⟨name, columns, none, upsert, returning⟩ => .refl _
  | ⟨name, columns, some source, upsert, returning⟩ => by
    have hsource := InsertSource.keeps_render_map hf source
    have hupsert := Upsert.keeps_renderOption_map hf upsert
    have hreturning := SelectItem.keeps_renderReturning_map hf returning
    have hcheck : Upsert.check d (upsert.map (Upsert.mapExprs f)) = Upsert.check d upsert := by
      cases upsert <;> rfl
    have hignore : Upsert.isIgnore d (upsert.map (Upsert.mapExprs f)) =
        Upsert.isIgnore d upsert := by
      rcases upsert with _ | ⟨_, _ | _⟩ <;> rfl
    simp only [Insert.mapExprs, Insert.render, hcheck, hignore]
    exact (Keeps.refl _).bind fun _ => hsource.bind fun _ => hupsert.bind fun _ =>
      hreturning.bind_left _
termination_by structural i => i

/-- What is inserted keeps its text, if each expression does. -/
theorem InsertSource.keeps_render_map (hf : KeepsTexts d f g h) : ∀ s : InsertSource,
    Keeps (s.render d g) ((s.mapExprs f).render d h)
  | .values rows => (Expr.keeps_renderRows_map hf rows).bind_left _
  | .select body => (Statement.keeps_render_map hf body).bind_left _
termination_by structural s => s

end

end Rendering

end SqlAlgebra
