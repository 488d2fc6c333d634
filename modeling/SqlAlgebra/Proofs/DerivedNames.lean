import SqlAlgebra.Proofs.Insets
import SqlAlgebra.Proofs.Marks
import SqlAlgebra.Proofs.Qualifiers
import SqlAlgebra.Proofs.RowSources
import SqlAlgebra.Proofs.Separation

/-!
# The names of derived tables

A pipeline that is wrapped as a derived table takes the name of the table it reads from, a lateral
body has a name of its own, and all else is called `t`. The name is quoted like that of a table,
part by part. So it is a single identifier exactly if there is no dot in it, and the table of a
schema lends its derived table a name that is none.
-/

namespace SqlAlgebra

open Token

section Names

/-- A text is split once for each separator in it. -/
theorem Text.length_split (separator : Char) (s : List Char) :
    (split separator s).length = s.count separator + 1 := by
  induction s with
  | nil => rfl
  | cons c s ih =>
    by_cases hc : c = separator
    · rw [split, if_pos hc, List.length_cons, ih, hc, List.count_cons_self]
    · rw [split, if_neg hc, List.count_cons_of_ne hc]
      cases hsplit : split separator s with
      | nil => simp [hsplit] at ih
      | cons part parts => simpa [hsplit] using ih

/-- A name is read as one identifier exactly if it has no dot in it. -/
theorem Lexeme.ofName_eq_ident_iff (name : String) :
    (∃ part, ofName name = [ident part]) ↔ '.' ∉ name.toList := by
  constructor
  · rintro ⟨part, hname⟩
    have hsplit := filterMap_ident?_ofName name
    have hlength := Text.length_split '.' name.toList
    rw [hname] at hsplit
    rw [← hsplit] at hlength
    exact List.count_eq_zero.mp (Nat.succ.inj hlength).symm
  · intro hdot
    refine ⟨name.toList, ?_⟩
    rw [ofName, Text.split_of_not_mem hdot]
    rfl

/-- A quoted name is read as one identifier exactly if there is no dot in it. -/
theorem Profile.lex_quote_single_iff (p : Profile) (name : String) :
    (∃ part, p.lex (p.quote.quote name).toList = some [.ident part]) ↔ '.' ∉ name.toList := by
  have hlex : p.lex (p.quote.quote name).toList = some (Lexeme.ofName name) := by
    have hend : ([] : List Char).head? ≠ some p.quote.right := by simp
    have hname := p.lex_name name hend
    simpa [Profile.lex] using hname
  simp only [hlex, Option.some.injEq]
  exact Lexeme.ofName_eq_ident_iff name

end Names

section Queries

mutual

/-- The names that a query has for derived tables: those of the tables at its roots and of its
lateral bodies, those in nested queries apart. -/
def Query.sourceNames : Query → List String
  | .table name => [name]
  | .insertInto .. | .update _ | .deleteFrom _ => []
  | .setOperation _ _ left right => left.sourceNames ++ right.sourceNames
  | .withCtes _ ctes main => Cte.sourceNames ctes ++ main.sourceNames
  | .step source stage => source.sourceNames ++ stage.sourceNames
termination_by structural q => q

def Cte.sourceNames : List (Cte Query) → List String
  | [] => []
  | ⟨_, _, body⟩ :: ctes => body.sourceNames ++ Cte.sourceNames ctes
termination_by structural ctes => ctes

def JoinTarget.sourceNames : JoinTarget Query → List String
  | .table _ => []
  | .lateral body name => body.sourceNames ++ [name]
termination_by structural target => target

def Stage.sourceNames : Stage → List String
  | .join target _ _ => JoinTarget.sourceNames target
  | .insertSelect rows => rows.sourceNames
  | .filter _ | .select .. | .orderBy _ | .limit _ | .offset _ | .distinct | .groupBy _ | .having _
  | .values _ | .onConflict .. | .set _ | .updateWhere _ | .deleteWhere _ | .returning .. => []
termination_by structural stage => stage

end

/-- The query has the name for a derived table, somewhere in it. -/
inductive Query.Offers : Query → String → Prop where
  | part {q : Query} {name : String} (hname : name ∈ q.sourceNames) : Offers q name
  | nested {q p : Query} {name : String} (hp : p ∈ q.nestedQueries) (hname : Offers p name) :
    Offers q name

/-- The statement has a derived table of the name, somewhere in its text. -/
inductive Statement.NamesDerived (d : Dialect) : Statement → String → Prop where
  | part {s : Statement} {name : String} (hname : name ∈ s.derivedNames) : NamesDerived d s name
  | nested {s t : Statement} {q : Query} {name : String} (hq : q ∈ s.nestedQueries)
      (ht : q.lowerRows d = .ok t) (hname : NamesDerived d t name) : NamesDerived d s name

/-- A pipeline that gives rows is named for a table that it reads, or `t`. -/
theorem Query.derivedName_scope {d : Dialect} : ∀ {s : Statement} {q : Query},
    q.lower d = .ok s → s.form = .rows → q.scope.derivedName ∈ "t" :: q.sourceNames
  | _, .table name, _, _ => by simp [Query.scope, Scope.derivedName, Query.sourceNames]
  | s, .insertInto .., h, hform | s, .update _, h, hform | s, .deleteFrom _, h, hform => by
    cases h
    cases hform
  | _, .setOperation .., _, _ | _, .withCtes .., _, _ => List.mem_cons_self
  | s, .step source stage, h, hform => by
    by_cases hjoin : stage.kind = .join
    · rw [Query.scope_step_join hjoin]
      exact List.mem_cons_self
    · obtain ⟨s₀, hs₀, hadvance⟩ := Stage.form_lower h
      have hrows : s₀.form = .rows := (Form.eq_rows_iff_of_advance hadvance).mp hform
      have hname := Query.derivedName_scope hs₀ hrows
      rw [Query.scope_step hjoin]
      exact List.cons_subset_cons "t" (List.subset_append_left _ _) hname
termination_by structural _ q => q

end Queries

section Lowering

/-- The names of the derived tables that are added to a SELECT. -/
def Addition.derivedNames : Addition → List String
  | .join added => Join.derivedNames [added]
  | _ => []

/-- The derived tables of a SELECT are those in what it reads from and then those in its joins. -/
theorem Block.derivedNames_eq (b : Block) :
    b.derivedNames = b.origin.derivedNames ++ Join.derivedNames b.joins := by
  cases b
  rfl

/-- The derived tables of joins are those of the first ones and then those of the others. -/
theorem Join.derivedNames_append (joins joins' : List Join) :
    Join.derivedNames (joins ++ joins') = Join.derivedNames joins ++ Join.derivedNames joins' := by
  induction joins with
  | nil => rfl
  | cons join joins ih =>
    obtain ⟨kind, target, condition⟩ := join
    simp [Join.derivedNames, ih]

/-- What is added to a SELECT brings its own derived tables. -/
theorem Block.derivedNames_add (b : Block) (a : Addition) :
    (b.add a).derivedNames = b.derivedNames ++ a.derivedNames := by
  rw [Block.derivedNames_eq, Block.derivedNames_eq]
  cases a with
  | join added => simp [Block.add, Addition.derivedNames, Join.derivedNames_append]
  | _ => simp [Block.add, Addition.derivedNames]

/-- A SELECT opened over a statement has its derived tables, and at most one more. -/
theorem Statement.derivedNames_blockFor (clause : Clause) (name : String) (s : Statement) :
    (s.blockFor clause name).derivedNames ⊆ s.derivedNames ++ [name] := by
  have horigin (s : Statement) :
      (Block.ofOrigin (.derived s name)).derivedNames = s.derivedNames ++ [name] := by
    simp [Block.derivedNames_eq, Block.ofOrigin, Origin.derivedNames, Join.derivedNames]
  cases s with
  | select block =>
    by_cases h : block.accepts clause = true
    · rw [Statement.blockFor, if_pos h]
      exact List.subset_append_left _ _
    · rw [Statement.blockFor, if_neg h, horigin]
      exact List.Subset.refl _
  | _ =>
    rw [Statement.blockFor, horigin]
    · exact List.Subset.refl _
    · simp

/-- The guard of an INSERT makes no derived table in its rows. -/
theorem Statement.derivedNames_guardJoin : ∀ s : Statement,
    s.guardJoin.derivedNames = s.derivedNames
  | .select block => by
    unfold Statement.guardJoin
    split
    · simp [Statement.derivedNames, Block.derivedNames_eq]
    · rfl
  | .withCtes _ ctes body => by
    rw [Statement.guardJoin, Statement.derivedNames, Statement.derivedNames,
      Statement.derivedNames_guardJoin body]
  | .setOperation .. | .insert _ | .update _ | .delete _ => rfl
termination_by structural s => s

/-- The derived tables of an INSERT are those in what it inserts. -/
theorem Insert.derivedNames_eq (i : Insert) :
    i.derivedNames = i.source.elim [] InsertSource.derivedNames := by
  obtain ⟨table, columns, source, upsert, returning⟩ := i
  cases source <;> rfl

/-- The guard of an INSERT makes no derived table. -/
theorem Insert.derivedNames_guardJoin (d : Dialect) (i : Insert) :
    (i.guardJoin d).derivedNames = i.derivedNames := by
  unfold Insert.guardJoin
  split
  · rename_i body hupsert hsource
    simp [Insert.derivedNames_eq, hsource, InsertSource.derivedNames,
      Statement.derivedNames_guardJoin]
  · rfl

/-- Two lists that have, but for one item, only what is in two others have together only what is in
both. -/
theorem append_subset_cons {α : Type} {a : α} {xs ys as bs : List α} (hxs : xs ⊆ a :: as)
    (hys : ys ⊆ a :: bs) : xs ++ ys ⊆ a :: (as ++ bs) := by
  refine List.append_subset.mpr ⟨List.Subset.trans hxs ?_, List.Subset.trans hys ?_⟩
  · exact List.cons_subset_cons a (List.subset_append_left as bs)
  · exact List.cons_subset_cons a (List.subset_append_right as bs)

/-- A stage upon rows has the derived tables of its source and of what it adds, and may wrap its
source under a name of its own. -/
theorem Stage.derivedNames_extend {d : Dialect} {source : Query} {s₀ : Statement}
    (hs₀ : source.lower d = .ok s₀) (hform : s₀.form = .rows)
    (hsource : s₀.derivedNames ⊆ "t" :: source.sourceNames) {a : Option Addition}
    {names : List String} (hadded : a.elim [] Addition.derivedNames ⊆ "t" :: names) :
    (s₀.extend source.scope.derivedName a).derivedNames ⊆ "t" :: (source.sourceNames ++ names) := by
  cases a with
  | none =>
    exact List.Subset.trans hsource (List.cons_subset_cons "t" (List.subset_append_left _ _))
  | some a =>
    have hname := Query.derivedName_scope hs₀ hform
    rw [Statement.extend, Statement.derivedNames, Block.derivedNames_add]
    refine append_subset_cons (List.Subset.trans (s₀.derivedNames_blockFor _ _) ?_) hadded
    exact List.append_subset.mpr ⟨hsource, by simpa using hname⟩

/-- Only a join adds something that has derived tables. -/
theorem Stage.Adds.derivedNames_eq_nil {d : Dialect} {scope : Scope} {stage : Stage}
    {a : Option Addition} (hjoin : stage.kind ≠ .join) (h : stage.Adds d scope a) :
    a.elim [] Addition.derivedNames = [] := by
  cases h with
  | join => exact absurd rfl hjoin
  | _ => rfl

/-- A row stage that is no join makes a derived table of what it follows, or none. -/
theorem Stage.derivedNames_rowStage {d : Dialect} {source : Query} {stage : Stage} {s : Statement}
    (hrow : stage.kind.isRowStage = true) (hjoin : stage.kind ≠ .join)
    (h : (Query.step source stage).lower d = .ok s) :
    ∃ s₀, source.lower d = .ok s₀ ∧ (s₀.derivedNames ⊆ "t" :: source.sourceNames →
      s.derivedNames ⊆ "t" :: (Query.step source stage).sourceNames) := by
  obtain ⟨a, s₀, ha, hs₀, hform, rfl⟩ := (Stage.lower_rowStage_eq_ok hrow).mp h
  refine ⟨s₀, hs₀, fun hsource => Stage.derivedNames_extend hs₀ hform hsource ?_⟩
  rw [(Stage.adds_of_addition ha).derivedNames_eq_nil hjoin]
  exact List.nil_subset _

mutual

/-- The derived tables of a statement have names that its query has for them, or are called `t`. -/
theorem Query.derivedNames_lower (d : Dialect) : ∀ {q : Query} {s : Statement},
    q.lower d = .ok s → s.derivedNames ⊆ "t" :: q.sourceNames
  | .table _, s, h | .insertInto .., s, h | .update _, s, h | .deleteFrom _, s, h => by
    cases h
    exact List.nil_subset _
  | .setOperation op all left right, s, h => by
    obtain ⟨-, left', right', hleft, hright, rfl⟩ := Query.lower_setOperation.mp h
    have hleft' := Query.derivedNames_lower d (Query.lowerRows_eq_ok.mp hleft).1
    have hright' := Query.derivedNames_lower d (Query.lowerRows_eq_ok.mp hright).1
    have hwrap (isFlat : Bool) (names : List String) :
        (if isFlat then [] else ["t"]) ⊆ "t" :: names := by
      cases isFlat <;> simp
    exact append_subset_cons (List.append_subset.mpr ⟨hleft', hwrap _ _⟩)
      (List.append_subset.mpr ⟨hright', hwrap _ _⟩)
  | .withCtes recursive ctes main, s, h => by
    obtain ⟨-, -, ctes', body, hctes, hbody, rfl⟩ := Query.lower_withCtes.mp h
    exact append_subset_cons (Cte.derivedNames_lowerAll d hctes) (Query.derivedNames_lower d hbody)
  | .step source stage, s, h => by
    obtain ⟨s₀, hs₀, hstage⟩ := Stage.derivedNames_lower d h
    exact hstage (Query.derivedNames_lower d hs₀)
termination_by structural q => q

/-- The derived tables in the lowered entries of a WITH have their names from the queries of the
entries. -/
theorem Cte.derivedNames_lowerAll (d : Dialect) : ∀ {ctes : List (Cte Query)}
    {ctes' : List (Cte Statement)}, Cte.lowerAll d ctes = .ok ctes' →
    Cte.derivedNames ctes' ⊆ "t" :: Cte.sourceNames ctes
  | [], ctes', h => by
    cases h
    exact List.nil_subset _
  | ⟨name, columns, body⟩ :: ctes, ctes', h => by
    simp only [Cte.lowerAll, bind_eq_ok, pure_eq_ok] at h
    obtain ⟨body', hbody, ctes', hctes, rfl⟩ := h
    exact append_subset_cons (Query.derivedNames_lower d hbody) (Cte.derivedNames_lowerAll d hctes)
termination_by structural ctes => ctes

/-- The derived tables in what is joined have their names from it. -/
theorem JoinTarget.derivedNames_lower (d : Dialect) : ∀ {target : JoinTarget Query}
    {target' : JoinTarget Statement}, JoinTarget.lower d target = .ok target' →
    JoinTarget.derivedNames target' ⊆ "t" :: JoinTarget.sourceNames target
  | .table _, target', h => by
    cases h
    exact List.nil_subset _
  | .lateral body name, target', h => by
    obtain ⟨-, body', hbody, rfl⟩ := JoinTarget.lower_lateral.mp h
    have hbody' := Query.derivedNames_lower d (Query.lowerRows_eq_ok.mp hbody).1
    exact append_subset_cons hbody' (List.subset_cons_self "t" [name])
termination_by structural target => target

/-- A stage adds only derived tables whose names come from it or from what it follows. -/
theorem Stage.derivedNames_lower (d : Dialect) {source : Query} : ∀ {stage : Stage}
    {s : Statement}, (Query.step source stage).lower d = .ok s →
    ∃ s₀, source.lower d = .ok s₀ ∧ (s₀.derivedNames ⊆ "t" :: source.sourceNames →
      s.derivedNames ⊆ "t" :: (Query.step source stage).sourceNames)
  | .filter _, s, h | .having _, s, h | .limit _, s, h | .offset _, s, h | .select .., s, h
  | .orderBy _, s, h | .distinct, s, h | .groupBy _, s, h =>
    Stage.derivedNames_rowStage rfl (by simp [Stage.kind]) h
  | .join target condition kind, s, h => by
    obtain ⟨a, s₀, ha, hs₀, hform, rfl⟩ := (Stage.lower_rowStage_eq_ok rfl).mp h
    refine ⟨s₀, hs₀, fun hsource => Stage.derivedNames_extend hs₀ hform hsource ?_⟩
    cases Stage.adds_of_addition ha with
    | nothing hreads => cases hreads
    | join _ htarget =>
      have hlateral := JoinTarget.derivedNames_lower d htarget
      simpa [Addition.derivedNames, Join.derivedNames, Stage.sourceNames] using hlateral
  | .insertSelect rows, s, h => by
    obtain ⟨i, body, hi, -, -, hrows, rfl⟩ := Stage.lower_insertSelect.mp h
    have hbody := Query.derivedNames_lower d (Query.lowerRows_eq_ok.mp hrows).1
    refine ⟨_, hi, fun _ => List.Subset.trans hbody ?_⟩
    exact List.cons_subset_cons "t" (List.subset_append_right _ _)
  | .values rows, s, h => by
    obtain ⟨i, rows', hi, -, -, -, -, rfl⟩ := Stage.lower_values.mp h
    exact ⟨_, hi, fun _ => List.nil_subset _⟩
  | .onConflict target action, s, h => by
    obtain ⟨-, i, action', hi, -, -, -, -, rfl⟩ := Stage.lower_onConflict.mp h
    refine ⟨_, hi, fun hsource => ?_⟩
    rw [Statement.derivedNames, Insert.derivedNames_eq] at hsource
    rw [Statement.derivedNames, Insert.derivedNames_guardJoin, Insert.derivedNames_eq]
    simpa [Query.sourceNames, Stage.sourceNames] using hsource
  | .set _, s, h => by
    obtain ⟨-, u, assignments', hu, -, -, -, rfl⟩ := Stage.lower_set.mp h
    exact ⟨_, hu, fun _ => List.nil_subset _⟩
  | .updateWhere _, s, h => by
    obtain ⟨u, e', hu, -, -, rfl⟩ := Stage.lower_updateWhere.mp h
    exact ⟨_, hu, fun _ => List.nil_subset _⟩
  | .deleteWhere _, s, h => by
    obtain ⟨x, e', hx, -, -, rfl⟩ := Stage.lower_deleteWhere.mp h
    exact ⟨_, hx, fun _ => List.nil_subset _⟩
  | .returning _ items, s, h => by
    obtain ⟨-, -, items', s₀, -, hs₀, hadd⟩ := Stage.lower_returning.mp h
    refine ⟨s₀, hs₀, fun hsource => ?_⟩
    rcases Statement.addReturning_eq_ok.mp hadd with
      ⟨i, rfl, -, rfl⟩ | ⟨u, rfl, -, rfl⟩ | ⟨x, rfl, -, rfl⟩
    · rw [Statement.derivedNames, Insert.derivedNames_eq] at hsource ⊢
      simpa [Query.sourceNames, Stage.sourceNames] using hsource
    · exact List.nil_subset _
    · exact List.nil_subset _
termination_by structural stage => stage

end

end Lowering

namespace Statement.NamesDerived

variable {d : Dialect} {s : Statement} {name : String}

/-- The name comes from the query, unless it is `t`. -/
theorem offers (h : s.NamesDerived d name) {q : Query} (hs : q.lower d = .ok s) :
    name = "t" ∨ q.Offers name := by
  induction h generalizing q with
  | part hname => exact (List.mem_cons.mp (Query.derivedNames_lower d hs hname)).imp_right .part
  | nested hp ht _ ih =>
    have hp := (Query.mem_nestedQueries_lower hs).mp hp
    exact (ih (Query.lowerRows_eq_ok.mp ht).1).imp_right (.nested hp)

/-- A derived table of the name is written, however deeply it is nested. -/
theorem exists_derived (h : s.NamesDerived d name) {limit : Nat} {ts : List Token}
    (hts : s.render d (Query.renderRows d limit) = .ok ts) :
    ∃ body, derived body name <:+: ts := by
  induction h generalizing limit ts with
  | part hname => exact (Statement.shows_render _ _ hts).names _ hname
  | @nested s t q name hq ht _ ih =>
    obtain ⟨us, hus, hwithin⟩ := (Statement.shows_render _ _ hts).queries q hq
    cases limit with
    | zero => cases hus
    | succ limit =>
      obtain ⟨t', ht', hus⟩ := bind_eq_ok.mp hus
      cases ht.symm.trans ht'
      obtain ⟨body, hbody⟩ := ih hus
      exact ⟨body, hbody.trans hwithin⟩

end Statement.NamesDerived

section Text

/-- Segments are written one after another, the second ones from some number on. -/
theorem Segment.exists_write_append (placeholder : Nat → String) (segments segments' : List Segment)
    (next : Nat) : ∃ next', write placeholder next (segments ++ segments') =
      write placeholder next segments ++ write placeholder next' segments' := by
  induction segments generalizing next with
  | nil => exact ⟨next, rfl⟩
  | cons segment segments ih =>
    cases segment with
    | text s =>
      obtain ⟨next', h⟩ := ih next
      exact ⟨next', by rw [List.cons_append, write, write, h, List.cons_append]⟩
    | slot name =>
      obtain ⟨next', h⟩ := ih (next + 1)
      exact ⟨next', by rw [List.cons_append, write, write, h, List.cons_append]⟩

/-- The name of a derived table stands quoted behind its bracket and the word AS. -/
theorem Plan.infix_sql_derived (d : Dialect) {body ts : List Token} {name : String}
    (h : derived body name <:+: ts) :
    (") AS " ++ d.quote name).toList <:+: (Plan.ofTokens d ts).sql.toList := by
  obtain ⟨before, after, rfl⟩ := h
  have hparts : before ++ derived body name ++ after =
      (before ++ leftParen :: body) ++ rightParen :: text " AS " :: ident name :: after := by
    simp [derived, parens]
  rw [hparts, Plan.ofTokens, Plan.ofSegments, pieces_append, List.map_append]
  obtain ⟨next, hwrite⟩ := Segment.exists_write_append d.placeholder
    ((pieces false (before ++ leftParen :: body)).map (Piece.segment d))
    ((pieces (asValuesAfter false (before ++ leftParen :: body))
      (rightParen :: text " AS " :: ident name :: after)).map (Piece.segment d)) 1
  simp only [hwrite, String.toList_join, List.flatMap_append]
  refine List.IsInfix.trans ?_ (List.suffix_append _ _).isInfix
  simp only [rightParen, text, ident, pieces, List.map_cons, Piece.segment, Segment.write,
    List.flatMap_cons, String.toList_append, ← List.append_assoc]
  exact (List.prefix_append _ _).isInfix

end Text

/-- The name behind each derived table in a plan is a single identifier exactly if there is no dot
in it. It is `t`, or the name of a table or a lateral body in the query. -/
theorem derivedName_single_iff {p : Profile} {d : Dialect} (hquote : d.quote = p.quote.quote)
    {q : Query} {plan : Plan} (hplan : q.compile d = .ok plan) :
    ∃ s, q.lower d = .ok s ∧ ∀ name, s.NamesDerived d name →
      (") AS " ++ d.quote name).toList <:+: plan.sql.toList ∧
      ((∃ part, p.lex (d.quote name).toList = some [.ident part]) ↔ '.' ∉ name.toList) ∧
      (name = "t" ∨ q.Offers name) := by
  obtain ⟨tokens, htokens, hplan⟩ := bind_eq_ok.mp hplan
  obtain ⟨s, hs, hrender⟩ := bind_eq_ok.mp htokens
  rw [← pure_eq_ok.mp hplan]
  refine ⟨s, hs, fun name hname => ⟨?_, ?_, hname.offers hs⟩⟩
  · obtain ⟨body, hbody⟩ := hname.exists_derived hrender
    exact Plan.infix_sql_derived d hbody
  · rw [hquote]
    exact p.lex_quote_single_iff name

/-- The first row of a table, taken before a filter. -/
def Query.firstOf (name : String) : Query :=
  ((table name).limit (.literal (.int 1))).filter (.literal (.bool true))

/-- The derived table over a table of no schema has a single identifier for a name. -/
theorem derivedName_single_iff_users :
    ∃ plan s, (Query.firstOf "users").compile Profile.postgres.dialect = .ok plan ∧
      (Query.firstOf "users").lower Profile.postgres.dialect = .ok s ∧
      s.NamesDerived Profile.postgres.dialect "users" ∧
      ") AS \"users\"".toList <:+: plan.sql.toList ∧
      ∃ part, Profile.postgres.lex "\"users\"".toList = some [.ident part] := by
  have hplan : (Query.firstOf "users").compile Profile.postgres.dialect =
      .ok ⟨"SELECT * FROM (SELECT * FROM \"users\" LIMIT 1) AS \"users\" WHERE TRUE", []⟩ := rfl
  have hquote : Profile.postgres.dialect.quote = Profile.postgres.quote.quote := rfl
  obtain ⟨s, hs, hnames⟩ := derivedName_single_iff hquote hplan
  have hname : s.NamesDerived Profile.postgres.dialect "users" := by
    cases hs
    exact .part List.mem_cons_self
  obtain ⟨htext, hsingle, -⟩ := hnames "users" hname
  exact ⟨_, s, hplan, hs, hname, htext, hsingle.mpr (by decide)⟩

/-- The name of the derived table over a table of a schema has two parts. -/
theorem not_single_schemaTable :
    ∃ plan s, (Query.firstOf "public.users").compile Profile.postgres.dialect = .ok plan ∧
      plan.sql = "SELECT * FROM (SELECT * FROM \"public\".\"users\" LIMIT 1) " ++
        "AS \"public\".\"users\" WHERE TRUE" ∧
      (Query.firstOf "public.users").lower Profile.postgres.dialect = .ok s ∧
      s.NamesDerived Profile.postgres.dialect "public.users" ∧
      ¬ ∃ part, Profile.postgres.lex (Profile.postgres.dialect.quote "public.users").toList =
        some [.ident part] := by
  refine ⟨⟨_, []⟩, _, rfl, rfl, rfl, .part List.mem_cons_self, ?_⟩
  intro hsingle
  have hdot := (Profile.postgres.lex_quote_single_iff "public.users").mp hsingle
  exact hdot (by decide)

end SqlAlgebra
