import SqlAlgebra.Dialect.Profile
import SqlAlgebra.Proofs.Gluing
import SqlAlgebra.Proofs.RowSources

/-!
# The SELECT before ON CONFLICT

The word ON behind a table that a SELECT reads from starts the condition of a join. So the row query
of an insertion with ON CONFLICT is given a WHERE, which is done for a single SELECT, also below
WITHs. The text of a set operation ends with its right operand, which gets none: there the WHERE is
missing unless the operand has one of its own.
-/

namespace SqlAlgebra

open Token

section Statements

/-- The statement is a set operation, by itself or as the main statement of its WITHs. -/
def Statement.combines : Statement → Bool
  | .setOperation .. => true
  | .withCtes _ _ body => body.combines
  | .select _ | .insert _ | .update _ | .delete _ => false

/-- The query is a set operation, by itself or as the main query of its WITHs. -/
def Query.combines : Query → Bool
  | .setOperation .. => true
  | .withCtes _ _ main => main.combines
  | .step source stage => !stage.readsRows && source.combines
  | .table _ | .insertInto .. | .update _ | .deleteFrom _ => false

mutual

/-- The SELECT with which the text of a statement ends, if it ends with one. -/
def Statement.lastSelect? : Statement → Option Block
  | .select block => some block
  | .setOperation _ _ _ right =>
    if right.isFlat none then right.lastSelect? else some (.ofOrigin (.derived right "t"))
  | .withCtes _ _ body => body.lastSelect?
  | .insert i => i.lastSelect?
  | .update _ | .delete _ => none
termination_by structural s => s

def Insert.lastSelect? : Insert → Option Block
  | ⟨_, _, some source, none, none⟩ => source.lastSelect?
  | ⟨_, _, _, _, _⟩ => none
termination_by structural i => i

def InsertSource.lastSelect? : InsertSource → Option Block
  | .values _ => none
  | .select body => body.lastSelect?
termination_by structural source => source

end

/-- A statement that does not give rows is no set operation. -/
theorem Statement.combines_of_form {s : Statement} (h : s.form ≠ .rows) : s.combines = false := by
  cases s with
  | insert i | update u | delete x => rfl
  | select | setOperation | withCtes => exact absurd rfl h

/-- A stage leaves a set operation what it is unless it reads the rows. -/
theorem Stage.combines_lower {d : Dialect} {scope : Scope} {source : Source} {stage : Stage}
    {s : Statement} (h : stage.lower d scope source = .ok s) :
    ∃ s₀, source.statement = .ok s₀ ∧ s.combines = (!stage.readsRows && s₀.combines) := by
  obtain ⟨s₀, hs₀, ⟨hreads, block, rfl⟩ | ⟨hreads, rfl | ⟨hbefore, hafter⟩⟩⟩ :=
    Stage.statement_lower h
  · exact ⟨s₀, hs₀, by simp [hreads, Statement.combines]⟩
  · exact ⟨s, hs₀, by simp [hreads]⟩
  · refine ⟨s₀, hs₀, ?_⟩
    rw [Statement.combines_of_form hbefore, Statement.combines_of_form hafter, Bool.and_false]

/-- The statement of a query is a set operation exactly if the query is. -/
theorem Query.combines_lower {d : Dialect} : ∀ {s : Statement} {q : Query}, q.lower d = .ok s →
    s.combines = q.combines
  | s, .table _, h | s, .insertInto .., h | s, .update _, h | s, .deleteFrom _, h => by
    cases h
    rfl
  | s, .setOperation op all left right, h => by
    obtain ⟨-, left', right', -, -, rfl⟩ := Query.lower_setOperation.mp h
    rfl
  | s, .withCtes recursive ctes main, h => by
    obtain ⟨-, -, ctes', body, -, hbody, rfl⟩ := Query.lower_withCtes.mp h
    have hmain := Query.combines_lower hbody
    exact hmain
  | s, .step source stage, h => by
    obtain ⟨s₀, hs₀, hcombines⟩ := Stage.combines_lower h
    rw [hcombines, Query.combines, Query.combines_lower hs₀]
termination_by structural _ q => q

/-- A single SELECT has a filter after it has been guarded. -/
theorem Statement.lastSelect?_guardJoin_single : ∀ {s : Statement}, s.combines = false →
    s.modifies = false → ∃ b, s.guardJoin.lastSelect? = some b ∧ b.filters ≠ []
  | .select block, _, _ => by
    cases hfilters : block.filters with
    | nil =>
      refine ⟨{ block with filters := [.literal (.bool true)] }, ?_, List.cons_ne_nil _ _⟩
      simp [guardJoin, hfilters, lastSelect?]
    | cons e es =>
      refine ⟨block, ?_, by simp [hfilters]⟩
      simp [guardJoin, hfilters, lastSelect?]
  | .withCtes _ _ body, hcombines, hmodifies =>
    Statement.lastSelect?_guardJoin_single (s := body) hcombines hmodifies
termination_by structural s => s

/-- Nothing else is changed by guarding it. -/
theorem Statement.guardJoin_eq_self : ∀ {s : Statement}, (s.combines || s.modifies) = true →
    s.guardJoin = s
  | .setOperation .., _ | .insert _, _ | .update _, _ | .delete _, _ => rfl
  | .withCtes _ _ body, h => by
    rw [guardJoin, Statement.guardJoin_eq_self (s := body) h]
termination_by structural s => s

/-- The last SELECT of a guarded statement has a filter exactly if it was given one or had one. -/
theorem Statement.filters_guardJoin_iff {s : Statement} {b : Block}
    (hb : s.guardJoin.lastSelect? = some b) :
    b.filters ≠ [] ↔ s.combines = false ∧ s.modifies = false ∨
      ∃ b₀, s.lastSelect? = some b₀ ∧ b₀.filters ≠ [] := by
  cases hother : s.combines || s.modifies with
  | false =>
    obtain ⟨hcombines, hmodifies⟩ := Bool.or_eq_false_iff.mp hother
    obtain ⟨b', hb', hfilters⟩ := Statement.lastSelect?_guardJoin_single hcombines hmodifies
    cases hb.symm.trans hb'
    exact iff_of_true hfilters (Or.inl ⟨hcombines, hmodifies⟩)
  | true =>
    rw [Statement.guardJoin_eq_self hother] at hb
    constructor
    · intro hfilters
      exact Or.inr ⟨b, hb, hfilters⟩
    · rintro (⟨hcombines, hmodifies⟩ | ⟨b₀, hb₀, hfilters⟩)
      · simp [hcombines, hmodifies] at hother
      · cases hb.symm.trans hb₀
        exact hfilters

/-- A statement whose text does not end with a SELECT modifies data. -/
theorem Statement.modifies_of_lastSelect?_eq_none : ∀ {s : Statement}, s.lastSelect? = none →
    s.modifies = true
  | .insert _, _ | .update _, _ | .delete _, _ => rfl
  | .setOperation _ _ _ right, h => by
    cases right with
    | select block =>
      rw [lastSelect?] at h
      split at h <;> cases h
    | _ => cases h
  | .withCtes _ _ body, h => Statement.modifies_of_lastSelect?_eq_none (s := body) h
termination_by structural s => s

end Statements

section Text

variable {d : Dialect} {nested : Query → Rendered}

namespace Block

/-- The text of a SELECT up to the last of its joins. -/
def renderReads (d : Dialect) (nested : Query → Rendered) (b : Block) : Rendered := do
  let items ← b.projection.elim (.ok [text "*"]) (SelectItem.renderAll d nested)
  let origin ← b.origin.render d nested
  let joins ← Join.renderAll d nested b.joins
  return .text (if b.distinct then "SELECT DISTINCT " else "SELECT ") :: items ++
    .text " FROM " :: origin ++ joins

/-- The text of a SELECT behind its joins. -/
def renderClauses (d : Dialect) (nested : Query → Rendered) (b : Block) : Rendered := do
  let filters ← Expr.renderAnd d nested " WHERE " b.filters
  let groupBy ← Expr.renderClause d nested " GROUP BY " b.groupBy
  let having ← Expr.renderAnd d nested " HAVING " b.having
  let orderBy ← OrderKey.renderClause d nested b.orderBy
  let page ← Expr.renderPage d nested b.limit b.offset
  return filters ++ groupBy ++ having ++ orderBy ++ page

/-- The text of a SELECT is what it reads from and then its other clauses. -/
theorem exists_renderReads {b : Block} {ts : List Token} (h : b.render d nested = .ok ts) :
    ∃ reads clauses, b.renderReads d nested = .ok reads ∧
      b.renderClauses d nested = .ok clauses ∧ ts = reads ++ clauses := by
  obtain ⟨origin, joins, filters, groupBy, having, projection, distinct, orderBy, limit, offset⟩ :=
    b
  simp only [renderReads, renderClauses, bind_eq_ok, pure_eq_ok]
  cases projection <;>
  · simp only [render, bind_eq_ok, pure_eq_ok] at h
    obtain ⟨items, hitems, origin', horigin, joins', hjoins, filters', hfilters, groupBy', hgroupBy,
      having', hhaving, orderBy', horderBy, page, hpage, rfl⟩ := h
    refine ⟨_, _, ⟨items, ?_, origin', horigin, joins', hjoins, rfl⟩, ⟨filters', hfilters,
      groupBy', hgroupBy, having', hhaving, orderBy', horderBy, page, hpage, rfl⟩, ?_⟩
    · simp [← hitems]
    · simp

/-- Nothing stands behind the tables and joins that the SELECT reads from. -/
def isBare (b : Block) : Bool := b.filters.isEmpty && !b.grouped && !b.paged

/-- The text of the tokens ends with a SELECT, which for its part ends with the clauses. -/
def EndsText (d : Dialect) (nested : Query → Rendered) (b : Block) (clauses ts : List Token) :
    Prop :=
  ∃ front reads, SameText d ts (front ++ (reads ++ clauses)) ∧
    b.renderReads d nested = .ok reads ∧ b.renderClauses d nested = .ok clauses

/-- A text ends with a SELECT whatever is put in front of it. -/
theorem EndsText.prepend {b : Block} {clauses ts : List Token} (h : b.EndsText d nested clauses ts)
    (front : List Token) : b.EndsText d nested clauses (front ++ ts) := by
  obtain ⟨front', reads, hsame, hreads, hclauses⟩ := h
  have happend := (SameText.refl d front).append hsame
  rw [← List.append_assoc] at happend
  exact ⟨front ++ front', reads, happend, hreads, hclauses⟩

/-- The clauses at the end of a text are those of the SELECT. -/
theorem EndsText.renderClauses_eq {b : Block} {clauses ts : List Token}
    (h : b.EndsText d nested clauses ts) : b.renderClauses d nested = .ok clauses := by
  obtain ⟨front, reads, -, -, hclauses⟩ := h
  exact hclauses

/-- The text of a SELECT ends with the SELECT. -/
theorem exists_endsText {b : Block} {ts : List Token} (h : b.render d nested = .ok ts) :
    ∃ clauses, b.EndsText d nested clauses ts := by
  obtain ⟨reads, clauses, hreads, hclauses, rfl⟩ := exists_renderReads h
  exact ⟨clauses, [], reads, .refl d _, hreads, hclauses⟩

/-- A statement that is read as a derived table is written as the SELECT from it. -/
theorem exists_endsText_derived {s : Statement} {ts : List Token} (h : s.render d nested = .ok ts)
    (name : String) : ∃ clauses, (ofOrigin (.derived s name)).EndsText d nested clauses
      (.text "SELECT * FROM " :: derived ts name) := by
  refine ⟨[], [], .text "SELECT " :: [text "*"] ++ .text " FROM " :: derived ts name ++ [], ?_, ?_,
    rfl⟩
  · have hfrom : SameText d [text "* FROM "] [text "*", text " FROM "] :=
      sameText_glue d "*" " FROM "
    have hselect : SameText d [text "SELECT * FROM "] [text "SELECT ", text "* FROM "] :=
      sameText_glue d "SELECT " "* FROM "
    have hopening := hselect.trans ((SameText.refl d [text "SELECT "]).append hfrom)
    simpa using hopening.append (.refl d (derived ts name))
  · simp [renderReads, ofOrigin, Origin.render, h, Join.renderAll, pure, Except.pure]

end Block

mutual

/-- The text of a statement ends with its last SELECT. -/
theorem Statement.exists_endsText : ∀ {s : Statement} {ts : List Token} {b : Block},
    s.render d nested = .ok ts → s.lastSelect? = some b →
    ∃ clauses, b.EndsText d nested clauses ts
  | .select block, ts, b, hts, hb => by
    cases hb
    exact Block.exists_endsText hts
  | .setOperation op all left right, ts, b, hts, hb => by
    simp only [Statement.render, bind_eq_ok, pure_eq_ok] at hts
    obtain ⟨leftTokens, -, rightTokens, hright, rfl⟩ := hts
    have hoperand : ∃ clauses, b.EndsText d nested clauses
        (operand (right.isFlat none) rightTokens) := by
      rw [Statement.lastSelect?] at hb
      cases hflat : right.isFlat none with
      | true =>
        rw [hflat] at hb
        exact Statement.exists_endsText hright hb
      | false =>
        rw [hflat] at hb
        cases hb
        exact Block.exists_endsText_derived hright "t"
    obtain ⟨clauses, hclauses⟩ := hoperand
    have happend := (hclauses.prepend [.text (" " ++ op.keyword ++ (if all then " ALL " else " "))])
    exact ⟨clauses, happend.prepend _⟩
  | .withCtes recursive ctes body, ts, b, hts, hb => by
    simp only [Statement.render, bind_eq_ok, pure_eq_ok] at hts
    obtain ⟨ctes', -, bodyTokens, hbody, rfl⟩ := hts
    obtain ⟨clauses, hclauses⟩ := Statement.exists_endsText hbody hb
    exact ⟨clauses, (hclauses.prepend [.text " "]).prepend _⟩
  | .insert i, ts, b, hts, hb => Insert.exists_endsText hts hb
termination_by structural s => s

/-- The text of an INSERT whose last part is a SELECT ends with this SELECT. -/
theorem Insert.exists_endsText : ∀ {i : Insert} {ts : List Token} {b : Block},
    i.render d nested = .ok ts → i.lastSelect? = some b →
    ∃ clauses, b.EndsText d nested clauses ts
  | ⟨table, columns, some source, none, none⟩, ts, b, hts, hb => by
    simp only [Insert.render, Upsert.renderOption, SelectItem.renderReturning, bind_eq_ok,
      pure_eq_ok, Except.ok.injEq] at hts
    obtain ⟨-, -, sourceTokens, hsource, _, rfl, _, rfl, rfl⟩ := hts
    obtain ⟨clauses, hclauses⟩ := InsertSource.exists_endsText hsource hb
    simp only [List.append_nil]
    exact ⟨clauses, hclauses.prepend _⟩
termination_by structural i => i

/-- The text of inserted rows whose last part is a SELECT ends with this SELECT. -/
theorem InsertSource.exists_endsText : ∀ {source : InsertSource} {ts : List Token} {b : Block},
    source.render d nested = .ok ts → source.lastSelect? = some b →
    ∃ clauses, b.EndsText d nested clauses ts
  | .select body, ts, b, hts, hb => by
    simp only [InsertSource.render, bind_eq_ok, pure_eq_ok] at hts
    obtain ⟨bodyTokens, hbody, rfl⟩ := hts
    obtain ⟨clauses, hclauses⟩ := Statement.exists_endsText hbody hb
    exact ⟨clauses, hclauses.prepend [.text " "]⟩
termination_by structural source => source

end

/-- A clause starts with its keyword, and is left out if there is nothing to list in it. -/
def Token.Lists {α : Type} (keyword : String) (xs : List α) (ts : List Token) : Prop :=
  xs = [] ∧ ts = [] ∨ xs ≠ [] ∧ ∃ rest, ts = .text keyword :: rest

/-- A clause has no text exactly if there is nothing to list in it. -/
theorem Token.Lists.eq_nil_iff {α : Type} {keyword : String} {xs : List α} {ts : List Token}
    (h : Lists keyword xs ts) : ts = [] ↔ xs = [] := by
  rcases h with ⟨hxs, hts⟩ | ⟨hxs, rest, hts⟩
  · exact iff_of_true hts hxs
  · refine iff_of_false ?_ hxs
    rw [hts]
    exact List.cons_ne_nil _ _

/-- A clause that is written from its parts is left out if there are none. -/
theorem Token.lists_of_mapM {α : Type} {keyword : String} {f : α → Rendered} {xs : List α}
    {parts : List (List Token)} (h : xs.mapM f = .ok parts) (join : List Token) :
    Lists keyword xs (if parts.isEmpty then [] else .text keyword :: join) := by
  cases xs with
  | nil =>
    rw [List.mapM_nil, pure_eq_ok] at h
    exact Or.inl ⟨rfl, by simp [← h]⟩
  | cons x xs =>
    have hparts := ne_nil_of_mapM h (List.cons_ne_nil x xs)
    exact Or.inr ⟨List.cons_ne_nil x xs, join, by simp [hparts]⟩

/-- A clause of conditions is left out if there are none. -/
theorem Expr.lists_renderAnd {keyword : String} {es : List Expr} {ts : List Token}
    (h : Expr.renderAnd d nested keyword es = .ok ts) : Lists keyword es ts := by
  obtain ⟨parts, hparts, h⟩ := bind_eq_ok.mp h
  rw [Expr.renderAll_eq_mapM] at hparts
  rw [← apply_ite, pure_eq_ok] at h
  exact h ▸ lists_of_mapM hparts _

/-- A clause of expressions is left out if there are none. -/
theorem Expr.lists_renderClause {keyword : String} {es : List Expr} {ts : List Token}
    (h : Expr.renderClause d nested keyword es = .ok ts) : Lists keyword es ts := by
  obtain ⟨parts, hparts, h⟩ := bind_eq_ok.mp h
  rw [Expr.renderAll_eq_mapM] at hparts
  rw [← apply_ite, pure_eq_ok] at h
  exact h ▸ lists_of_mapM hparts _

/-- An ORDER BY is left out if there are no keys. -/
theorem OrderKey.lists_renderClause {keys : List OrderKey} {ts : List Token}
    (h : OrderKey.renderClause d nested keys = .ok ts) : Lists " ORDER BY " keys ts := by
  obtain ⟨parts, hparts, h⟩ := bind_eq_ok.mp h
  rw [OrderKey.renderAll_eq_mapM] at hparts
  rw [← apply_ite, pure_eq_ok] at h
  exact h ▸ lists_of_mapM hparts _

/-- The bounds of a page have no text exactly if there are none. -/
theorem Expr.renderPage_eq_nil_iff {limit offset : Option Expr} {ts : List Token}
    (h : Expr.renderPage d nested limit offset = .ok ts) :
    ts = [] ↔ limit = none ∧ offset = none := by
  cases limit with
  | some count =>
    cases offset with
    | none =>
      simp only [Expr.renderPage, bind_eq_ok, pure_eq_ok] at h
      obtain ⟨countTokens, -, _, rfl, _, rfl, rfl⟩ := h
      simp
    | some start =>
      simp only [Expr.renderPage, bind_eq_ok, pure_eq_ok] at h
      obtain ⟨countTokens, -, _, rfl, startTokens, -, _, rfl, rfl⟩ := h
      simp
  | none =>
    cases offset with
    | none =>
      cases h
      simp
    | some start =>
      cases hclause : d.offsetWithoutLimit <;>
      · simp only [Expr.renderPage, hclause, bind_eq_ok, pure_eq_ok] at h
        obtain ⟨_, rfl, startTokens, -, _, rfl, rfl⟩ := h
        simp

namespace Block

variable {b : Block} {clauses : List Token}

/-- The clauses of a SELECT that has conditions start with WHERE. -/
theorem exists_where (h : b.renderClauses d nested = .ok clauses) (hfilters : b.filters ≠ []) :
    ∃ rest, clauses = .text " WHERE " :: rest := by
  simp only [renderClauses, bind_eq_ok, pure_eq_ok] at h
  obtain ⟨filters, hrender, groupBy, -, having, -, orderBy, -, page, -, rfl⟩ := h
  obtain ⟨hnil, -⟩ | ⟨-, rest, rfl⟩ := Expr.lists_renderAnd hrender
  · exact absurd hnil hfilters
  · exact ⟨rest ++ groupBy ++ having ++ orderBy ++ page, rfl⟩

/-- The clauses of a SELECT have no text exactly if nothing stands behind what it reads from. -/
theorem clauses_eq_nil_iff (h : b.renderClauses d nested = .ok clauses) :
    clauses = [] ↔ b.isBare = true := by
  simp only [renderClauses, bind_eq_ok, pure_eq_ok] at h
  obtain ⟨filters, hfilters, groupBy, hgroupBy, having, hhaving, orderBy, horderBy, page, hpage,
    rfl⟩ := h
  simp only [List.append_eq_nil_iff, (Expr.lists_renderAnd hfilters).eq_nil_iff,
    (Expr.lists_renderClause hgroupBy).eq_nil_iff, (Expr.lists_renderAnd hhaving).eq_nil_iff,
    (OrderKey.lists_renderClause horderBy).eq_nil_iff, Expr.renderPage_eq_nil_iff hpage]
  simp [isBare, grouped, paged, and_assoc]

end Block

end Text

section Insertions

/-- The stages of a query upon its root, the first one first. -/
def Query.stages : Query → List Stage
  | .step source stage => source.stages ++ [stage]
  | .table _ | .insertInto .. | .update _ | .deleteFrom _ | .setOperation .. | .withCtes .. => []

/-- What the stages of an insertion have put into it. Its row query is guarded together with the
clause for conflicts. -/
structure Insert.Follows (d : Dialect) (stages : List Stage) (i : Insert) : Prop where
  upsert : ∀ {target action}, Stage.onConflict target action ∈ stages →
    ∃ action', i.upsert = some ⟨target, action'⟩
  rows : ∀ {rows}, Stage.insertSelect rows ∈ stages → ∃ body, rows.lowerRows d = .ok body ∧
    i.source = some (.select (if i.upsert.isSome then body.guardJoin else body))
  source : i.source = none → i.upsert = none

variable {d : Dialect}

/-- The guard of an INSERT does not change its rule upon a conflict. -/
theorem Insert.upsert_guardJoin (d : Dialect) (i : Insert) : (i.guardJoin d).upsert = i.upsert := by
  unfold Insert.guardJoin
  split <;> rfl

/-- Where conflicts have a clause of their own, the query of an INSERT is guarded. -/
theorem Insert.source_guardJoin (hd : d.upsert = some .onConflict) {i : Insert} {body : Statement}
    (hbody : i.source = some (.select body)) :
    (i.guardJoin d).source = some (.select body.guardJoin) := by
  simp [Insert.guardJoin, hd, hbody]

/-- The guard of an INSERT gives it no rows. -/
theorem Insert.source_guardJoin_eq_none {i : Insert} :
    (i.guardJoin d).source = none ↔ i.source = none := by
  unfold Insert.guardJoin
  split
  next hsource => simp [hsource]
  next => rfl

/-- A stage upon an insertion gives it a source, a clause for conflicts or items to return. -/
theorem Stage.follows_lower (hd : d.upsert = some .onConflict) {scope : Scope} {source : Source}
    {stage : Stage} {stages : List Stage} {i : Insert}
    (h : stage.lower d scope source = .ok (.insert i))
    (hsource : ∀ i₀, source.statement = .ok (.insert i₀) → i₀.Follows d stages) :
    i.Follows d (stages ++ [stage]) := by
  cases hrow : stage.kind.isRowStage with
  | true =>
    obtain ⟨a, s₀, -, -, hform, hs⟩ := (Stage.lower_rowStage_eq_ok hrow).mp h
    have hrows := Statement.form_extend source.derivedName hform a
    rw [← hs] at hrows
    cases hrows
  | false =>
    cases stage with
    | values rows =>
      obtain ⟨i₀, rows', hi₀, -, hnone, -, -, heq⟩ := Stage.lower_values.mp h
      cases heq
      have hfollows := hsource i₀ hi₀
      have hupsert := hfollows.source hnone
      refine ⟨fun hmem => ?_, fun hmem => ?_, by simp⟩
      · exact hfollows.upsert (by simpa using hmem)
      · obtain ⟨body, -, hbody⟩ := hfollows.rows (by simpa using hmem)
        simp [hnone] at hbody
    | insertSelect rows =>
      obtain ⟨i₀, body, hi₀, -, hnone, hbody, heq⟩ := Stage.lower_insertSelect.mp h
      cases heq
      have hfollows := hsource i₀ hi₀
      have hupsert := hfollows.source hnone
      refine ⟨fun hmem => ?_, fun hmem => ?_, by simp⟩
      · exact hfollows.upsert (by simpa using hmem)
      · rcases List.mem_append.mp hmem with hmem | hmem
        · obtain ⟨body', -, hbody'⟩ := hfollows.rows hmem
          simp [hnone] at hbody'
        · cases List.mem_singleton.mp hmem
          exact ⟨body, hbody, by simp [hupsert]⟩
    | onConflict target action =>
      obtain ⟨-, i₀, action', hi₀, -, hsome, hnone, -, heq⟩ := Stage.lower_onConflict.mp h
      cases heq
      have hfollows := hsource i₀ hi₀
      refine ⟨fun {target₀ _} hmem => ?_, fun hmem => ?_, fun hsource => ?_⟩
      · rcases List.mem_append.mp hmem with hmem | hmem
        · obtain ⟨action₀, hsome⟩ := hfollows.upsert hmem
          cases hnone.symm.trans hsome
        · cases List.mem_singleton.mp hmem
          exact ⟨action', Insert.upsert_guardJoin d _⟩
      · obtain ⟨body, hbody, hselect⟩ := hfollows.rows (by simpa using hmem)
        rw [hnone] at hselect
        refine ⟨body, hbody, ?_⟩
        rw [Insert.upsert_guardJoin]
        exact Insert.source_guardJoin hd hselect
      · rw [Insert.source_guardJoin_eq_none.mp hsource] at hsome
        cases hsome
    | returning shape items =>
      obtain ⟨-, -, items', s₀, -, hs₀, hadd⟩ := Stage.lower_returning.mp h
      obtain ⟨i₀, rfl, -, heq⟩ | ⟨u, -, -, heq⟩ | ⟨x, -, -, heq⟩ :=
        Statement.addReturning_eq_ok.mp hadd
      · cases heq
        have hfollows := hsource i₀ hs₀
        refine ⟨fun hmem => ?_, fun hmem => ?_, hfollows.source⟩
        · exact hfollows.upsert (by simpa using hmem)
        · exact hfollows.rows (by simpa using hmem)
      · cases heq
      · cases heq
    | set assignments =>
      obtain ⟨-, u, assignments', -, -, -, -, heq⟩ := Stage.lower_set.mp h
      cases heq
    | updateWhere predicate =>
      obtain ⟨u, predicate', -, -, -, heq⟩ := Stage.lower_updateWhere.mp h
      cases heq
    | deleteWhere predicate =>
      obtain ⟨x, predicate', -, -, -, heq⟩ := Stage.lower_deleteWhere.mp h
      cases heq
    | _ => cases hrow

/-- An INSERT has the source and the clause for conflicts that the stages gave it. -/
theorem Query.follows_lower (hd : d.upsert = some .onConflict) : ∀ {i : Insert} {q : Query},
    q.lower d = .ok (.insert i) → i.Follows d q.stages
  | i, .insertInto .., h => by
    cases h
    exact ⟨by simp [Query.stages], by simp [Query.stages], fun _ => rfl⟩
  | i, .table _, h | i, .update _, h | i, .deleteFrom _, h => by cases h
  | i, .setOperation op all left right, h => by
    obtain ⟨-, left', right', -, -, heq⟩ := Query.lower_setOperation.mp h
    cases heq
  | i, .withCtes recursive ctes main, h => by
    obtain ⟨-, -, ctes', body, -, -, heq⟩ := Query.lower_withCtes.mp h
    cases heq
  | i, .step source stage, h =>
    Stage.follows_lower hd h fun _ hi₀ => Query.follows_lower hd hi₀
termination_by structural _ q => q

/-- The form is that of an insertion. -/
def Form.inserts : Form → Bool
  | insert .. => true
  | rows | update .. | delete _ => false

/-- A row query can be put into an insertion only, and an insertion stays one. -/
theorem Form.inserts_of_advance {f f' : Form} {kind : QueryKind} (h : f.advance kind = some f')
    (hinserts : f.inserts = true ∨ kind = .insertSelect) : f'.inserts = true := by
  unfold Form.advance at h
  split at h <;> grind [Form.inserts, QueryKind.isRowStage]

/-- A query with a stage that inserts rows is lowered to an INSERT. -/
theorem Query.inserts_lower {rows : Query} : ∀ {s : Statement} {q : Query}, q.lower d = .ok s →
    Stage.insertSelect rows ∈ q.stages → s.form.inserts = true
  | s, .step source stage, h, hmem => by
    obtain ⟨s₀, hs₀, hadvance⟩ := Stage.form_lower h
    apply Form.inserts_of_advance hadvance
    rcases List.mem_append.mp hmem with hmem | hmem
    · exact Or.inl (Query.inserts_lower hs₀ hmem)
    · rw [← List.mem_singleton.mp hmem]
      exact Or.inr rfl
termination_by structural _ q => q

/-- A statement whose form is that of an insertion is an INSERT. -/
theorem Statement.exists_insert {s : Statement} (h : s.form.inserts = true) :
    ∃ i, s = .insert i := by
  cases s with
  | insert i => exact ⟨i, rfl⟩
  | _ => cases h

/-- A rule upon a conflict that is a clause of its own starts with ON CONFLICT. -/
theorem Upsert.exists_onConflict {nested : Query → Rendered} {upsert : Upsert} {ts : List Token}
    (h : upsert.render d nested .onConflict = .ok ts) :
    ∃ rest, ts = .text " ON CONFLICT" :: rest := by
  obtain ⟨target, action⟩ := upsert
  cases action with
  | doNothing =>
    cases h
    exact ⟨_, rfl⟩
  | doUpdate assignments =>
    cases htarget : target.isEmpty with
    | true => simp [Upsert.render, htarget] at h
    | false =>
      simp only [Upsert.render, htarget, Bool.false_eq_true, if_false, bind_eq_ok, pure_eq_ok] at h
      obtain ⟨assignmentTokens, -, rfl⟩ := h
      exact ⟨_, rfl⟩

/-- An insertion with a row query and a clause for conflicts is written as both, one directly behind
the other. -/
theorem Insert.exists_render {nested : Query → Rendered} (hd : d.upsert = some .onConflict)
    {i : Insert} {body : Statement} {upsert : Upsert} {ts : List Token}
    (hbody : i.source = some (.select body)) (hupsert : i.upsert = some upsert)
    (hts : i.render d nested = .ok ts) :
    ∃ before rowTokens after, body.render d nested = .ok rowTokens ∧
      ts = before ++ rowTokens ++ .text " ON CONFLICT" :: after := by
  obtain ⟨table, columns, source, upsert', returning⟩ := i
  cases hbody
  cases hupsert
  simp only [Insert.render, InsertSource.render, Upsert.renderOption, hd, bind_eq_ok, pure_eq_ok]
    at hts
  obtain ⟨-, -, _, ⟨rowTokens, hrows, rfl⟩, upsertTokens, hupsert, returningTokens, -, rfl⟩ := hts
  obtain ⟨rest, rfl⟩ := Upsert.exists_onConflict hupsert
  refine ⟨.text (if Upsert.isIgnore d (some upsert) then "INSERT IGNORE INTO " else
    "INSERT INTO ") :: .ident table :: columnList columns ++ [.text " "], rowTokens,
    rest ++ returningTokens, hrows, ?_⟩
  simp

/-- In an insertion with a row query and ON CONFLICT, the SELECT that ends directly before the ON
has a WHERE exactly if the row query, below its WITHs, is no set operation and no modification, or
the SELECT has filters of its own. Where it has neither these nor any other clause, the ON follows a
table or a join. -/
theorem lastSelect_filtered_iff {d : Dialect} {q rows : Query} {target : List String}
    {action : ConflictAction} {plan : Plan} (hd : d.upsert = some .onConflict)
    (hplan : q.compile d = .ok plan) (hrows : .insertSelect rows ∈ q.stages)
    (hconflict : .onConflict target action ∈ q.stages) :
    ∃ body before rowTokens after, rows.lowerRows d = .ok body ∧
      body.guardJoin.render d (Query.renderRows d q.depth) = .ok rowTokens ∧
      plan = Plan.ofTokens d (before ++ rowTokens ++ .text " ON CONFLICT" :: after) ∧
      (body.guardJoin.lastSelect? = none → rows.modifies = true) ∧
      ∀ block, body.guardJoin.lastSelect? = some block →
        ∃ clauses, block.EndsText d (Query.renderRows d q.depth) clauses rowTokens ∧
          (block.filters ≠ [] → ∃ rest, clauses = .text " WHERE " :: rest) ∧
          (clauses = [] ↔ block.isBare = true) ∧
          (block.filters ≠ [] ↔ rows.combines = false ∧ rows.modifies = false ∨
            ∃ block₀, body.lastSelect? = some block₀ ∧ block₀.filters ≠ []) := by
  obtain ⟨tokens, htokens, hplan⟩ := bind_eq_ok.mp hplan
  obtain ⟨s, hs, hrender⟩ := bind_eq_ok.mp htokens
  obtain ⟨i, rfl⟩ := Statement.exists_insert (Query.inserts_lower hs hrows)
  have hfollows := Query.follows_lower hd hs
  obtain ⟨action', hupsert⟩ := hfollows.upsert hconflict
  obtain ⟨body, hbody, hsource⟩ := hfollows.rows hrows
  rw [hupsert] at hsource
  obtain ⟨before, rowTokens, after, hrowTokens, rfl⟩ :=
    Insert.exists_render hd hsource hupsert hrender
  have hlower := (Query.lowerRows_eq_ok.mp hbody).1
  refine ⟨body, before, rowTokens, after, hbody, hrowTokens, (pure_eq_ok.mp hplan).symm, ?_, ?_⟩
  · intro hnone
    rw [← Query.modifies_lower hlower, ← Statement.modifies_guardJoin]
    exact Statement.modifies_of_lastSelect?_eq_none hnone
  · intro block hblock
    obtain ⟨clauses, hends⟩ := Statement.exists_endsText hrowTokens hblock
    have hclauses := hends.renderClauses_eq
    refine ⟨clauses, hends, Block.exists_where hclauses, Block.clauses_eq_nil_iff hclauses, ?_⟩
    rw [← Query.combines_lower hlower, ← Query.modifies_lower hlower]
    exact Statement.filters_guardJoin_iff hblock

namespace Query

/-- The rows of a query are copied into a table, except for those that are there. -/
def copied (rows : Query) : Query :=
  .step (.step (.insertInto "a" ["id"]) (.insertSelect rows)) (.onConflict ["id"] .doNothing)

/-- Some rows of a common table. -/
def page : Query :=
  .withCtes false [⟨"x", [], .table "b"⟩] (.step (.table "x") (.limit (.literal (.int 2))))

/-- The rows of two tables. -/
def bothTables : Query := .setOperation .union false (.table "b") (.table "c")

end Query

/-- A page of a common table gets the condition before its LIMIT. -/
theorem lastSelect_filtered_iff_page :
    ∃ plan body block, Query.page.copied.compile Profile.sqlite.dialect = .ok plan ∧
      plan.sql = "INSERT INTO \"a\" (\"id\") WITH \"x\" AS (SELECT * FROM \"b\") " ++
        "SELECT * FROM \"x\" WHERE 1 LIMIT 2 ON CONFLICT (\"id\") DO NOTHING" ∧
      Query.page.lowerRows Profile.sqlite.dialect = .ok body ∧
      body.guardJoin.lastSelect? = some block ∧ block.filters ≠ [] := by
  have hplan : Query.page.copied.compile Profile.sqlite.dialect =
      .ok ⟨"INSERT INTO \"a\" (\"id\") WITH \"x\" AS (SELECT * FROM \"b\") " ++
        "SELECT * FROM \"x\" WHERE 1 LIMIT 2 ON CONFLICT (\"id\") DO NOTHING", []⟩ := rfl
  have hrows : Stage.insertSelect Query.page ∈ Query.page.copied.stages := by
    simp [Query.copied, Query.stages]
  have hconflict : Stage.onConflict ["id"] .doNothing ∈ Query.page.copied.stages := by
    simp [Query.copied, Query.stages]
  obtain ⟨body, before, rowTokens, after, hbody, -, -, hnone, hsome⟩ :=
    lastSelect_filtered_iff rfl hplan hrows hconflict
  cases hlast : body.guardJoin.lastSelect? with
  | none => cases hnone hlast
  | some block =>
    obtain ⟨clauses, -, -, -, hiff⟩ := hsome block hlast
    exact ⟨_, body, block, hplan, rfl, hbody, hlast, hiff.mpr (Or.inl ⟨rfl, rfl⟩)⟩

/-- The right operand of a set operation gets no WHERE, and the ON follows its table. -/
theorem not_filtered_bothTables :
    ∃ plan body block, Query.bothTables.copied.compile Profile.sqlite.dialect = .ok plan ∧
      plan.sql = "INSERT INTO \"a\" (\"id\") SELECT * FROM \"b\" UNION SELECT * FROM \"c\" " ++
        "ON CONFLICT (\"id\") DO NOTHING" ∧
      Query.bothTables.lowerRows Profile.sqlite.dialect = .ok body ∧
      body.guardJoin.lastSelect? = some block ∧ block.isBare = true :=
  ⟨⟨_, []⟩, _, _, rfl, rfl, rfl, rfl, rfl⟩

end Insertions

end SqlAlgebra
