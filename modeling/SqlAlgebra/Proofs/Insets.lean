import SqlAlgebra.Proofs.Nodes
import SqlAlgebra.Proofs.Writing

/-!
# What stands inside a text

The text of a statement contains the text of every query that is nested in its expressions, and for
every derived table the statement in brackets with its name behind.
-/

namespace SqlAlgebra

open Token

mutual

/-- The names of the derived tables in a statement, in the order of their ends in its text, those in
nested queries apart. -/
def Statement.derivedNames : Statement → List String
  | .select block => block.derivedNames
  | .setOperation op all left right =>
    (left.derivedNames ++ if left.isFlat (some (op, all)) then [] else ["t"]) ++
      (right.derivedNames ++ if right.isFlat none then [] else ["t"])
  | .withCtes _ ctes body => Cte.derivedNames ctes ++ body.derivedNames
  | .insert i => i.derivedNames
  | .update _ | .delete _ => []
termination_by structural s => s

def Block.derivedNames : Block → List String
  | ⟨origin, joins, _, _, _, _, _, _, _, _⟩ => origin.derivedNames ++ Join.derivedNames joins
termination_by structural b => b

def Origin.derivedNames : Origin → List String
  | .table _ => []
  | .derived body name => body.derivedNames ++ [name]
termination_by structural o => o

def Join.derivedNames : List Join → List String
  | [] => []
  | ⟨_, target, _⟩ :: joins => JoinTarget.derivedNames target ++ Join.derivedNames joins
termination_by structural joins => joins

def JoinTarget.derivedNames : JoinTarget Statement → List String
  | .table _ => []
  | .lateral body name => body.derivedNames ++ [name]
termination_by structural target => target

def Cte.derivedNames : List (Cte Statement) → List String
  | [] => []
  | ⟨_, _, body⟩ :: ctes => body.derivedNames ++ Cte.derivedNames ctes
termination_by structural ctes => ctes

def Insert.derivedNames : Insert → List String
  | ⟨_, _, none, _, _⟩ => []
  | ⟨_, _, some source, _, _⟩ => source.derivedNames
termination_by structural i => i

def InsertSource.derivedNames : InsertSource → List String
  | .values _ => []
  | .select body => body.derivedNames
termination_by structural s => s

end

/-- A part is contained in the parts with a separator between them. -/
theorem infix_intercalate {α : Type} {part separator : List α} {parts : List (List α)}
    (h : part ∈ parts) : part <:+: separator.intercalate parts := by
  induction parts with
  | nil => cases h
  | cons first parts ih =>
    cases parts with
    | nil => simp [List.mem_singleton.mp h]
    | cons second parts =>
      rw [List.intercalate_cons_cons]
      rcases List.mem_cons.mp h with rfl | h
      · exact ((List.prefix_append part separator).trans (List.prefix_append _ _)).isInfix
      · exact (ih h).trans (List.suffix_append _ _).isInfix

/-- The tokens contain those of the queries, which `nested` writes, and derived tables of the
names. -/
structure Shows (nested : Query → Rendered) (qs : List Query) (names : List String)
    (ts : List Token) : Prop where
  queries : ∀ q ∈ qs, ∃ us, nested q = .ok us ∧ us <:+: ts
  names : ∀ name ∈ names, ∃ body, derived body name <:+: ts

/-- Any tokens that contain the parts contain the queries and derived tables of the names. -/
def ShowsAll (nested : Query → Rendered) (qs : List Query) (names : List String)
    (parts : List (List Token)) : Prop :=
  ∀ ts, (∀ part ∈ parts, part <:+: ts) → Shows nested qs names ts

variable {nested : Query → Rendered}

namespace Shows

variable {qs qs' : List Query} {names names' : List String} {ts us : List Token}

/-- Any tokens show nothing. -/
theorem nil (ts : List Token) : Shows nested [] [] ts := ⟨by simp, by simp⟩

/-- The tokens of a query show the query. -/
theorem query (q : Query) : Yields (Shows nested [q] []) (nested q) := by
  intro us hus
  refine ⟨fun q' hq' => ?_, by simp⟩
  rw [List.mem_singleton.mp hq']
  exact ⟨us, hus, List.infix_rfl⟩

/-- Tokens show what a stretch of them shows. -/
theorem widen (h : Shows nested qs names ts) (hwithin : ts <:+: us) :
    Shows nested qs names us := by
  constructor
  · intro q hq
    obtain ⟨ws, hws, hin⟩ := h.queries q hq
    exact ⟨ws, hws, hin.trans hwithin⟩
  · intro name hname
    obtain ⟨body, hin⟩ := h.names name hname
    exact ⟨body, hin.trans hwithin⟩

/-- Tokens show together what they show. -/
theorem union (h : Shows nested qs names ts) (h' : Shows nested qs' names' ts) :
    Shows nested (qs ++ qs') (names ++ names') ts :=
  ⟨List.forall_mem_append.mpr ⟨h.queries, h'.queries⟩,
    List.forall_mem_append.mpr ⟨h.names, h'.names⟩⟩

/-- Tokens before a text do not hide what it shows. -/
theorem behind (h : Shows nested qs names ts) (us : List Token) :
    Shows nested qs names (us ++ ts) :=
  h.widen (List.suffix_append us ts).isInfix

/-- Tokens after a text do not hide what it shows. -/
theorem before (h : Shows nested qs names ts) (us : List Token) :
    Shows nested qs names (ts ++ us) :=
  h.widen (List.prefix_append ts us).isInfix

/-- Two texts show what each of them shows. -/
theorem append (h : Shows nested qs names ts) (h' : Shows nested qs' names' us) :
    Shows nested (qs ++ qs') (names ++ names') (ts ++ us) :=
  (h.before us).union (h'.behind ts)

/-- Behind tokens that show derived tables stand others that show queries only. -/
theorem followed (h : Shows nested qs names ts) (h' : Shows nested qs' [] us) :
    Shows nested (qs ++ qs') names (ts ++ us) := by
  have happend := h.append h'
  rwa [List.append_nil] at happend

/-- A token before a text does not hide what it shows. -/
theorem cons (h : Shows nested qs names ts) (t : Token) : Shows nested qs names (t :: ts) :=
  h.behind [t]

/-- Brackets do not hide what is in them. -/
theorem parens (h : Shows nested qs names ts) : Shows nested qs names (parens ts) :=
  (h.before [rightParen]).cons leftParen

/-- A derived table shows what its body shows, and its name. -/
theorem derived (h : Shows nested qs names ts) (name : String) :
    Shows nested qs (names ++ [name]) (derived ts name) := by
  have hname : Shows nested [] [name] (Token.derived ts name) := by
    refine ⟨by simp, fun name' hname' => ?_⟩
    rw [List.mem_singleton.mp hname']
    exact ⟨ts, List.infix_rfl⟩
  have hunion := (h.parens.before [text " AS ", ident name]).union hname
  rwa [List.append_nil] at hunion

/-- An operand shows what its text shows, and a derived table if it is not flat. -/
theorem operand (h : Shows nested qs names ts) (isFlat : Bool) :
    Shows nested qs (names ++ if isFlat then [] else ["t"]) (operand isFlat ts) := by
  cases isFlat with
  | true =>
    rw [if_pos rfl, List.append_nil]
    exact h
  | false => exact (h.derived "t").cons _

end Shows

namespace ShowsAll

variable {qs qs' : List Query} {names names' : List String} {parts parts' : List (List Token)}

/-- No parts show nothing. -/
theorem nil : ShowsAll nested [] [] [] := fun ts _ => .nil ts

/-- One part shows what it shows as a text. -/
theorem singleton {ts : List Token} (h : Shows nested qs names ts) :
    ShowsAll nested qs names [ts] :=
  fun _ hparts => h.widen (hparts ts List.mem_cons_self)

/-- Two lists of parts show what each of them shows. -/
theorem append (h : ShowsAll nested qs names parts) (h' : ShowsAll nested qs' names' parts') :
    ShowsAll nested (qs ++ qs') (names ++ names') (parts ++ parts') := by
  intro ts hparts
  rw [List.forall_mem_append] at hparts
  exact (h ts hparts.1).union (h' ts hparts.2)

/-- A part before others shows what it shows, and the others what they do. -/
theorem cons {ts : List Token} (h : Shows nested qs names ts)
    (h' : ShowsAll nested qs' names' parts) :
    ShowsAll nested (qs ++ qs') (names ++ names') (ts :: parts) :=
  (singleton h).append h'

/-- Parts with a separator between them show what the parts show. -/
theorem intercalate (h : ShowsAll nested qs names parts) (separator : List Token) :
    Shows nested qs names (separator.intercalate parts) :=
  h _ fun _ => infix_intercalate

/-- A clause, which is left out if it has no parts. -/
theorem clause (h : ShowsAll nested qs names parts) (keyword : String) (separator : List Token) :
    Shows nested qs names
      (if parts.isEmpty then [] else .text keyword :: separator.intercalate parts) := by
  cases parts with
  | nil => exact h [] (by simp)
  | cons part parts => exact (h.intercalate separator).cons _

/-- A window shows what its partition and its order show. -/
theorem window (hpartition : ShowsAll nested qs [] parts) (horder : ShowsAll nested qs' [] parts')
    (frame : Option Frame) : Shows nested (qs ++ qs') [] (Token.over parts parts' frame) := by
  have hclause {qs : List Query} {parts : List (List Token)} (h : ShowsAll nested qs [] parts)
      (keyword : String) : ShowsAll nested qs []
        (if parts.isEmpty then [] else [.text keyword :: commas parts]) := by
    cases parts with
    | nil => exact h
    | cons part parts => exact singleton ((h.intercalate [text ", "]).cons _)
  have hclauses := (hclause hpartition "PARTITION BY ").append (hclause horder "ORDER BY ")
  refine ShowsAll.intercalate ?_ [text " "]
  intro ts hparts
  rw [List.forall_mem_append] at hparts
  exact hclauses ts hparts.1

end ShowsAll

section Expressions

variable {d : Dialect} {qs qs' : List Query} {ts us : List Token}

/-- An operator shows what its operands show. -/
theorem Shows.operator (h : Shows nested qs [] ts) (h' : Shows nested qs' [] us)
    (entry : OperatorSyntax) : Shows nested (qs ++ qs') [] (entry.render ts us) := by
  cases entry with
  | between symbol => exact ((h.before _).append h').parens
  | call name => exact ((h.before _).append h').parens.cons _
  | upperBetween symbol => exact (((h.parens.cons _).before _).append h'.parens).parens

/-- A unary operator shows what its operand shows. -/
theorem Shows.unary (h : Shows nested qs [] ts) (op : UnaryOperator) :
    Shows nested qs [] (op.render ts) := by
  cases op with
  | not | minus => exact (h.cons _).parens
  | isNull | isNotNull => exact (h.before _).parens

/-- An order key shows what its expression shows. -/
theorem Shows.renderKey (h : Shows nested qs [] ts) (ordering : NullsOrdering)
    (direction : SortDirection) (nulls : Option NullsOrder) :
    Shows nested qs [] (ordering.renderKey ts direction nulls) := by
  have hdesc := h.before [text " DESC"]
  cases nulls with
  | none =>
    cases direction with
    | asc => exact h
    | desc => exact hdesc
  | some order =>
    cases ordering with
    | native =>
      cases direction with
      | asc => exact h.before _
      | desc => exact hdesc.before _
    | emulatedWithIsNull =>
      cases direction with
      | asc => cases order <;> exact h.behind _
      | desc => cases order <;> exact hdesc.behind _

mutual

/-- The text of an expression contains those of the queries in it. -/
theorem Expr.shows_render : ∀ e : Expr, Yields (Shows nested e.queries []) (e.render d nested)
  | .column .. | .parameter .. | .wildcard => yields_ok (.nil _)
  | .placeholder _ | .inList _ [] _ | .choice [] _ => yields_error _
  | .literal value => by
    intro ts _
    exact .nil ts
  | .binary op left right => by
    simp only [Expr.render]
    split
    · exact yields_error _
    · next entry _ =>
      exact (Expr.shows_render left).bind fun _ hleft => (Expr.shows_render right).bind
        fun _ hright => yields_pure (hleft.operator hright entry)
  | .unary op operand => by
    simp only [Expr.render]
    exact (Expr.shows_render operand).bind fun _ hoperand => yields_pure (hoperand.unary op)
  | .call name args distinct => by
    simp only [Expr.render]
    refine (Expr.shows_renderAll args).bind fun parts hparts => ?_
    have hcommas := hparts.intercalate [text ", "]
    cases distinct with
    | true => exact yields_pure ((hcommas.cons _).parens.cons _)
    | false => exact yields_pure (hcommas.parens.cons _)
  | .between subject low high negated => by
    simp only [Expr.render]
    exact (Expr.shows_render subject).bind fun _ hsubject => (Expr.shows_render low).bind
      fun _ hlow => (Expr.shows_render high).bind fun _ hhigh =>
        yields_pure ((((hsubject.before _).append hlow).before _).append hhigh).parens
  | .inList subject (value :: values) negated => by
    have hsubject := Expr.shows_render subject
    have hvalues := Expr.shows_renderAll (value :: values)
    by_cases hquery : ∃ q, value :: values = [.subquery q]
    · obtain ⟨q, hlist⟩ := hquery
      rw [hlist]
      simp only [Expr.render, Expr.queries, Expr.queriesAll, List.append_nil]
      exact hsubject.bind fun _ hsubject => (Shows.query q).bind fun _ hq =>
        yields_pure ((hsubject.before _).append hq.parens).parens
    · have hquery : ∀ q, value :: values ≠ [.subquery q] := not_exists.mp hquery
      rw [Expr.render_inList (List.cons_ne_nil _ _) hquery]
      exact hsubject.bind fun _ hsubject => hvalues.bind fun _ hvalues =>
        yields_pure ((hsubject.before _).append (hvalues.intercalate [text ", "]).parens).parens
  | .cast operand type => by
    simp only [Expr.render]
    split
    · exact yields_error _
    · exact (Expr.shows_render operand).bind fun _ hoperand =>
        yields_pure ((hoperand.before _).parens.cons _)
  | .subquery query => by
    simp only [Expr.render]
    exact (Shows.query query).bind fun _ hquery => yields_pure hquery.parens
  | .existence query negated => by
    simp only [Expr.render]
    exact (Shows.query query).bind fun _ hquery => yields_pure (hquery.parens.cons _)
  | .choice (branch :: branches) otherwise => by
    simp only [Expr.render]
    exact (Branch.shows_renderAll (branch :: branches)).bind fun _ hbranches =>
      (Expr.shows_renderElse otherwise).bind fun _ hotherwise =>
        yields_pure ((((hbranches.cons _).append hotherwise).before _).parens)
  | .window name args partition order frame => by
    simp only [Expr.render]
    split
    · exact (Expr.shows_renderAll args).bind fun _ hargs =>
        (Expr.shows_renderAll partition).bind fun _ hpartition =>
          (OrderKey.shows_renderAll order).bind fun _ horder => by
            have hwindow := (hpartition.window horder frame).parens.cons (text " OVER ")
            rw [Expr.queries, List.append_assoc]
            exact yields_pure (((hargs.intercalate [text ", "]).parens.cons _).append hwindow)
    · exact yields_error _
termination_by structural e => e

/-- A list shows the queries in it. -/
theorem Expr.shows_renderAll : ∀ es : List Expr,
    Yields (ShowsAll nested (Expr.queriesAll es) []) (Expr.renderAll d nested es)
  | [] => yields_ok .nil
  | e :: es => by
    simp only [Expr.renderAll]
    exact (Expr.shows_render e).bind fun _ he => (Expr.shows_renderAll es).bind fun _ hes =>
      yields_pure (ShowsAll.cons he hes)
termination_by structural es => es

/-- An ELSE shows the queries in it. -/
theorem Expr.shows_renderElse : ∀ e : Option Expr,
    Yields (Shows nested (Expr.queriesOption e) []) (Expr.renderElse d nested e)
  | none => yields_ok (.nil _)
  | some e => by
    simp only [Expr.renderElse]
    exact (Expr.shows_render e).bind fun _ he => yields_pure (he.cons _)
termination_by structural e => e

/-- Branches show the queries in them. -/
theorem Branch.shows_renderAll : ∀ branches : List Branch,
    Yields (Shows nested (Branch.queriesAll branches) []) (Branch.renderAll d nested branches)
  | [] => yields_ok (.nil _)
  | ⟨condition, result⟩ :: branches => by
    simp only [Branch.renderAll]
    exact (Expr.shows_render condition).bind fun _ hcondition => (Expr.shows_render result).bind
      fun _ hresult => (Branch.shows_renderAll branches).bind fun _ hbranches =>
        yields_pure (((hcondition.cons _).append (hresult.cons _)).append hbranches)
termination_by structural branches => branches

/-- Order keys show the queries in them. -/
theorem OrderKey.shows_renderAll : ∀ keys : List OrderKey,
    Yields (ShowsAll nested (OrderKey.queriesAll keys) []) (OrderKey.renderAll d nested keys)
  | [] => yields_ok .nil
  | ⟨e, direction, nulls⟩ :: keys => by
    simp only [OrderKey.renderAll]
    exact (Expr.shows_render e).bind fun _ he => (OrderKey.shows_renderAll keys).bind
      fun _ hkeys => yields_pure (ShowsAll.cons (he.renderKey d.nulls direction nulls) hkeys)
termination_by structural keys => keys

end

end Expressions

section Clauses

variable {d : Dialect}

/-- The queries in a list are those in its expressions in turn. -/
theorem Expr.queriesAll_eq (es : List Expr) : Expr.queriesAll es = es.flatMap Expr.queries := by
  induction es with
  | nil => rfl
  | cons e es ih => rw [Expr.queriesAll, ih, List.flatMap_cons]

/-- The queries in order keys are those in their expressions in turn. -/
theorem OrderKey.queriesAll_eq (keys : List OrderKey) :
    OrderKey.queriesAll keys = (keys.map (·.expr)).flatMap Expr.queries := by
  induction keys with
  | nil => rfl
  | cons key keys ih =>
    obtain ⟨e, direction, nulls⟩ := key
    rw [OrderKey.queriesAll, ih, List.map_cons, List.flatMap_cons]

/-- A list that is written part by part shows the queries of all parts. -/
theorem showsAll_mapM {α : Type} {f : α → Rendered} {expr : α → Expr}
    (h : ∀ a, Yields (Shows nested (expr a).queries []) (f a)) (as : List α) :
    Yields (ShowsAll nested ((as.map expr).flatMap Expr.queries) []) (as.mapM f) := by
  induction as with
  | nil => exact yields_pure .nil
  | cons a as ih =>
    rw [List.mapM_cons]
    exact (h a).bind fun _ ha => ih.bind fun _ has => yields_pure (ShowsAll.cons ha has)

/-- Projected items show the queries in them. -/
theorem SelectItem.shows_renderAll (items : List SelectItem) :
    Yields (Shows nested ((items.map (·.expr)).flatMap Expr.queries) [])
      (SelectItem.renderAll d nested items) := by
  refine (showsAll_mapM (fun item => ?_) items).bind fun _ hparts =>
    yields_pure (hparts.intercalate [text ", "])
  refine (Expr.shows_render item.expr).bind fun _ he => ?_
  cases item.name with
  | none => exact yields_pure he
  | some name => exact yields_pure (he.before _)

/-- What is returned shows the queries in it. -/
theorem SelectItem.shows_renderReturning (items : Option (List SelectItem)) :
    Yields (Shows nested ((SelectItem.exprs items).flatMap Expr.queries) [])
      (SelectItem.renderReturning d nested items) := by
  cases items with
  | none => exact yields_ok (.nil _)
  | some items =>
    exact (SelectItem.shows_renderAll items).bind fun _ hitems => yields_pure (hitems.cons _)

/-- Assignments show the queries in their values. -/
theorem Assignment.shows_renderAll (assignments : List Assignment) :
    Yields (Shows nested ((assignments.map (·.value)).flatMap Expr.queries) [])
      (Assignment.renderAll d nested assignments) := by
  refine (showsAll_mapM (fun a => ?_) assignments).bind fun _ hparts =>
    yields_pure (hparts.intercalate [text ", "])
  exact (Expr.shows_render a.value).bind fun _ he => yields_pure ((he.cons _).cons _)

/-- Rows show the queries in their values. -/
theorem Expr.shows_renderRows (rows : List (List Expr)) :
    Yields (Shows nested (rows.flatten.flatMap Expr.queries) [])
      (Expr.renderRows d nested rows) := by
  have hrows : Yields (fun parts => ShowsAll nested (rows.flatten.flatMap Expr.queries) []
      (parts.map fun row => parens (commas row))) (rows.mapM (Expr.renderAll d nested)) := by
    induction rows with
    | nil => exact yields_pure .nil
    | cons row rows ih =>
      rw [List.mapM_cons, List.flatten_cons, List.flatMap_append, ← Expr.queriesAll_eq]
      exact (Expr.shows_renderAll row).bind fun _ hrow => ih.bind fun _ hrows =>
        yields_pure (ShowsAll.cons (hrow.intercalate [text ", "]).parens hrows)
  exact hrows.bind fun _ hparts => yields_pure (hparts.intercalate [text ", "])

/-- A clause of conditions shows the queries in it. -/
theorem Expr.shows_renderAnd (keyword : String) (predicates : List Expr) :
    Yields (Shows nested (predicates.flatMap Expr.queries) [])
      (Expr.renderAnd d nested keyword predicates) := by
  rw [← Expr.queriesAll_eq]
  refine (Expr.shows_renderAll predicates).bind fun parts hparts => ?_
  rw [← apply_ite]
  exact yields_pure (hparts.clause keyword [text " AND "])

/-- A clause that lists expressions shows the queries in it. -/
theorem Expr.shows_renderClause (keyword : String) (es : List Expr) :
    Yields (Shows nested (es.flatMap Expr.queries) []) (Expr.renderClause d nested keyword es) := by
  rw [← Expr.queriesAll_eq]
  refine (Expr.shows_renderAll es).bind fun parts hparts => ?_
  rw [← apply_ite]
  exact yields_pure (hparts.clause keyword [text ", "])

/-- An ORDER BY shows the queries in it. -/
theorem OrderKey.shows_renderClause (keys : List OrderKey) :
    Yields (Shows nested ((keys.map (·.expr)).flatMap Expr.queries) [])
      (OrderKey.renderClause d nested keys) := by
  rw [← OrderKey.queriesAll_eq]
  refine (OrderKey.shows_renderAll keys).bind fun parts hparts => ?_
  rw [← apply_ite]
  exact yields_pure (hparts.clause " ORDER BY " [text ", "])

/-- The bounds of a page show the queries in them. -/
theorem Expr.shows_renderPage (limit offset : Option Expr) :
    Yields (Shows nested ((limit.toList ++ offset.toList).flatMap Expr.queries) [])
      (Expr.renderPage d nested limit offset) := by
  have hcount (e : Expr) : Yields (Shows nested ([e].flatMap Expr.queries) [])
      (e.render d nested) := by
    rw [List.flatMap_singleton]
    exact Expr.shows_render e
  cases limit with
  | none =>
    cases offset with
    | none => exact yields_ok (.nil _)
    | some start =>
      simp only [Expr.renderPage]
      cases d.offsetWithoutLimit with
      | none => exact (hcount start).bind fun _ hstart => yields_pure (hstart.cons _)
      | some clause =>
        exact (hcount start).bind fun _ hstart => yields_pure ((hstart.cons _).cons _)
  | some count =>
    cases offset with
    | none =>
      simp only [Expr.renderPage]
      exact (hcount count).bind fun _ hcount => yields_pure ((hcount.cons _).before _)
    | some start =>
      rw [List.flatMap_append]
      simp only [Expr.renderPage]
      exact (hcount count).bind fun _ hcount' => (hcount start).bind fun _ hstart =>
        yields_pure ((hcount'.cons _).append (hstart.cons _))

/-- A rule upon a conflict shows the queries in it. -/
theorem Upsert.shows_renderOption (upsert : Option Upsert) :
    Yields (Shows nested ((Upsert.exprs upsert).flatMap Expr.queries) [])
      (Upsert.renderOption d nested upsert) := by
  cases upsert with
  | none => exact yields_ok (.nil _)
  | some upsert =>
    obtain ⟨target, action⟩ := upsert
    simp only [Upsert.renderOption]
    split
    · exact yields_error _
    · next spelling _ =>
      cases action with
      | doNothing => cases spelling <;> exact yields_ok (.nil _)
      | doUpdate assignments =>
        have hassignments : Yields (Shows nested _ [])
            (Assignment.renderAll d nested assignments) :=
          Assignment.shows_renderAll assignments
        cases spelling with
        | onDuplicateKey =>
          exact hassignments.bind fun _ h => yields_pure (((h.before _).cons _).cons _)
        | onConflict =>
          simp only [Upsert.render]
          split
          · exact yields_error _
          · exact hassignments.bind fun _ h => yields_pure ((h.cons _).behind _)

/-- An UPDATE shows the queries in it. -/
theorem Update.shows_render (u : Update) :
    Yields (Shows nested (u.exprs.flatMap Expr.queries) []) (u.render d nested) := by
  unfold Update.render
  split
  · exact yields_error _
  · rw [Update.exprs, List.flatMap_append, List.flatMap_append]
    exact (Assignment.shows_renderAll u.assignments).bind fun _ hassignments =>
      (Expr.shows_renderAnd " WHERE " u.filters).bind fun _ hfilters =>
        (SelectItem.shows_renderReturning u.returning).bind fun _ hreturning =>
          yields_pure (((((hassignments.cons _).cons _).cons _).append hfilters).append hreturning)

/-- A DELETE shows the queries in it. -/
theorem Delete.shows_render (x : Delete) :
    Yields (Shows nested (x.exprs.flatMap Expr.queries) []) (x.render d nested) := by
  rw [Delete.exprs, List.flatMap_append]
  exact (Expr.shows_renderAnd " WHERE " x.filters).bind fun _ hfilters =>
    (SelectItem.shows_renderReturning x.returning).bind fun _ hreturning =>
      yields_pure (((hfilters.cons _).cons _).append hreturning)

end Clauses

section Statements

variable {d : Dialect}

mutual

/-- The text of a statement contains those of the queries in its expressions and its derived
tables. -/
theorem Statement.shows_render : ∀ s : Statement,
    Yields (Shows nested (s.exprs.flatMap Expr.queries) s.derivedNames) (s.render d nested)
  | .select block => Block.shows_render block
  | .setOperation op all left right => by
    simp only [Statement.render, Statement.exprs, List.flatMap_append]
    exact (Statement.shows_render left).bind fun _ hleft => (Statement.shows_render right).bind
      fun _ hright => yields_pure ((hleft.operand _).append ((hright.operand _).cons _))
  | .withCtes recursive ctes body => by
    simp only [Statement.render, Statement.exprs, List.flatMap_append]
    exact (Cte.shows_renderAll ctes).bind fun _ hctes => (Statement.shows_render body).bind
      fun _ hbody => yields_pure (((hctes.intercalate [text ", "]).cons _).append (hbody.cons _))
  | .insert i => Insert.shows_render i
  | .update u => Update.shows_render u
  | .delete x => Delete.shows_render x
termination_by structural s => s

/-- A SELECT shows the queries and the derived tables in it. -/
theorem Block.shows_render : ∀ b : Block,
    Yields (Shows nested (b.exprs.flatMap Expr.queries) b.derivedNames) (b.render d nested)
  | ⟨origin, joins, filters, groupBy, having, projection, distinct, orderBy, limit, offset⟩ => by
    have horigin := Origin.shows_render origin
    have hjoins := Join.shows_renderAll joins
    have hitems : Yields (Shows nested ((SelectItem.exprs projection).flatMap Expr.queries) [])
        (projection.elim (.ok [text "*"]) (SelectItem.renderAll d nested)) := by
      cases projection with
      | none => exact yields_ok (.nil _)
      | some items => exact SelectItem.shows_renderAll items
    have hfilters : Yields (Shows nested _ []) (Expr.renderAnd d nested " WHERE " filters) :=
      Expr.shows_renderAnd " WHERE " filters
    have hgroupBy : Yields (Shows nested _ []) (Expr.renderClause d nested " GROUP BY " groupBy) :=
      Expr.shows_renderClause " GROUP BY " groupBy
    have hhaving : Yields (Shows nested _ []) (Expr.renderAnd d nested " HAVING " having) :=
      Expr.shows_renderAnd " HAVING " having
    have horderBy : Yields (Shows nested _ []) (OrderKey.renderClause d nested orderBy) :=
      OrderKey.shows_renderClause orderBy
    have hpage : Yields (Shows nested _ []) (Expr.renderPage d nested limit offset) :=
      Expr.shows_renderPage limit offset
    have hparts := hitems.bind fun _ hitems => horigin.bind fun _ horigin => hjoins.bind
      fun _ hjoins => hfilters.bind fun _ hfilters => hgroupBy.bind fun _ hgroupBy =>
        hhaving.bind fun _ hhaving => horderBy.bind fun _ horderBy => hpage.bind fun _ hpage => by
          have hreads := ((hitems.cons (text (if distinct then "SELECT DISTINCT " else "SELECT "))
            ).append (horigin.cons (text " FROM "))).append hjoins
          exact yields_pure (((((hreads.followed hfilters).followed hgroupBy).followed
            hhaving).followed horderBy).followed hpage)
    simp only [← List.flatMap_append, ← List.append_assoc, List.nil_append] at hparts
    cases projection <;> exact hparts
termination_by structural b => b

/-- What a SELECT reads from shows the queries and the derived tables in it. -/
theorem Origin.shows_render : ∀ o : Origin,
    Yields (Shows nested (o.exprs.flatMap Expr.queries) o.derivedNames) (o.render d nested)
  | .table _ => yields_ok (.nil _)
  | .derived body name => by
    simp only [Origin.render]
    exact (Statement.shows_render body).bind fun _ hbody => yields_pure (hbody.derived name)
termination_by structural o => o

/-- Joins show the queries and the derived tables in them. -/
theorem Join.shows_renderAll : ∀ joins : List Join,
    Yields (Shows nested ((Join.exprs joins).flatMap Expr.queries) (Join.derivedNames joins))
      (Join.renderAll d nested joins)
  | [] => yields_ok (.nil _)
  | ⟨kind, target, condition⟩ :: joins => by
    have htarget := JoinTarget.shows_render target
    have hjoins := Join.shows_renderAll joins
    simp only [Join.renderAll, Join.exprs, List.flatMap_append]
    cases condition with
    | none =>
      simp only [Option.toList_none, List.flatMap_nil, List.append_nil]
      exact htarget.bind fun _ htarget => hjoins.bind fun _ hjoins =>
        yields_pure (((htarget.cons _).before []).append hjoins)
    | some e =>
      simp only [Option.toList_some, List.flatMap_singleton]
      exact htarget.bind fun _ htarget => (Expr.shows_render e).bind fun _ he => hjoins.bind
        fun _ hjoins => yields_pure (((htarget.cons _).followed (he.cons _)).append hjoins)
termination_by structural joins => joins

/-- What is joined shows the queries and the derived tables in it. -/
theorem JoinTarget.shows_render : ∀ target : JoinTarget Statement,
    Yields (Shows nested ((JoinTarget.exprs target).flatMap Expr.queries)
      (JoinTarget.derivedNames target)) (JoinTarget.render d nested target)
  | .table _ => yields_ok (.nil _)
  | .lateral body name => by
    simp only [JoinTarget.render]
    exact (Statement.shows_render body).bind fun _ hbody =>
      yields_pure ((hbody.derived name).cons _)
termination_by structural target => target

/-- The entries of a WITH show the queries and the derived tables in them. -/
theorem Cte.shows_renderAll : ∀ ctes : List (Cte Statement),
    Yields (ShowsAll nested ((Cte.exprs ctes).flatMap Expr.queries) (Cte.derivedNames ctes))
      (Cte.renderAll d nested ctes)
  | [] => yields_ok .nil
  | ⟨name, columns, body⟩ :: ctes => by
    simp only [Cte.renderAll, Cte.exprs, List.flatMap_append]
    exact (Statement.shows_render body).bind fun _ hbody => (Cte.shows_renderAll ctes).bind
      fun _ hctes => yields_pure (ShowsAll.cons ((hbody.parens.cons _).behind _) hctes)
termination_by structural ctes => ctes

/-- An INSERT shows the queries and the derived tables in it. -/
theorem Insert.shows_render : ∀ i : Insert,
    Yields (Shows nested (i.exprs.flatMap Expr.queries) i.derivedNames) (i.render d nested)
  | ⟨_, _, none, _, _⟩ => yields_error _
  | ⟨name, columns, some source, upsert, returning⟩ => by
    have hsource := InsertSource.shows_render source
    simp only [Insert.render, Insert.exprs, List.flatMap_append]
    refine Yields.bind (P := fun _ => True) (fun _ _ => trivial) fun _ _ => ?_
    exact hsource.bind fun _ hsource => (Upsert.shows_renderOption upsert).bind
      fun _ hupsert => (SelectItem.shows_renderReturning returning).bind fun _ hreturning =>
        yields_pure (((hsource.behind _).followed hupsert).followed hreturning)
termination_by structural i => i

/-- What is inserted shows the queries and the derived tables in it. -/
theorem InsertSource.shows_render : ∀ s : InsertSource,
    Yields (Shows nested (s.exprs.flatMap Expr.queries) s.derivedNames) (s.render d nested)
  | .values rows => by
    simp only [InsertSource.render]
    exact (Expr.shows_renderRows rows).bind fun _ hrows => yields_pure (hrows.cons _)
  | .select body => by
    simp only [InsertSource.render]
    exact (Statement.shows_render body).bind fun _ hbody => yields_pure (hbody.cons _)
termination_by structural s => s

end

end Statements

end SqlAlgebra
