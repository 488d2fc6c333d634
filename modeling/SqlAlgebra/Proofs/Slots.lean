import Mathlib.Algebra.Order.Group.Multiset
import SqlAlgebra.Proofs.Parameters
import SqlAlgebra.Proofs.Writing

/-!
# The places of parameters

Writing a statement gives every occurrence of a parameter its place. Where a dialect cannot say
where nulls go in an order, a key that says so is written twice, and with it every parameter in it,
however deeply. So the places of a plan can be counted in the query.
-/

namespace SqlAlgebra

namespace Token

/-- The name of the parameter that has its place here. -/
def slotName? : Token → Option String
  | .piece (.slot name) => some name
  | _ => none

/-- The names of the parameters that have a place among the tokens. -/
def slots (ts : List Token) : List String := ts.filterMap slotName?

/-- No tokens have no places. -/
@[simp] theorem slots_nil : slots [] = [] := rfl

/-- The places of two texts are those of the first and then those of the second. -/
@[simp] theorem slots_append (ts us : List Token) : slots (ts ++ us) = slots ts ++ slots us :=
  List.filterMap_append

/-- A text has no place for a parameter. -/
@[simp] theorem slots_text_cons (s : String) (ts : List Token) :
    slots (text s :: ts) = slots ts := rfl

/-- A name has no place for a parameter. -/
@[simp] theorem slots_ident_cons (name : String) (ts : List Token) :
    slots (ident name :: ts) = slots ts := rfl

/-- A literal has no place for a parameter. -/
@[simp] theorem slots_literal_cons (s : String) (ts : List Token) :
    slots (literal s :: ts) = slots ts := rfl

/-- A place for a parameter is counted by its name. -/
@[simp] theorem slots_slot_cons (name : String) (ts : List Token) :
    slots (slot name :: ts) = name :: slots ts := rfl

/-- A proposed column has no place for a parameter. -/
@[simp] theorem slots_proposed_cons (column : String) (ts : List Token) :
    slots (proposed column :: ts) = slots ts := rfl

/-- The switch for proposed columns has no place for a parameter. -/
@[simp] theorem slots_proposedAsValues_cons (on : Bool) (ts : List Token) :
    slots (proposedAsValues on :: ts) = slots ts := rfl

/-- Brackets have no places of their own. -/
@[simp] theorem slots_parens (ts : List Token) : slots (parens ts) = slots ts := by
  have hright : slots [rightParen] = [] := rfl
  have hleft : slots (parens ts) = slots (ts ++ [rightParen]) := rfl
  rw [hleft, slots_append, hright, List.append_nil]

/-- Separators without places add none. -/
theorem slots_intercalate {separator : List Token} (h : slots separator = [])
    (parts : List (List Token)) : slots (separator.intercalate parts) = slots parts.flatten := by
  induction parts with
  | nil => rfl
  | cons part parts ih =>
    cases parts with
    | nil => simp
    | cons part' parts =>
      rw [List.intercalate_cons_cons, slots_append, slots_append, h, ih, List.append_nil,
        ← slots_append, ← List.flatten_cons]

/-- Commas add no places. -/
@[simp] theorem slots_commas (parts : List (List Token)) :
    slots (commas parts) = slots parts.flatten :=
  slots_intercalate rfl parts

/-- A list of names has no places. -/
theorem slots_idents (names : List String) : slots (idents names) = [] := by
  rw [idents, slots_commas]
  induction names with
  | nil => rfl
  | cons name names ih => rw [List.map_cons, List.flatten_cons, slots_append, ih]; rfl

/-- A list of columns in brackets has no places. -/
@[simp] theorem slots_columnList (names : List String) : slots (columnList names) = [] := by
  unfold columnList
  split
  · rfl
  · rw [slots_text_cons, slots_parens, slots_idents]

/-- A column has no place, with or without a qualifier. -/
@[simp] theorem slots_column (table : Option String) (name : String) :
    slots (Token.column table name) = [] := by
  unfold Token.column
  split
  · rfl
  · split <;> rfl

/-- The places of a window are those of its partition and then those of its order. -/
@[simp] theorem slots_over (partition order : List (List Token)) (frame : Option Frame) :
    slots (Token.over partition order frame) = slots partition.flatten ++ slots order.flatten := by
  unfold Token.over
  rw [slots_intercalate rfl]
  cases partition <;> cases order <;> cases frame <;> simp

end Token

/-- A plan names a value for every place among its tokens. -/
theorem Plan.params_ofTokens (d : Dialect) (ts : List Token) :
    (Plan.ofTokens d ts).params = Token.slots ts := by
  have hpieces (asValues : Bool) : ((Token.pieces asValues ts).map (Piece.segment d)).filterMap
      Segment.slotName? = Token.slots ts := by
    induction ts generalizing asValues with
    | nil => rfl
    | cons t ts ih =>
      cases t with
      | piece p =>
        cases p with
        | slot name => exact congrArg (name :: ·) (ih asValues)
        | _ => exact ih asValues
      | proposed column => cases asValues <;> exact ih _
      | proposedAsValues on => exact ih on
  exact hpieces false

namespace NullsOrdering

/-- How often a parameter is written that stands in the given number of order keys with an explicit
place for nulls. -/
def copies : NullsOrdering → Nat → Nat
  | native, _ => 1
  | emulatedWithIsNull, k => 2 ^ k

/-- The names of parameters, each as often as its occurrences are written. -/
def spread (ordering : NullsOrdering) (ps : List Occurrence) : List String :=
  ps.flatMap fun p => List.replicate (ordering.copies p.2) p.1

variable (ordering : NullsOrdering)

/-- No occurrences are spread to no names. -/
@[simp] theorem spread_nil : ordering.spread [] = [] := rfl

/-- Occurrences are spread one after another. -/
@[simp] theorem spread_append (ps qs : List Occurrence) :
    ordering.spread (ps ++ qs) = ordering.spread ps ++ ordering.spread qs :=
  List.flatMap_append

/-- The order of the occurrences only matters for the order of the names. -/
theorem perm_spread {ps qs : List Occurrence} (h : ps.Perm qs) :
    (ordering.spread ps).Perm (ordering.spread qs) :=
  h.flatMap_right _

/-- A parameter outside all order keys is written once. -/
theorem spread_parameter (name : String) : ordering.spread [(name, 0)] = [name] := by
  cases ordering <;> rfl

/-- In an order key that emulates the place of nulls every parameter is written twice as often. -/
theorem spread_enclose_emulated (order : NullsOrder) (ps : List Occurrence) :
    (emulatedWithIsNull.spread ps ++ emulatedWithIsNull.spread ps).Perm
      (emulatedWithIsNull.spread (NullsOrder.enclose (some order) ps)) := by
  have hdouble (p : Occurrence) : List.replicate (2 ^ p.2) p.1 ++ List.replicate (2 ^ p.2) p.1 =
      List.replicate (2 ^ (p.2 + 1)) p.1 := by
    rw [List.replicate_append_replicate]
    congr 1
    omega
  refine (List.flatMap_append_perm ps _ _).trans ?_
  simp only [copies, hdouble, spread, NullsOrder.enclose, List.flatMap_map]
  exact .refl _

/-- Where nulls are placed by a phrase, no order key is written twice. -/
theorem spread_enclose_native (nulls : Option NullsOrder) (ps : List Occurrence) :
    native.spread (NullsOrder.enclose nulls ps) = native.spread ps := by
  cases nulls <;> simp [spread, NullsOrder.enclose, copies, List.flatMap_map]

end NullsOrdering

/-- The tokens have a place for every copy of the occurrences, and for nothing else. -/
def Token.Fill (ordering : NullsOrdering) (ps : List Occurrence) (ts : List Token) : Prop :=
  (slots ts).Perm (ordering.spread ps)

namespace Token.Fill

variable {ordering : NullsOrdering} {ps qs : List Occurrence} {ts us : List Token}

/-- Only the places among the tokens matter. -/
theorem of_slots_eq (h : slots ts = slots us) (hus : Fill ordering ps us) :
    Fill ordering ps ts := by
  unfold Fill
  rw [h]
  exact hus

/-- Tokens without places are filled by no occurrences. -/
theorem nil (h : slots ts = []) : Fill ordering [] ts := by
  unfold Fill
  rw [h]
  exact .refl _

/-- Tokens are filled part by part. -/
theorem append (hts : Fill ordering ps ts) (hus : Fill ordering qs us) :
    Fill ordering (ps ++ qs) (ts ++ us) := by
  unfold Fill
  rw [slots_append, NullsOrdering.spread_append]
  exact List.Perm.append hts hus

/-- An order key has a place for all that its expression has, or two where it tests for nulls. -/
theorem renderKey (h : Fill ordering ps ts) (direction : SortDirection)
    (nulls : Option NullsOrder) :
    Fill ordering (NullsOrder.enclose nulls ps) (ordering.renderKey ts direction nulls) := by
  cases nulls with
  | none =>
    refine h.of_slots_eq ?_
    cases direction <;> simp [NullsOrdering.renderKey]
  | some order =>
    cases ordering with
    | native =>
      unfold Fill
      rw [NullsOrdering.spread_enclose_native]
      refine h.of_slots_eq ?_
      cases direction <;> simp [NullsOrdering.renderKey]
    | emulatedWithIsNull =>
      unfold Fill
      refine .trans ?_ (NullsOrdering.spread_enclose_emulated order ps)
      have hslots : slots (NullsOrdering.emulatedWithIsNull.renderKey ts direction (some order)) =
          slots ts ++ slots ts := by
        cases direction <;> cases order <;>
          simp [NullsOrdering.renderKey, UnaryOperator.render]
      rw [hslots]
      exact List.Perm.append h h

end Token.Fill

section Rendering

open Token (Fill)

variable {d : Dialect} {nested : Query → Rendered}

mutual

/-- An expression is written with a place for each of its parameters, if the queries in it are. -/
theorem Expr.fill_render (hq : ∀ q, Yields (Fill d.nulls q.parameters) (nested q)) : ∀ e : Expr,
    Yields (Fill d.nulls e.parameters) (e.render d nested)
  | .column .. => yields_ok (.nil (Token.slots_column _ _))
  | .placeholder _ | .inList _ [] _ | .choice [] _ => yields_error _
  | .literal value => by
    cases value with
    | float x =>
      simp only [Expr.render, Value.render]
      split
      · exact yields_ok (.nil rfl)
      · exact yields_error _
    | _ => exact yields_ok (.nil rfl)
  | .parameter _ name => by
    refine yields_ok ?_
    rw [Fill, Expr.parameters, NullsOrdering.spread_parameter]
    exact .refl _
  | .wildcard => yields_ok (.nil rfl)
  | .binary op left right => by
    simp only [Expr.render]
    split
    · exact yields_error _
    · next entry _ =>
      refine (Expr.fill_render hq left).bind fun l hl =>
        (Expr.fill_render hq right).bind fun r hr => yields_pure ((hl.append hr).of_slots_eq ?_)
      cases entry <;> simp [OperatorSyntax.render]
  | .unary op operand => by
    simp only [Expr.render]
    refine (Expr.fill_render hq operand).bind fun ts hts => yields_pure (hts.of_slots_eq ?_)
    cases op <;> simp [UnaryOperator.render]
  | .call name args distinct => by
    simp only [Expr.render]
    refine (Expr.fill_renderAll hq args).bind fun parts hparts =>
      yields_pure (hparts.of_slots_eq ?_)
    cases distinct <;> simp
  | .between subject low high negated => by
    simp only [Expr.render]
    refine (Expr.fill_render hq subject).bind fun ss hs => (Expr.fill_render hq low).bind
      fun ls hl => (Expr.fill_render hq high).bind fun hs' hh =>
        yields_pure (((hs.append hl).append hh).of_slots_eq ?_)
    simp
  | .inList subject (value :: values) negated => by
    have hsubject := Expr.fill_render hq subject
    have hvalues := Expr.fill_renderAll hq (value :: values)
    by_cases hquery : ∃ q, value :: values = [.subquery q]
    · obtain ⟨q, hlist⟩ := hquery
      rw [hlist]
      simp only [Expr.render, Expr.parameters, Expr.parametersAll, List.append_nil]
      refine hsubject.bind fun ss hs => (hq q).bind fun rs hr =>
        yields_pure ((hs.append hr).of_slots_eq ?_)
      simp
    · have hquery : ∀ q, value :: values ≠ [.subquery q] := not_exists.mp hquery
      rw [Expr.render_inList (List.cons_ne_nil _ _) hquery]
      refine hsubject.bind fun ss hs => hvalues.bind fun parts hparts =>
        yields_pure ((hs.append hparts).of_slots_eq ?_)
      simp
  | .cast operand type => by
    simp only [Expr.render]
    split
    · exact yields_error _
    · refine (Expr.fill_render hq operand).bind fun ts hts => yields_pure (hts.of_slots_eq ?_)
      simp
  | .subquery query => by
    simp only [Expr.render]
    exact (hq query).bind fun ts hts => yields_pure (hts.of_slots_eq (by simp))
  | .existence query negated => by
    simp only [Expr.render]
    exact (hq query).bind fun ts hts => yields_pure (hts.of_slots_eq (by simp))
  | .choice (branch :: branches) otherwise => by
    simp only [Expr.render]
    refine (Branch.fill_renderAll hq (branch :: branches)).bind fun bs hb =>
      (Expr.fill_renderElse hq otherwise).bind fun os ho =>
        yields_pure ((hb.append ho).of_slots_eq ?_)
    simp
  | .window name args partition order frame => by
    simp only [Expr.render]
    split
    · refine (Expr.fill_renderAll hq args).bind fun as ha =>
        (Expr.fill_renderAll hq partition).bind fun ps hp =>
          (OrderKey.fill_renderAll hq order).bind fun os ho =>
            yields_pure (((ha.append hp).append ho).of_slots_eq ?_)
      simp
    · exact yields_error _
termination_by structural e => e

/-- A list is written with a place for each of its parameters. -/
theorem Expr.fill_renderAll (hq : ∀ q, Yields (Fill d.nulls q.parameters) (nested q)) :
    ∀ es : List Expr, Yields (fun parts => Fill d.nulls (Expr.parametersAll es) parts.flatten)
      (Expr.renderAll d nested es)
  | [] => yields_ok (.nil rfl)
  | e :: es => by
    simp only [Expr.renderAll]
    exact (Expr.fill_render hq e).bind fun ts hts =>
      (Expr.fill_renderAll hq es).bind fun parts hparts => yields_pure (hts.append hparts)
termination_by structural es => es

/-- An ELSE is written with a place for each of its parameters. -/
theorem Expr.fill_renderElse (hq : ∀ q, Yields (Fill d.nulls q.parameters) (nested q)) :
    ∀ e : Option Expr, Yields (Fill d.nulls (Expr.parametersOption e)) (Expr.renderElse d nested e)
  | none => yields_ok (.nil rfl)
  | some e => by
    simp only [Expr.renderElse]
    exact (Expr.fill_render hq e).bind fun ts hts => yields_pure hts
termination_by structural e => e

/-- Branches are written with a place for each of their parameters. -/
theorem Branch.fill_renderAll (hq : ∀ q, Yields (Fill d.nulls q.parameters) (nested q)) :
    ∀ branches : List Branch,
      Yields (Fill d.nulls (Branch.parametersAll branches)) (Branch.renderAll d nested branches)
  | [] => yields_ok (.nil rfl)
  | ⟨condition, result⟩ :: branches => by
    simp only [Branch.renderAll]
    refine (Expr.fill_render hq condition).bind fun cs hc =>
      (Expr.fill_render hq result).bind fun rs hr =>
        (Branch.fill_renderAll hq branches).bind fun bs hb =>
          yields_pure (((hc.append hr).append hb).of_slots_eq ?_)
    simp
termination_by structural branches => branches

/-- Order keys are written with a place for each copy of their parameters. -/
theorem OrderKey.fill_renderAll (hq : ∀ q, Yields (Fill d.nulls q.parameters) (nested q)) :
    ∀ keys : List OrderKey,
      Yields (fun parts => Fill d.nulls (OrderKey.parametersAll keys) parts.flatten)
        (OrderKey.renderAll d nested keys)
  | [] => yields_ok (.nil rfl)
  | ⟨e, direction, nulls⟩ :: keys => by
    simp only [OrderKey.renderAll]
    exact (Expr.fill_render hq e).bind fun body hbody =>
      (OrderKey.fill_renderAll hq keys).bind fun parts hparts =>
        yields_pure ((hbody.renderKey direction nulls).append hparts)
termination_by structural keys => keys

end

/-- A list that is written part by part has places for the parameters of all parts. -/
theorem Token.fill_mapM {α : Type} {ordering : NullsOrdering} {f : α → Rendered}
    {ps : α → List Occurrence} (h : ∀ a, Yields (Fill ordering (ps a)) (f a)) (as : List α) :
    Yields (fun parts => Fill ordering (as.flatMap ps) parts.flatten) (as.mapM f) := by
  induction as with
  | nil => exact yields_pure (.nil rfl)
  | cons a as ih =>
    rw [List.mapM_cons]
    exact (h a).bind fun ts hts => ih.bind fun parts hparts => yields_pure (hts.append hparts)

section Clauses

variable (hq : ∀ q, Yields (Fill d.nulls q.parameters) (nested q))

include hq

/-- Projected items are written with a place for each of their parameters. -/
theorem SelectItem.fill_renderAll (items : List SelectItem) :
    Yields (Fill d.nulls (SelectItem.parametersAll items))
      (SelectItem.renderAll d nested items) := by
  rw [SelectItem.parametersAll_eq]
  refine Yields.bind (Token.fill_mapM (fun item => ?_) items) fun parts hparts =>
    yields_pure (hparts.of_slots_eq (by simp))
  refine (Expr.fill_render hq item.expr).bind fun ts hts => ?_
  cases item.name with
  | none => exact yields_pure hts
  | some name => exact yields_pure (hts.of_slots_eq (by simp))

/-- What is returned is written with a place for each of its parameters. -/
theorem SelectItem.fill_renderReturning (items : Option (List SelectItem)) :
    Yields (Fill d.nulls (SelectItem.parametersOption items))
      (SelectItem.renderReturning d nested items) := by
  cases items with
  | none => exact yields_ok (.nil rfl)
  | some items => exact (SelectItem.fill_renderAll hq items).bind fun ts hts => yields_pure hts

/-- Assignments are written with a place for each of their parameters. -/
theorem Assignment.fill_renderAll (assignments : List Assignment) :
    Yields (Fill d.nulls (Assignment.parametersAll assignments))
      (Assignment.renderAll d nested assignments) := by
  rw [Assignment.parametersAll_eq]
  refine Yields.bind (Token.fill_mapM (fun a => ?_) assignments) fun parts hparts =>
    yields_pure (hparts.of_slots_eq (by simp))
  exact (Expr.fill_render hq a.value).bind fun ts hts => yields_pure hts

/-- Rows are written with a place for each of their parameters. -/
theorem Expr.fill_renderRows (rows : List (List Expr)) :
    Yields (Fill d.nulls (Expr.parametersRows rows)) (Expr.renderRows d nested rows) := by
  have hslots (rows : List (List (List Token))) :
      Token.slots (rows.map fun row => Token.parens (Token.commas row)).flatten =
        Token.slots (rows.map List.flatten).flatten := by
    induction rows with
    | nil => rfl
    | cons row rows ih => simp [ih]
  have hrows : Yields (fun parts => Fill d.nulls (Expr.parametersRows rows)
      (parts.map List.flatten).flatten) (rows.mapM (Expr.renderAll d nested)) := by
    induction rows with
    | nil => exact yields_pure (.nil rfl)
    | cons row rows ih =>
      rw [List.mapM_cons]
      exact (Expr.fill_renderAll hq row).bind fun ts hts =>
        ih.bind fun parts hparts => yields_pure (hts.append hparts)
  exact hrows.bind fun parts hparts => yields_pure (hparts.of_slots_eq (by simp [hslots]))

/-- A clause of conditions is written with a place for each of its parameters. -/
theorem Expr.fill_renderAnd (keyword : String) (predicates : List Expr) :
    Yields (Fill d.nulls (Expr.parametersAll predicates))
      (Expr.renderAnd d nested keyword predicates) := by
  refine (Expr.fill_renderAll hq predicates).bind fun parts hparts => ?_
  split
  · next h => exact yields_pure (hparts.of_slots_eq (by simp_all))
  · exact yields_pure (hparts.of_slots_eq (Token.slots_intercalate rfl parts))

/-- A clause that lists expressions is written with a place for each of their parameters. -/
theorem Expr.fill_renderClause (keyword : String) (es : List Expr) :
    Yields (Fill d.nulls (Expr.parametersAll es)) (Expr.renderClause d nested keyword es) := by
  refine (Expr.fill_renderAll hq es).bind fun parts hparts => ?_
  split
  · next h => exact yields_pure (hparts.of_slots_eq (by simp_all))
  · exact yields_pure (hparts.of_slots_eq (by simp))

/-- An ORDER BY is written with a place for each copy of its parameters. -/
theorem OrderKey.fill_renderClause (keys : List OrderKey) :
    Yields (Fill d.nulls (OrderKey.parametersAll keys))
      (OrderKey.renderClause d nested keys) := by
  refine (OrderKey.fill_renderAll hq keys).bind fun parts hparts => ?_
  split
  · next h => exact yields_pure (hparts.of_slots_eq (by simp_all))
  · exact yields_pure (hparts.of_slots_eq (by simp))

/-- The bounds of a page are written with a place for each of their parameters. -/
theorem Expr.fill_renderPage (limit offset : Option Expr) :
    Yields (Fill d.nulls (Expr.parametersOption limit ++ Expr.parametersOption offset))
      (Expr.renderPage d nested limit offset) := by
  have hcount (e : Expr) := Expr.fill_render hq e
  cases limit with
  | none =>
    cases offset with
    | none => exact yields_ok (.nil rfl)
    | some start =>
      simp only [Expr.renderPage]
      cases d.offsetWithoutLimit with
      | none => exact (hcount start).bind fun ts hts => yields_pure hts
      | some clause => exact (hcount start).bind fun ts hts => yields_pure hts
  | some count =>
    cases offset with
    | none =>
      simp only [Expr.renderPage]
      exact (hcount count).bind fun ts hts => yields_pure (hts.append (.nil rfl))
    | some start =>
      simp only [Expr.renderPage]
      exact (hcount count).bind fun ts hts => (hcount start).bind fun us hus =>
        yields_pure (hts.append (hus.of_slots_eq rfl))

/-- A rule upon a conflict is written with a place for each of its parameters. -/
theorem Upsert.fill_renderOption (upsert : Option Upsert) :
    Yields (Fill d.nulls (Upsert.parameters upsert)) (Upsert.renderOption d nested upsert) := by
  cases upsert with
  | none => exact yields_ok (.nil rfl)
  | some upsert =>
    obtain ⟨target, action⟩ := upsert
    simp only [Upsert.renderOption]
    split
    · exact yields_error _
    · next spelling _ =>
      cases action with
      | doNothing => cases spelling <;> exact yields_ok (.nil (by simp))
      | doUpdate assignments =>
        have hassignments := Assignment.fill_renderAll hq assignments
        cases spelling with
        | onDuplicateKey =>
          exact hassignments.bind fun ts hts => yields_pure (hts.of_slots_eq (by simp))
        | onConflict =>
          simp only [Upsert.render]
          split
          · exact yields_error _
          · exact hassignments.bind fun ts hts => yields_pure (hts.of_slots_eq (by simp))

/-- An UPDATE is written with a place for each of its parameters. -/
theorem Update.fill_render (u : Update) :
    Yields (Fill d.nulls u.parameters) (u.render d nested) := by
  unfold Update.render
  split
  · exact yields_error _
  · refine (Assignment.fill_renderAll hq u.assignments).bind fun as ha =>
      (Expr.fill_renderAnd hq " WHERE " u.filters).bind fun fs hf =>
        (SelectItem.fill_renderReturning hq u.returning).bind fun rs hr =>
          yields_pure (((ha.append hf).append hr).of_slots_eq ?_)
    simp

/-- A DELETE is written with a place for each of its parameters. -/
theorem Delete.fill_render (x : Delete) :
    Yields (Fill d.nulls x.parameters) (x.render d nested) := by
  refine (Expr.fill_renderAnd hq " WHERE " x.filters).bind fun fs hf =>
    (SelectItem.fill_renderReturning hq x.returning).bind fun rs hr =>
      yields_pure ((hf.append hr).of_slots_eq ?_)
  simp

end Clauses

/-- A derived table has the places of its body. -/
@[simp] theorem Token.slots_derived (body : List Token) (name : String) :
    slots (derived body name) = slots body := by
  simp [derived]

/-- An operand has the places of its text, bracketed or not. -/
@[simp] theorem Token.slots_operand (isFlat : Bool) (ts : List Token) :
    slots (operand isFlat ts) = slots ts := by
  cases isFlat <;> simp [operand]

mutual

/-- A statement is written with a place for each of its parameters. -/
theorem Statement.fill_render (hq : ∀ q, Yields (Fill d.nulls q.parameters) (nested q)) :
    ∀ s : Statement, Yields (Fill d.nulls s.parameters) (s.render d nested)
  | .select block => Block.fill_render hq block
  | .setOperation op all left right => by
    simp only [Statement.render]
    refine (Statement.fill_render hq left).bind fun ls hl =>
      (Statement.fill_render hq right).bind fun rs hr =>
        yields_pure ((hl.append hr).of_slots_eq ?_)
    simp
  | .withCtes recursive ctes body => by
    simp only [Statement.render]
    refine (Cte.fill_renderAll hq ctes).bind fun cs hc =>
      (Statement.fill_render hq body).bind fun bs hb =>
        yields_pure ((hc.append hb).of_slots_eq ?_)
    simp
  | .insert i => Insert.fill_render hq i
  | .update u => Update.fill_render hq u
  | .delete x => Delete.fill_render hq x
termination_by structural s => s

/-- A SELECT is written with a place for each of its parameters. -/
theorem Block.fill_render (hq : ∀ q, Yields (Fill d.nulls q.parameters) (nested q)) :
    ∀ b : Block, Yields (Fill d.nulls b.parameters) (b.render d nested)
  | ⟨origin, joins, filters, groupBy, having, projection, distinct, orderBy, limit, offset⟩ => by
    have horigin := Origin.fill_render hq origin
    have hjoins := Join.fill_renderAll hq joins
    have hfilters := Expr.fill_renderAnd hq " WHERE " filters
    have hgroup := Expr.fill_renderClause hq " GROUP BY " groupBy
    have hhaving := Expr.fill_renderAnd hq " HAVING " having
    have horder := OrderKey.fill_renderClause hq orderBy
    have hpage := Expr.fill_renderPage hq limit offset
    simp only [Block.render, Block.parameters, List.append_assoc]
    cases projection with
    | none =>
      refine horigin.bind fun os ho => hjoins.bind fun js hj => hfilters.bind fun fs hf =>
        hgroup.bind fun gs hg => hhaving.bind fun vs hv => horder.bind fun ks hk =>
          hpage.bind fun ps hp => yields_pure (Fill.of_slots_eq ?_
            (ho.append (hj.append (hf.append (hg.append (hv.append (hk.append hp)))))))
      simp
    | some items =>
      refine (SelectItem.fill_renderAll hq items).bind fun is hi => horigin.bind fun os ho =>
        hjoins.bind fun js hj => hfilters.bind fun fs hf => hgroup.bind fun gs hg =>
          hhaving.bind fun vs hv => horder.bind fun ks hk => hpage.bind fun ps hp =>
            yields_pure (Fill.of_slots_eq ?_ (hi.append
              (ho.append (hj.append (hf.append (hg.append (hv.append (hk.append hp))))))))
      simp
termination_by structural b => b

/-- What a SELECT reads from is written with a place for each of its parameters. -/
theorem Origin.fill_render (hq : ∀ q, Yields (Fill d.nulls q.parameters) (nested q)) :
    ∀ o : Origin, Yields (Fill d.nulls o.parameters) (o.render d nested)
  | .table _ => yields_ok (.nil rfl)
  | .derived body name => by
    simp only [Origin.render]
    exact (Statement.fill_render hq body).bind fun ts hts =>
      yields_pure (hts.of_slots_eq (by simp))
termination_by structural o => o

/-- Joins are written with a place for each of their parameters. -/
theorem Join.fill_renderAll (hq : ∀ q, Yields (Fill d.nulls q.parameters) (nested q)) :
    ∀ joins : List Join,
      Yields (Fill d.nulls (Join.parameters joins)) (Join.renderAll d nested joins)
  | [] => yields_ok (.nil rfl)
  | ⟨kind, target, condition⟩ :: joins => by
    have htarget := JoinTarget.fill_render hq target
    have hjoins := Join.fill_renderAll hq joins
    simp only [Join.renderAll]
    cases condition with
    | none =>
      simp only [Join.parameters, Expr.parametersOption, List.append_nil]
      refine htarget.bind fun ts ht => hjoins.bind fun js hj =>
        yields_pure ((ht.append hj).of_slots_eq ?_)
      simp
    | some condition =>
      refine htarget.bind fun ts ht => (Expr.fill_render hq condition).bind fun cs hc =>
        hjoins.bind fun js hj => yields_pure (((ht.append hc).append hj).of_slots_eq ?_)
      simp
termination_by structural joins => joins

/-- What is joined is written with a place for each of its parameters. -/
theorem JoinTarget.fill_render (hq : ∀ q, Yields (Fill d.nulls q.parameters) (nested q)) :
    ∀ target : JoinTarget Statement,
      Yields (Fill d.nulls (JoinTarget.parameters target)) (JoinTarget.render d nested target)
  | .table _ => yields_ok (.nil rfl)
  | .lateral body name => by
    simp only [JoinTarget.render]
    exact (Statement.fill_render hq body).bind fun ts hts =>
      yields_pure (hts.of_slots_eq (by simp))
termination_by structural target => target

/-- The entries of a WITH are written with a place for each of their parameters. -/
theorem Cte.fill_renderAll (hq : ∀ q, Yields (Fill d.nulls q.parameters) (nested q)) :
    ∀ ctes : List (Cte Statement),
      Yields (fun parts => Fill d.nulls (Cte.parameters ctes) parts.flatten)
        (Cte.renderAll d nested ctes)
  | [] => yields_ok (.nil rfl)
  | ⟨name, columns, body⟩ :: ctes => by
    simp only [Cte.renderAll]
    refine (Statement.fill_render hq body).bind fun bs hb =>
      (Cte.fill_renderAll hq ctes).bind fun cs hc => yields_pure ((hb.append hc).of_slots_eq ?_)
    simp
termination_by structural ctes => ctes

/-- An INSERT is written with a place for each of its parameters. -/
theorem Insert.fill_render (hq : ∀ q, Yields (Fill d.nulls q.parameters) (nested q)) :
    ∀ i : Insert, Yields (Fill d.nulls i.parameters) (i.render d nested)
  | ⟨name, columns, none, upsert, returning⟩ => yields_error _
  | ⟨name, columns, some source, upsert, returning⟩ => by
    simp only [Insert.render]
    refine Yields.bind (P := fun _ => True) (fun _ _ => trivial) fun _ _ => ?_
    refine (InsertSource.fill_render hq source).bind fun ss hs =>
      (Upsert.fill_renderOption hq upsert).bind fun us hu =>
        (SelectItem.fill_renderReturning hq returning).bind fun rs hr =>
          yields_pure (((hs.append hu).append hr).of_slots_eq ?_)
    simp
termination_by structural i => i

/-- What is inserted is written with a place for each of its parameters. -/
theorem InsertSource.fill_render (hq : ∀ q, Yields (Fill d.nulls q.parameters) (nested q)) :
    ∀ s : InsertSource, Yields (Fill d.nulls s.parameters) (s.render d nested)
  | .values rows => by
    simp only [InsertSource.render]
    exact (Expr.fill_renderRows hq rows).bind fun ts hts => yields_pure hts
  | .select body => by
    simp only [InsertSource.render]
    exact (Statement.fill_render hq body).bind fun ts hts => yields_pure hts
termination_by structural s => s

end

/-- Queries that are read for their rows are written with a place for each of their parameters,
however deeply they are nested. -/
theorem Query.fill_renderRows (d : Dialect) : ∀ (limit : Nat) (q : Query),
    Yields (Fill d.nulls q.parameters) (q.renderRows d limit) := by
  intro limit
  induction limit with
  | zero => exact fun _ => yields_error _
  | succ limit ih =>
    intro q ts h
    obtain ⟨s, hs, hts⟩ := bind_eq_ok.mp h
    have hlower := (Query.lowerRows_eq_ok.mp hs).1
    have hfill := Statement.fill_render ih s ts hts
    exact hfill.trans (d.nulls.perm_spread (Query.parameters_lower d hlower))

end Rendering

/-- A plan names each parameter of its query as often as it occurs in it. Where the place of nulls
is emulated, every order key around an occurrence that says where nulls go doubles it. -/
theorem params_perm_spread {d : Dialect} {q : Query} {plan : Plan} (h : q.compile d = .ok plan) :
    plan.params.Perm (d.nulls.spread q.parameters) := by
  simp only [Query.compile, Query.render, bind_eq_ok, pure_eq_ok] at h
  obtain ⟨ts, ⟨s, hs, hts⟩, rfl⟩ := h
  rw [Plan.params_ofTokens]
  have hfill := Statement.fill_render (Query.fill_renderRows d q.depth) s ts hts
  exact hfill.trans (d.nulls.perm_spread (Query.parameters_lower d hs))

/-- Rows filtered, and ordered by a window call that has an order of its own. -/
def Query.orderedByWindow : Query :=
  ((Query.table "t").filter (.binary .eq (.column none "x") (.parameter .integer "c"))).orderBy
    [⟨.window "SUM" [.parameter .integer "a"] [] [⟨.parameter .integer "b", .asc, some .first⟩]
      none, .desc, some .last⟩]

/-- One key inside another: what stands in both is written four times. -/
theorem params_perm_spread_orderedByWindow :
    Query.orderedByWindow.parameters = [("c", 0), ("a", 1), ("b", 2)] ∧
    ∃ plan, Query.orderedByWindow.compile Profile.mysql.dialect = .ok plan ∧
      plan.params.Perm ["c", "a", "a", "b", "b", "b", "b"] := by
  have hplan : Query.orderedByWindow.compile Profile.mysql.dialect = .ok _ := rfl
  exact ⟨rfl, _, hplan, params_perm_spread hplan⟩

end SqlAlgebra
