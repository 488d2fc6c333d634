import SqlAlgebra.Compile
import SqlAlgebra.Proofs.Resolution
import SqlAlgebra.Proofs.Separation
import SqlAlgebra.Proofs.Writing

/-!
# Texts and names stay in their quotes

The tokens of every query are separated, if the names that are written without quotes are words. The
text of its plan is therefore read back as it was written: no constant and no identifier, whatever
characters it has in it, ends before its closing mark or reaches into what follows.
-/

namespace SqlAlgebra

open Text Token

/-- The name that a node writes without quotes. -/
def Node.unquotedName? : Node → Option String
  | expr _ (.call name ..) | expr _ (.window name ..) | expr _ (.cast _ (.custom name)) => some name
  | _ => none

/-- What a node writes without quotes is a name made of words. -/
def Node.HasWords (n : Node) : Prop := ∀ name ∈ n.unquotedName?, IsWords name

instance : DecidablePred Node.HasWords := fun _ => inferInstanceAs (Decidable (∀ _ ∈ _, _))

section Rendering

variable {d : Dialect} {f : Query → Rendered}

/-- A value is written in separated pieces. -/
theorem Value.separated_render (hd : d.SpellsPlainly) (value : Value) :
    Yields Separated (value.render d) := by
  cases value with
  | null => exact yields_ok (separated_piece (by decide : Text.IsPlain _))
  | bool b => exact yields_ok (separated_piece (hd.boolean b))
  | int n => exact yields_ok (separated_piece (isPlain_toString_int _))
  | text s => exact yields_ok (separated_piece trivial)
  | float x =>
    by_cases hx : x.isFinite
    · simp only [Value.render, if_pos hx]
      exact yields_ok (separated_piece x.isPlain_text)
    · simp only [Value.render, if_neg hx]
      exact yields_error _

/-- An operator that is spelled plainly separates its operands. -/
theorem OperatorSyntax.separated_render (entry : OperatorSyntax) (hentry : entry.IsPlain)
    {left right : List Token} (hleft : Separated left) (hright : Separated right) :
    Separated (entry.render left right) := by
  cases entry with
  | between symbol => exact (hleft.join hentry hright).parens.separated
  | call name => exact (hleft.join (by decide) hright).parens.separated.text_cons hentry
  | upperBetween symbol =>
    have hupper := hleft.parens.separated.text_cons (s := "UPPER") (by decide)
    exact (hupper.join hentry hright.parens.separated).parens.separated

/-- A unary operator is written with its operand in a way that may follow anything. -/
theorem UnaryOperator.isClause_render (op : UnaryOperator) {operand : List Token}
    (h : Separated operand) : IsClause (op.render operand) := by
  cases op with
  | not | minus => exact (h.text_cons (by decide)).parens
  | isNull | isNotNull => exact (h.append (isClause_text (by decide))).parens

/-- An order key is written in separated pieces, wherever it places nulls. -/
theorem NullsOrdering.separated_renderKey (ordering : NullsOrdering) {body : List Token}
    (h : Separated body) (direction : SortDirection) (nulls : Option NullsOrder) :
    Separated (ordering.renderKey body direction nulls) := by
  have hdesc := h.append (isClause_text (s := " DESC") (by decide))
  have htest := (UnaryOperator.isNull.isClause_render h).separated
  cases nulls with
  | none =>
    cases direction with
    | asc => exact h
    | desc => exact hdesc
  | some order =>
    cases ordering with
    | native =>
      have horder : IsClause [.text (" " ++ order.keyword)] :=
        isClause_text (by cases order <;> decide)
      cases direction with
      | asc => exact h.append horder
      | desc => exact hdesc.append horder
    | emulatedWithIsNull =>
      cases direction with
      | asc => cases order <;> exact htest.join (by decide) h
      | desc => cases order <;> exact htest.join (by decide) hdesc

/-- A window is written in separated pieces. -/
theorem Token.separated_over {partition order : List (List Token)}
    (hpartition : ∀ part ∈ partition, Separated part) (horder : ∀ part ∈ order, Separated part)
    (frame : Option Frame) : Separated (Token.over partition order frame) := by
  refine separated_intercalate (by decide) ?_
  simp only [List.forall_mem_append]
  refine ⟨⟨?_, ?_⟩, ?_⟩
  · split
    · simp
    · simpa using (separated_commas hpartition).text_cons (by decide)
  · split
    · simp
    · simpa using (separated_commas horder).text_cons (by decide)
  · cases frame with
    | none => simp
    | some frame => exact List.forall_mem_singleton.mpr (separated_piece frame.isPlain_text)

/-- A word stays a keyword with a negation before it. -/
theorem isKeyword_negation (negated : Bool) (word : String) (hword : IsPlain word.toList) :
    IsKeyword (" " ++ negation negated ++ word) := by
  refine IsKeyword.append ?_ hword
  cases negated <;> decide

mutual

/-- The tokens of an expression are separated, if those of the queries in it are. -/
theorem Expr.separated_render (hd : d.SpellsPlainly) (scope : Scope) : ∀ {e : Expr},
    (∀ n ∈ e.nodes scope, n.HasWords) → (∀ q ∈ e.queries, Yields Separated (f q)) →
      Yields Separated (e.render d f)
  | .column owner name, _, _ => yields_ok (separated_column owner name)
  | .placeholder _, _, _ => yields_error _
  | .literal value, _, _ => value.separated_render hd
  | .parameter .., _, _ => yields_ok (separated_piece trivial)
  | .wildcard, _, _ => yields_ok (separated_piece (by decide : Text.IsPlain _))
  | .inList _ [] _, _, _ => yields_error _
  | .choice [] _, _, _ => yields_error _
  | .binary op left right, hn, hq => by
    simp only [Expr.nodes, Expr.queries, List.forall_mem_cons, List.forall_mem_append] at hn hq
    have hleft := Expr.separated_render hd scope hn.2.1 hq.1
    have hright := Expr.separated_render hd scope hn.2.2 hq.2
    rw [Expr.render]
    split
    · exact yields_error _
    next entry hentry =>
      exact hleft.bind fun left hleft => hright.bind fun right hright =>
        yields_pure (entry.separated_render (hd.operator op entry hentry) hleft hright)
  | .unary op operand, hn, hq => by
    simp only [Expr.nodes, List.forall_mem_cons] at hn
    exact (Expr.separated_render hd scope hn.2 hq).bind fun operand hoperand =>
      yields_pure (op.isClause_render hoperand).separated
  | .call name args distinct, hn, hq => by
    simp only [Expr.nodes, List.forall_mem_cons] at hn
    have hname : IsWords name := hn.1 name rfl
    -- the name may be empty: nothing rests on it that a bracket behind it does not bear
    refine (Expr.separated_renderAll hd scope hn.2 hq).bind fun args hargs => yields_pure ?_
    refine Separated.text_cons hname.isPlain (Separated.parens ?_).separated
    split
    · exact (separated_commas hargs).text_cons (by decide)
    · exact separated_commas hargs
  | .between subject low high negated, hn, hq => by
    simp only [Expr.nodes, Expr.queries, List.forall_mem_cons, List.forall_mem_append] at hn hq
    have hsubject := Expr.separated_render hd scope hn.2.1.1 hq.1.1
    have hlow := Expr.separated_render hd scope hn.2.1.2 hq.1.2
    have hhigh := Expr.separated_render hd scope hn.2.2 hq.2
    refine hsubject.bind fun subject hsubject => hlow.bind fun low hlow =>
      hhigh.bind fun high hhigh => yields_pure ?_
    have hfirst := hsubject.join (isKeyword_negation negated "BETWEEN " (by decide)) hlow
    exact (hfirst.join (by decide) hhigh).parens.separated
  | .inList subject (value :: values) negated, hn, hq => by
    simp only [Expr.nodes, List.forall_mem_cons, List.forall_mem_append] at hn
    simp only [Expr.queries, List.forall_mem_append] at hq
    have hsubject := Expr.separated_render hd scope hn.2.1 hq.1
    have hvalues := Expr.separated_renderAll hd scope hn.2.2 hq.2
    have hin := isKeyword_negation negated "IN " (by decide)
    by_cases hquery : ∃ q, value :: values = [.subquery q]
    · obtain ⟨q, hlist⟩ := hquery
      rw [hlist] at hq ⊢
      have hrows := hq.2 q (by simp [Expr.queriesAll, Expr.queries])
      exact hsubject.bind fun subject hsubject => hrows.bind fun rows hrows =>
        yields_pure (hsubject.join hin hrows.parens.separated).parens.separated
    · rw [Expr.render_inList (List.cons_ne_nil _ _) (not_exists.mp hquery)]
      exact hsubject.bind fun subject hsubject => hvalues.bind fun values hvalues =>
        yields_pure (hsubject.join hin (separated_commas hvalues).parens.separated).parens.separated
  | .cast operand type, hn, hq => by
    simp only [Expr.nodes, List.forall_mem_cons] at hn
    have hoperand := Expr.separated_render hd scope hn.2 hq
    rw [Expr.render]
    split
    · exact yields_error _
    next name hname =>
      have hplain : Text.IsPlain name.toList := by
        by_cases htype : type = .custom name
        · have hwords := hn.1 name
          rw [htype] at hwords
          exact (hwords rfl).isPlain
        · exact hd.typeName type name hname htype
      refine hoperand.bind fun operand hoperand => yields_pure ?_
      have has : IsKeyword (" AS " ++ name) := IsKeyword.append (by decide) hplain
      exact (hoperand.append (isClause_text has)).parens.separated.text_cons (by decide)
  | .subquery query, _, hq =>
    (hq query (by simp [Expr.queries])).bind fun rows hrows => yields_pure hrows.parens.separated
  | .existence query negated, _, hq =>
    (hq query (by simp [Expr.queries])).bind fun rows hrows =>
      yields_pure (hrows.parens.separated.text_cons (by cases negated <;> decide))
  | .choice (branch :: branches) otherwise, hn, hq => by
    simp only [Expr.nodes, List.forall_mem_cons, List.forall_mem_append] at hn
    simp only [Expr.queries, List.forall_mem_append] at hq
    have hbranches := Branch.isClause_renderAll hd scope hn.2.1 hq.1
    have hotherwise := Expr.isClause_renderElse hd scope hn.2.2 hq.2
    refine hbranches.bind fun branches hbranches => hotherwise.bind fun otherwise hotherwise =>
      yields_pure ?_
    have hcase := hbranches.separated.text_cons (s := "CASE") (by decide)
    exact ((hcase.append hotherwise).append (isClause_text (by decide))).parens.separated
  | .window name args partition order frame, hn, hq => by
    simp only [Expr.nodes, Expr.queries, List.forall_mem_cons, List.forall_mem_append] at hn hq
    have hname : IsWords name := hn.1 name rfl
    have hargs := Expr.separated_renderAll hd scope hn.2.1.1 hq.1.1
    have hpartition := Expr.separated_renderAll hd scope hn.2.1.2 hq.1.2
    have horder := OrderKey.separated_renderAll hd scope hn.2.2 hq.2
    rw [Expr.render]
    split
    · refine hargs.bind fun args hargs => hpartition.bind fun partition hpartition =>
        horder.bind fun order horder => yields_pure ?_
      have hcall := (separated_commas hargs).parens.separated.text_cons hname.isPlain
      have hover := (separated_over hpartition horder frame).parens.separated
      exact hcall.append (hover.clause (by decide))
    · exact yields_error _
termination_by structural e => e

/-- The expressions of a list are written in separated pieces each. -/
theorem Expr.separated_renderAll (hd : d.SpellsPlainly) (scope : Scope) : ∀ {es : List Expr},
    (∀ n ∈ Expr.nodesAll scope es, n.HasWords) →
    (∀ q ∈ Expr.queriesAll es, Yields Separated (f q)) →
      Yields (fun parts => ∀ part ∈ parts, Separated part) (Expr.renderAll d f es)
  | [], _, _ => yields_ok (by simp)
  | e :: es, hn, hq => by
    simp only [Expr.nodesAll, Expr.queriesAll, List.forall_mem_append] at hn hq
    have he := Expr.separated_render hd scope hn.1 hq.1
    have hes := Expr.separated_renderAll hd scope hn.2 hq.2
    exact he.bind fun part hpart => hes.bind fun parts hparts =>
      yields_pure (List.forall_mem_cons.mpr ⟨hpart, hparts⟩)
termination_by structural es => es

/-- An ELSE is written in a way that may follow anything. -/
theorem Expr.isClause_renderElse (hd : d.SpellsPlainly) (scope : Scope) : ∀ {e : Option Expr},
    (∀ n ∈ Expr.nodesOption scope e, n.HasWords) →
    (∀ q ∈ Expr.queriesOption e, Yields Separated (f q)) →
      Yields IsClause (Expr.renderElse d f e)
  | none, _, _ => yields_ok isClause_nil
  | some e, hn, hq =>
    (Expr.separated_render hd scope hn hq).bind fun part hpart =>
      yields_pure (hpart.clause (by decide))
termination_by structural e => e

/-- Branches are written in a way that may follow anything. -/
theorem Branch.isClause_renderAll (hd : d.SpellsPlainly) (scope : Scope) :
    ∀ {branches : List Branch}, (∀ n ∈ Branch.nodesAll scope branches, n.HasWords) →
    (∀ q ∈ Branch.queriesAll branches, Yields Separated (f q)) →
      Yields IsClause (Branch.renderAll d f branches)
  | [], _, _ => yields_ok isClause_nil
  | ⟨condition, result⟩ :: branches, hn, hq => by
    simp only [Branch.nodesAll, Branch.queriesAll, List.forall_mem_append] at hn hq
    have hcondition := Expr.separated_render hd scope hn.1.1 hq.1.1
    have hresult := Expr.separated_render hd scope hn.1.2 hq.1.2
    have hbranches := Branch.isClause_renderAll hd scope hn.2 hq.2
    refine hcondition.bind fun condition hcondition => hresult.bind fun result hresult =>
      hbranches.bind fun rest hrest => yields_pure ?_
    exact ((hcondition.clause (by decide)).append (hresult.clause (by decide))).append hrest
termination_by structural branches => branches

/-- Order keys are written in separated pieces each. -/
theorem OrderKey.separated_renderAll (hd : d.SpellsPlainly) (scope : Scope) :
    ∀ {keys : List OrderKey}, (∀ n ∈ OrderKey.nodesAll scope keys, n.HasWords) →
    (∀ q ∈ OrderKey.queriesAll keys, Yields Separated (f q)) →
      Yields (fun parts => ∀ part ∈ parts, Separated part) (OrderKey.renderAll d f keys)
  | [], _, _ => yields_ok (by simp)
  | ⟨e, direction, nulls⟩ :: keys, hn, hq => by
    simp only [OrderKey.nodesAll, OrderKey.queriesAll, List.forall_mem_append] at hn hq
    have he := Expr.separated_render hd scope hn.1 hq.1
    have hkeys := OrderKey.separated_renderAll hd scope hn.2 hq.2
    exact he.bind fun body hbody => hkeys.bind fun parts hparts =>
      yields_pure (List.forall_mem_cons.mpr
        ⟨d.nulls.separated_renderKey hbody direction nulls, hparts⟩)
termination_by structural keys => keys

end

/-- A list is written in separated pieces where its expressions are. -/
theorem Expr.separated_renderAll_of_mem {es : List Expr}
    (hx : ∀ x ∈ es, Yields Separated (x.render d f)) :
    Yields (fun parts => ∀ part ∈ parts, Separated part) (Expr.renderAll d f es) := by
  rw [Expr.renderAll_eq_mapM]
  exact yields_mapM hx

/-- A clause of several expressions, with a keyword before them and between them. -/
theorem Expr.isClause_renderAnd {keyword : String} (hkeyword : IsKeyword keyword) {es : List Expr}
    (hx : ∀ x ∈ es, Yields Separated (x.render d f)) :
    Yields IsClause (Expr.renderAnd d f keyword es) := by
  refine (Expr.separated_renderAll_of_mem hx).bind fun parts hparts => ?_
  split
  · exact yields_pure isClause_nil
  · exact yields_pure ((separated_intercalate (by decide) hparts).clause hkeyword)

/-- A clause that lists expressions is written in a way that may follow anything. -/
theorem Expr.isClause_renderClause {keyword : String} (hkeyword : IsKeyword keyword)
    {es : List Expr} (hx : ∀ x ∈ es, Yields Separated (x.render d f)) :
    Yields IsClause (Expr.renderClause d f keyword es) := by
  refine (Expr.separated_renderAll_of_mem hx).bind fun parts hparts => ?_
  split
  · exact yields_pure isClause_nil
  · exact yields_pure ((separated_commas hparts).clause hkeyword)

/-- An ORDER BY is written in a way that may follow anything. -/
theorem OrderKey.isClause_renderClause {keys : List OrderKey}
    (hx : ∀ x ∈ keys.map (·.expr), Yields Separated (x.render d f)) :
    Yields IsClause (OrderKey.renderClause d f keys) := by
  have hkeys : Yields (fun parts => ∀ part ∈ parts, Separated part)
      (OrderKey.renderAll d f keys) := by
    rw [OrderKey.renderAll_eq_mapM]
    refine yields_mapM fun key hkey => ?_
    exact (hx key.expr (List.mem_map_of_mem hkey)).bind fun body hbody =>
      yields_pure (d.nulls.separated_renderKey hbody key.direction key.nulls)
  refine hkeys.bind fun parts hparts => ?_
  split
  · exact yields_pure isClause_nil
  · exact yields_pure ((separated_commas hparts).clause (by decide))

/-- The bounds of a page are written in a way that may follow anything. -/
theorem Expr.isClause_renderPage (hd : d.SpellsPlainly) {limit offset : Option Expr}
    (hlimit : ∀ x ∈ limit.toList, Yields Separated (x.render d f))
    (hoffset : ∀ x ∈ offset.toList, Yields Separated (x.render d f)) :
    Yields IsClause (Expr.renderPage d f limit offset) := by
  cases offset with
  | none =>
    cases limit with
    | none => exact yields_ok isClause_nil
    | some count =>
      exact (hlimit count (by simp)).bind fun part hpart =>
        yields_pure ((hpart.clause (by decide)).append isClause_nil)
  | some skipped =>
    have hskipped := hoffset skipped (by simp)
    cases limit with
    | some count =>
      exact (hlimit count (by simp)).bind fun part hpart => hskipped.bind fun rest hrest =>
        yields_pure ((hpart.clause (by decide)).append (hrest.clause (by decide)))
    | none =>
      simp only [Expr.renderPage]
      split
      · exact hskipped.bind fun rest hrest => yields_pure (hrest.clause (by decide))
      next clause hclause =>
        have hkeyword : IsKeyword (" " ++ clause) :=
          IsKeyword.append (by decide) (hd.offset clause hclause)
        exact hskipped.bind fun rest hrest =>
          yields_pure ((isClause_text hkeyword).append (hrest.clause (by decide)))

/-- Projected items are written in separated pieces. -/
theorem SelectItem.separated_renderAll {items : List SelectItem}
    (hx : ∀ x ∈ items.map (·.expr), Yields Separated (x.render d f)) :
    Yields Separated (SelectItem.renderAll d f items) := by
  refine Yields.bind (P := fun parts => ∀ part ∈ parts, Separated part)
    (yields_mapM fun item hitem => ?_) fun parts hparts => yields_pure (separated_commas hparts)
  refine (hx item.expr (List.mem_map_of_mem hitem)).bind fun part hpart => ?_
  split
  · exact yields_pure hpart
  · exact yields_pure (hpart.append ((separated_ident _).clause (by decide)))

/-- What is returned is written in a way that may follow anything. -/
theorem SelectItem.isClause_renderReturning {items : Option (List SelectItem)}
    (hx : ∀ x ∈ SelectItem.exprs items, Yields Separated (x.render d f)) :
    Yields IsClause (SelectItem.renderReturning d f items) := by
  cases items with
  | none => exact yields_ok isClause_nil
  | some items =>
    exact (SelectItem.separated_renderAll hx).bind fun part hpart =>
      yields_pure (hpart.clause (by decide))

/-- Assignments are written in separated pieces. -/
theorem Assignment.separated_renderAll {assignments : List Assignment}
    (hx : ∀ x ∈ assignments.map (·.value), Yields Separated (x.render d f)) :
    Yields Separated (Assignment.renderAll d f assignments) := by
  refine Yields.bind (P := fun parts => ∀ part ∈ parts, Separated part)
    (yields_mapM fun a ha => ?_) fun parts hparts => yields_pure (separated_commas hparts)
  exact (hx a.value (List.mem_map_of_mem ha)).bind fun part hpart =>
    yields_pure ((hpart.clause (by decide)).ident_cons a.column)

/-- Rows are written in separated pieces. -/
theorem Expr.separated_renderRows {rows : List (List Expr)}
    (hx : ∀ x ∈ rows.flatten, Yields Separated (x.render d f)) :
    Yields Separated (Expr.renderRows d f rows) := by
  have hrows : ∀ row ∈ rows, Yields (fun parts => ∀ part ∈ parts, Separated part)
      (Expr.renderAll d f row) := fun row hrow =>
    Expr.separated_renderAll_of_mem fun x hxrow => hx x (List.mem_flatten.mpr ⟨row, hrow, hxrow⟩)
  refine (yields_mapM hrows).bind fun rows hrows =>
    yields_pure (separated_commas fun part hpart => ?_)
  obtain ⟨row, hrow, rfl⟩ := List.mem_map.mp hpart
  exact (separated_commas (hrows row hrow)).parens.separated

/-- A rule upon a conflict is written in a way that may follow anything. -/
theorem Upsert.isClause_renderOption {upsert : Option Upsert}
    (hx : ∀ x ∈ Upsert.exprs upsert, Yields Separated (x.render d f)) :
    Yields IsClause (Upsert.renderOption d f upsert) := by
  cases upsert with
  | none => exact yields_ok isClause_nil
  | some upsert =>
    obtain ⟨target, action⟩ := upsert
    have hconflict : IsClause (.text " ON CONFLICT" :: columnList target) :=
      (isClause_columnList target).separated.clause (by decide)
    simp only [Upsert.renderOption]
    cases d.upsert with
    | none => exact yields_error _
    | some spelling =>
      cases action with
      | doNothing =>
        cases spelling with
        | onConflict => exact yields_ok (hconflict.append (isClause_text (by decide)))
        | onDuplicateKey => exact yields_ok isClause_nil
      | doUpdate assignments =>
        have hassignments := Assignment.separated_renderAll hx
        cases spelling with
        | onConflict =>
          simp only [Upsert.render]
          split
          · exact yields_error _
          · exact hassignments.bind fun part hpart =>
              yields_pure (hconflict.append (hpart.clause (by decide)))
        | onDuplicateKey =>
          exact hassignments.bind fun part hpart =>
            yields_pure ((hpart.switch true false).clause (by decide))

/-- An UPDATE is written in separated pieces. -/
theorem Update.separated_render {u : Update}
    (hx : ∀ x ∈ u.exprs, Yields Separated (x.render d f)) : Yields Separated (u.render d f) := by
  simp only [Update.exprs, List.forall_mem_append] at hx
  unfold Update.render
  split
  · exact yields_error _
  · refine (Assignment.separated_renderAll hx.1.1).bind fun assignments hassignments =>
      (Expr.isClause_renderAnd (by decide) hx.1.2).bind fun filters hfilters =>
        (SelectItem.isClause_renderReturning hx.2).bind fun returning hreturning => yields_pure ?_
    have hset := (hassignments.clause (s := " SET ") (by decide)).ident_cons u.table
    exact (((hset.clause (by decide)).append hfilters).append hreturning).separated

/-- A DELETE is written in separated pieces. -/
theorem Delete.separated_render {x : Delete}
    (hx : ∀ e ∈ x.exprs, Yields Separated (e.render d f)) : Yields Separated (x.render d f) := by
  simp only [Delete.exprs, List.forall_mem_append] at hx
  refine (Expr.isClause_renderAnd (by decide) hx.1).bind fun filters hfilters =>
    (SelectItem.isClause_renderReturning hx.2).bind fun returning hreturning => yields_pure ?_
  have htable := hfilters.ident_cons x.table
  exact ((htable.clause (by decide)).append hreturning).separated

/-- A derived table may follow anything. -/
theorem Token.isClause_derived {body : List Token} (hbody : Separated body) (name : String) :
    IsClause (derived body name) :=
  hbody.parens.append ((separated_ident name).clause (by decide))

/-- An operand is written in separated pieces, bracketed or not. -/
theorem Token.separated_operand (isFlat : Bool) {ts : List Token} (hts : Separated ts) :
    Separated (operand isFlat ts) := by
  unfold operand
  split
  · exact hts
  · exact (isClause_derived hts "t").separated.text_cons (by decide)

mutual

/-- The tokens of a statement are separated, if those of its expressions are. -/
theorem Statement.separated_render (hd : d.SpellsPlainly) : ∀ {s : Statement},
    (∀ x ∈ s.exprs, Yields Separated (x.render d f)) → Yields Separated (s.render d f)
  | .select block, hx => Block.separated_render hd hx
  | .setOperation op all left right, hx => by
    simp only [Statement.exprs, List.forall_mem_append] at hx
    refine (Statement.separated_render hd hx.1).bind fun leftTokens hleft =>
      (Statement.separated_render hd hx.2).bind fun rightTokens hright => yields_pure ?_
    refine (separated_operand _ hleft).append ((separated_operand _ hright).clause ?_)
    cases op <;> cases all <;> decide
  | .withCtes recursive ctes body, hx => by
    simp only [Statement.exprs, List.forall_mem_append] at hx
    refine (Cte.separated_renderAll hd hx.1).bind fun ctes hctes =>
      (Statement.separated_render hd hx.2).bind fun body hbody => yields_pure ?_
    have hwith : Text.IsPlain (if recursive then "WITH RECURSIVE " else "WITH ").toList := by
      cases recursive <;> decide
    exact ((separated_commas hctes).text_cons hwith).append (hbody.clause (by decide))
  | .insert i, hx => Insert.separated_render hd hx
  | .update _, hx => Update.separated_render hx
  | .delete _, hx => Delete.separated_render hx
termination_by structural s => s

/-- A SELECT is written in separated pieces. -/
theorem Block.separated_render (hd : d.SpellsPlainly) : ∀ {b : Block},
    (∀ x ∈ b.exprs, Yields Separated (x.render d f)) → Yields Separated (b.render d f)
  | ⟨origin, joins, filters, groupBy, having, projection, distinct, orderBy, limit, offset⟩,
    hx => by
    simp only [Block.exprs, List.forall_mem_append] at hx
    obtain ⟨⟨⟨⟨⟨⟨⟨⟨hitems, horigin⟩, hjoins⟩, hfilters⟩, hgroup⟩, hhaving⟩, horder⟩, hlimit⟩,
      hoffset⟩ := hx
    have horigin := Origin.separated_render hd horigin
    have hjoins := Join.isClause_renderAll hd hjoins
    have hselect : IsKeyword (if distinct then "SELECT DISTINCT " else "SELECT ") := by
      cases distinct <;> decide
    -- behind the items, the rest of the SELECT is the same with and without a projection
    have hrest (items : List Token) (hitems : Separated items) :
        Yields Separated (do
          let origin ← origin.render d f
          let joins ← Join.renderAll d f joins
          let filters ← Expr.renderAnd d f " WHERE " filters
          let groupBy ← Expr.renderClause d f " GROUP BY " groupBy
          let having ← Expr.renderAnd d f " HAVING " having
          let orderBy ← OrderKey.renderClause d f orderBy
          let page ← Expr.renderPage d f limit offset
          return .text (if distinct then "SELECT DISTINCT " else "SELECT ") :: items ++
            .text " FROM " :: origin ++ joins ++ filters ++ groupBy ++ having ++ orderBy ++
            page) := by
      refine horigin.bind fun origin horigin => hjoins.bind fun joins hjoins =>
        (Expr.isClause_renderAnd (by decide) hfilters).bind fun filters hfilters =>
        (Expr.isClause_renderClause (by decide) hgroup).bind fun groupBy hgroup =>
        (Expr.isClause_renderAnd (by decide) hhaving).bind fun having hhaving =>
        (OrderKey.isClause_renderClause horder).bind fun orderBy horder =>
        (Expr.isClause_renderPage hd hlimit hoffset).bind fun page hpage => yields_pure ?_
      have hfrom := (hitems.clause hselect).append (horigin.clause (s := " FROM ") (by decide))
      exact ((((((hfrom.append hjoins).append hfilters).append hgroup).append hhaving).append
        horder).append hpage).separated
    cases projection with
    | none => exact hrest _ (separated_piece (by decide : Text.IsPlain _))
    | some items => exact (SelectItem.separated_renderAll hitems).bind hrest
termination_by structural b => b

/-- What a SELECT reads from is written in separated pieces. -/
theorem Origin.separated_render (hd : d.SpellsPlainly) : ∀ {o : Origin},
    (∀ x ∈ o.exprs, Yields Separated (x.render d f)) → Yields Separated (o.render d f)
  | .table name, _ => yields_ok (separated_ident name)
  | .derived _ name, hx =>
    (Statement.separated_render hd hx).bind fun _ hbody =>
      yields_pure (isClause_derived hbody name).separated
termination_by structural o => o

/-- Joins are written in a way that may follow anything. -/
theorem Join.isClause_renderAll (hd : d.SpellsPlainly) : ∀ {joins : List Join},
    (∀ x ∈ Join.exprs joins, Yields Separated (x.render d f)) →
      Yields IsClause (Join.renderAll d f joins)
  | [], _ => yields_ok isClause_nil
  | ⟨kind, target, condition⟩ :: joins, hx => by
    simp only [Join.exprs, List.forall_mem_append] at hx
    have hkind : IsKeyword (" " ++ kind.keyword ++ " ") := by cases kind <;> decide
    have hjoins := Join.isClause_renderAll hd hx.2
    refine (JoinTarget.separated_render hd hx.1.1).bind fun target htarget => ?_
    cases condition with
    | none =>
      exact hjoins.bind fun rest hrest =>
        yields_pure (((htarget.clause hkind).append isClause_nil).append hrest)
    | some e =>
      exact (hx.1.2 e (by simp)).bind fun part hpart => hjoins.bind fun rest hrest =>
        yields_pure (((htarget.clause hkind).append (hpart.clause (by decide))).append hrest)
termination_by structural joins => joins

/-- What is joined is written in separated pieces. -/
theorem JoinTarget.separated_render (hd : d.SpellsPlainly) : ∀ {target : JoinTarget Statement},
    (∀ x ∈ JoinTarget.exprs target, Yields Separated (x.render d f)) →
      Yields Separated (JoinTarget.render d f target)
  | .table name, _ => yields_ok (separated_ident name)
  | .lateral _ name, hx =>
    (Statement.separated_render hd hx).bind fun _ hbody =>
      yields_pure ((isClause_derived hbody name).separated.text_cons (by decide))
termination_by structural target => target

/-- The entries of a WITH are written in separated pieces each. -/
theorem Cte.separated_renderAll (hd : d.SpellsPlainly) : ∀ {ctes : List (Cte Statement)},
    (∀ x ∈ Cte.exprs ctes, Yields Separated (x.render d f)) →
      Yields (fun parts => ∀ part ∈ parts, Separated part) (Cte.renderAll d f ctes)
  | [], _ => yields_ok (by simp)
  | ⟨name, columns, body⟩ :: ctes, hx => by
    simp only [Cte.exprs, List.forall_mem_append] at hx
    have hctes := Cte.separated_renderAll hd hx.2
    refine (Statement.separated_render hd hx.1).bind fun body hbody =>
      hctes.bind fun parts hparts => yields_pure (List.forall_mem_cons.mpr ⟨?_, hparts⟩)
    have hname := (isClause_columnList columns).ident_cons name
    exact hname.append (hbody.parens.separated.clause (by decide))
termination_by structural ctes => ctes

/-- An INSERT is written in separated pieces. -/
theorem Insert.separated_render (hd : d.SpellsPlainly) : ∀ {i : Insert},
    (∀ x ∈ i.exprs, Yields Separated (x.render d f)) → Yields Separated (i.render d f)
  | ⟨_, _, none, _, _⟩, _ => yields_error _
  | ⟨name, columns, some source, upsert, returning⟩, hx => by
    simp only [Insert.exprs, List.forall_mem_append] at hx
    have hsource := InsertSource.isClause_render hd hx.1.1
    have hinsert : IsKeyword (if Upsert.isIgnore d upsert then "INSERT IGNORE INTO "
        else "INSERT INTO ") := by
      split <;> decide
    refine Yields.bind (P := fun _ => True) (fun _ _ => trivial) fun _ _ =>
      hsource.bind fun source hsource =>
      (Upsert.isClause_renderOption hx.1.2).bind fun upsert hupsert =>
      (SelectItem.isClause_renderReturning hx.2).bind fun returning hreturning => yields_pure ?_
    have hname := (isClause_columnList columns).ident_cons name
    exact (((hname.clause hinsert).append hsource).append hupsert).append hreturning |>.separated
termination_by structural i => i

/-- What is inserted is written in a way that may follow anything. -/
theorem InsertSource.isClause_render (hd : d.SpellsPlainly) : ∀ {s : InsertSource},
    (∀ x ∈ s.exprs, Yields Separated (x.render d f)) → Yields IsClause (s.render d f)
  | .values _, hx =>
    (Expr.separated_renderRows hx).bind fun _ hrows => yields_pure (hrows.clause (by decide))
  | .select _, hx =>
    (Statement.separated_render hd hx).bind fun _ hbody => yields_pure (hbody.clause (by decide))
termination_by structural s => s

end

end Rendering

/-- Resolving an expression changes no name that is written without quotes. -/
theorem Node.hasWords_qualify {scope : Scope} (table : String) (e : Expr) :
    (Node.expr scope e).HasWords ↔ (Node.expr scope (e.qualify table)).HasWords := by
  have hname : (Node.expr scope (e.qualify table)).unquotedName? =
      (Node.expr scope e).unquotedName? := by
    cases e with
    | cast operand type => cases type <;> rfl
    | _ => rfl
  unfold Node.HasWords
  rw [hname]

section Queries

variable {d : Dialect}

/-- The statement of a query has separated tokens, if the queries nested in it have. -/
theorem Query.separated_render_lower (hd : d.SpellsPlainly) {f : Query → Rendered} {q : Query}
    {s : Statement} (hn : ∀ n ∈ q.nodes, n.HasWords)
    (hf : ∀ q', (∀ n ∈ q'.nodes, n.HasWords) → Yields Separated (f q'))
    (hs : q.lower d = .ok s) : Yields Separated (s.render d f) := by
  refine Statement.separated_render hd fun x hx => ?_
  rcases Query.forall_exprs_lower (fun _ => Node.hasWords_qualify) hn hs x hx with
    rfl | ⟨scope, hnodes, hqueries⟩
  · exact Value.separated_render hd _
  · exact Expr.separated_render hd scope hnodes fun q' hq' => hf q' (hqueries q' hq')

/-- A query is written in separated pieces, whatever the bound on its nesting. -/
theorem Query.separated_renderRows (hd : d.SpellsPlainly) (limit : Nat) : ∀ q : Query,
    (∀ n ∈ q.nodes, n.HasWords) → Yields Separated (q.renderRows d limit) := by
  induction limit with
  | zero => exact fun _ _ => yields_error _
  | succ limit ih =>
    intro q hn
    -- that a statement was made from `q` is all that is kept of the first step
    refine Yields.bind (fun s hs => hs) fun s hs => ?_
    exact Query.separated_render_lower hd hn ih (Query.lowerRows_eq_ok.mp hs).1

/-- The tokens of a query are separated. -/
theorem Query.separated_render (hd : d.SpellsPlainly) {q : Query}
    (hn : ∀ n ∈ q.nodes, n.HasWords) : Yields Separated (q.render d) := by
  refine Yields.bind (fun s hs => hs) fun s hs => ?_
  exact Query.separated_render_lower hd hn (Query.separated_renderRows hd q.depth) hs

end Queries

/-- Where a restyled built-in profile compiles a query whose unquoted names are words, the text of
the plan is read back as the pieces that were written. Its string literals are the constant texts
and its quoted identifiers the parts of the identifiers, in their order, and no comment starts
between them. -/
theorem lex_sql {p : Profile} (hp : p.IsRestyled) {q : Query}
    (hwords : ∀ n ∈ q.nodes, n.HasWords) {plan : Plan}
    (hplan : q.compile p.dialect = .ok plan) :
    ∃ tokens lexemes, q.render p.dialect = .ok tokens ∧
      p.lex plan.sql.toList = some lexemes ∧
      lexemes = Piece.lexemes p.placeholder.write 1 (pieces false tokens) ∧
      lexemes.filterMap Lexeme.string? =
        ((pieces false tokens).filterMap Piece.literal?).map String.toList ∧
      lexemes.filterMap Lexeme.ident? =
        ((pieces false tokens).filterMap Piece.ident?).flatMap (Text.split '.' ·.toList) ∧
      ¬ [.plain '-', .plain '-'] <:+: lexemes ∧ ¬ [.plain '/', .plain '*'] <:+: lexemes := by
  obtain ⟨tokens, htokens, hplan⟩ := bind_eq_ok.mp hplan
  rw [← pure_eq_ok.mp hplan]
  have hseparated := Query.separated_render hp.spellsPlainly hwords tokens htokens false
  have hquiet := Piece.quiet_lexemes p 1 hseparated.plain
  refine ⟨tokens, _, htokens, ?_, rfl, Piece.filterMap_string?_lexemes _ _ _,
    Piece.filterMap_ident?_lexemes _ _ _, hquiet.not_infix_dashes, hquiet.not_infix_slash⟩
  rw [Piece.sql_ofTokens]
  exact Piece.lex_chars p 1 hseparated

/-- A profile with identifiers between brackets and backslashes that escape. -/
def Profile.bracketed : Profile :=
  { Profile.mysql with name := "bracketed", quote := .bracket, placeholder := .dollar }

/-- A query with a table and a text that seem to end before their closing marks. -/
def Query.hostile : Query :=
  .step (.table "a]; -- ") (.filter (.binary .eq (.call "LOWER" [.placeholder "b.c"] false)
    (.literal (.text "x' OR \\' /*"))))

/-- The text and the table are found whole, and the dashes and the slash stay inside them. -/
theorem lex_sql_hostile : ∃ lexemes,
    Profile.bracketed.lex
      "SELECT * FROM [a]]; -- ] WHERE (LOWER([a]]; -- ].[b].[c]) = 'x'' OR \\\\'' /*')".toList =
        some lexemes ∧
    lexemes.filterMap Lexeme.string? = ["x' OR \\' /*".toList] ∧
    lexemes.filterMap Lexeme.ident? = ["a]; -- ", "a]; -- ", "b", "c"].map String.toList ∧
    ¬ [.plain '-', .plain '-'] <:+: lexemes ∧ ¬ [.plain '/', .plain '*'] <:+: lexemes := by
  have hplan : Query.hostile.compile Profile.bracketed.dialect = .ok
      ⟨"SELECT * FROM [a]]; -- ] WHERE (LOWER([a]]; -- ].[b].[c]) = 'x'' OR \\\\'' /*')", []⟩ := rfl
  obtain ⟨tokens, lexemes, htokens, hlex, -, hstrings, hidents, hcomments⟩ :=
    lex_sql (p := Profile.bracketed) (by decide) (q := Query.hostile) (by decide) hplan
  have hrender : Query.hostile.render Profile.bracketed.dialect = .ok _ := rfl
  obtain rfl := Except.ok.inj (hrender.symm.trans htokens)
  exact ⟨lexemes, hlex, hstrings.trans rfl, hidents.trans rfl, hcomments⟩

end SqlAlgebra
