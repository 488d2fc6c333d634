import SqlAlgebra.Proofs.Cutting
import SqlAlgebra.Proofs.Nodes
import SqlAlgebra.Proofs.Parts
import SqlAlgebra.Proofs.Writing

/-!
# What writing ends with

Writing ends with tokens whose brackets are matched, and where it ends with an error instead, a
placeholder is reported only if there is one. A SELECT and the expressions in it have no set
operator outside of brackets. All this is one induction over what is written, because each of the
facts about a text needs only the facts about its parts.
-/

namespace SqlAlgebra

/-- The words between the operands of a set operation. -/
def SetOperator.words (op : SetOperator) (all : Bool) : String :=
  " " ++ op.keyword ++ (if all then " ALL " else " ")

/-- The set operation that has the given words, and whether it keeps duplicates. -/
def SetOperator.ofWords? (s : String) : Option (SetOperator × Bool) :=
  (SetOperator.all.flatMap fun op => [(op, false), (op, true)]).find? fun (op, all) =>
    s == op.words all

/-- A set operator is known by its words. -/
theorem SetOperator.ofWords?_words (op : SetOperator) (all : Bool) :
    SetOperator.ofWords? (op.words all) = some (op, all) := by
  cases op <;> cases all <;> decide

namespace Token

/-- A SELECT starts here. -/
def opensSelect : List Token → Bool
  | .piece (.text s) :: _ => "SELECT ".toList.isPrefixOf s.toList
  | _ => false

/-- The set operator that stands here. A function can have the words of one for its name, but has a
bracket behind it, and an operator a SELECT. -/
def setOperator? : List Token → Option (SetOperator × Bool)
  | .piece (.text s) :: ts => if opensSelect ts then SetOperator.ofWords? s else none
  | _ => none

/-- No set operator stands where no SELECT follows. -/
theorem setOperator?_of_opensSelect {ts : List Token} (h : opensSelect ts = false) (t : Token) :
    setOperator? (t :: ts) = none := by
  unfold setOperator?
  split
  next heq =>
    rw [(List.cons.inj heq).2] at h
    rw [h]
    rfl
  · rfl

/-- No set operator stands where the words are not those of one. -/
theorem setOperator?_of_ofWords? {s : String} (hs : SetOperator.ofWords? s = none)
    (ts : List Token) : setOperator? (text s :: ts) = none := by
  simp [setOperator?, text, hs]

/-- A text without set operators outside of brackets, also if it is not the end. -/
structure Unbroken (ts : List Token) : Prop where
  balanced : Balanced ts
  cut_append (rest : List Token) (hrest : opensSelect rest = false) :
    cut setOperator? 0 (ts ++ rest) = (cut setOperator? 0 rest).prepend ts

/-- An unbroken text that can stand behind others, because no SELECT starts with it. -/
structure Trails (ts : List Token) : Prop extends Unbroken ts where
  not_opensSelect (rest : List Token) (hrest : opensSelect rest = false) :
    opensSelect (ts ++ rest) = false

/-- The words do not begin a SELECT and are not those of a set operator. -/
def IsInner (s : String) : Prop :=
  SetOperator.ofWords? s = none ∧ "SELECT ".toList.isPrefixOf s.toList = false

instance : DecidablePred IsInner := fun _ => inferInstanceAs (Decidable (_ ∧ _))

/-- One token that is no bracket is unbroken. -/
theorem unbroken_atom {t : Token} (ht : t.isBracket = false) : Unbroken [t] where
  balanced := .atom ht
  cut_append _ hrest := cut_atom ht (setOperator?_of_opensSelect hrest t)

/-- An unbroken text stays so with another behind it that starts no SELECT. -/
theorem Unbroken.append {ts us : List Token} (hts : Unbroken ts) (hus : Trails us) :
    Unbroken (ts ++ us) where
  balanced := hts.balanced.append hus.balanced
  cut_append rest hrest := by
    have hnext := hus.not_opensSelect rest hrest
    rw [List.append_assoc, hts.cut_append _ hnext, hus.cut_append rest hrest, Cut.prepend_prepend]

/-- Words that are no set operator may stand before an unbroken text. -/
theorem Unbroken.text_cons {s : String} {ts : List Token} (hs : SetOperator.ofWords? s = none)
    (hts : Unbroken ts) : Unbroken (text s :: ts) where
  balanced := hts.balanced.cons rfl
  cut_append rest hrest := by
    have hatom := cut_atom (t := text s) rfl (setOperator?_of_ofWords? hs (ts ++ rest))
    rw [List.cons_append, hatom, hts.cut_append rest hrest, Cut.prepend_prepend]
    rfl

/-- A name before an unbroken text starts no SELECT. -/
theorem Unbroken.ident_cons (name : String) {ts : List Token} (hts : Unbroken ts) :
    Trails (ident name :: ts) where
  balanced := hts.balanced.cons rfl
  cut_append rest hrest := by
    rw [List.cons_append, cut_atom rfl rfl, hts.cut_append rest hrest, Cut.prepend_prepend]
    rfl
  not_opensSelect _ _ := rfl

/-- No tokens may stand behind any text. -/
theorem trails_nil : Trails [] where
  balanced := .nil
  cut_append _ _ := rfl
  not_opensSelect _ hrest := hrest

/-- One name is unbroken. -/
theorem unbroken_ident (name : String) : Unbroken [ident name] := unbroken_atom rfl

/-- What is in brackets may stand behind any text. -/
theorem trails_parens {ts : List Token} (hts : Balanced ts) : Trails (parens ts) where
  balanced := hts.parens
  cut_append rest _ := cut_parens hts 0 rest
  not_opensSelect _ _ := rfl

/-- An unbroken text with a keyword before it may stand behind any text. -/
theorem Unbroken.clause {s : String} {ts : List Token} (hts : Unbroken ts) (hs : IsInner s) :
    Trails (text s :: ts) where
  toUnbroken := hts.text_cons hs.1
  not_opensSelect _ _ := hs.2

/-- Two texts that may stand behind others may do so together. -/
theorem Trails.append {ts us : List Token} (hts : Trails ts) (hus : Trails us) :
    Trails (ts ++ us) where
  toUnbroken := hts.toUnbroken.append hus
  not_opensSelect rest hrest := by
    rw [List.append_assoc]
    exact hts.not_opensSelect _ (hus.not_opensSelect rest hrest)

/-- A name with something between brackets behind it, whatever the name is. -/
theorem unbroken_call (name : String) {ts : List Token} (hts : Balanced ts) :
    Unbroken (text name :: parens ts) := by
  have hname : Unbroken [text name] := unbroken_atom rfl
  exact hname.append (trails_parens hts)

/-- A column is unbroken, with or without a qualifier. -/
theorem unbroken_column (owner : Option String) (name : String) :
    Unbroken (column owner name) := by
  cases owner with
  | none => exact unbroken_ident name
  | some table =>
    by_cases htable : table = Expr.proposedTable
    · rw [column, if_pos htable]
      exact unbroken_atom rfl
    · rw [column, if_neg htable]
      have hdot := (unbroken_ident name).clause (s := ".") (by decide)
      exact (hdot.toUnbroken.ident_cons table).toUnbroken

/-- Unbroken parts with a keyword between them are unbroken. -/
theorem unbroken_intercalate {s : String} (hs : IsInner s) : ∀ {parts : List (List Token)},
    (∀ part ∈ parts, Unbroken part) → Unbroken ([text s].intercalate parts)
  | [], _ => trails_nil.toUnbroken
  | [part], h => by
    rw [List.intercalate_singleton]
    exact h part (List.mem_singleton_self part)
  | part :: part' :: parts, h => by
    rw [List.forall_mem_cons] at h
    rw [List.intercalate_cons_cons, List.append_assoc]
    exact h.1.append ((unbroken_intercalate hs h.2).clause hs)

/-- Unbroken parts with commas between them are unbroken. -/
theorem unbroken_commas {parts : List (List Token)} (h : ∀ part ∈ parts, Unbroken part) :
    Unbroken (commas parts) :=
  unbroken_intercalate (by decide) h

/-- A list of columns in brackets is balanced. -/
theorem balanced_columnList (names : List String) : Balanced (columnList names) := by
  unfold columnList
  split
  · exact .nil
  · refine Balanced.cons rfl (Balanced.parens (Balanced.commas ?_))
    simp only [List.forall_mem_map]
    intro name _
    exact .atom rfl

/-- A derived table may stand behind any text. -/
theorem trails_derived {body : List Token} (hbody : Balanced body) (name : String) :
    Trails (derived body name) :=
  (trails_parens hbody).append ((unbroken_ident name).clause (by decide))

/-- An operand is balanced, bracketed or not. -/
theorem balanced_operand (isFlat : Bool) {ts : List Token} (hts : Balanced ts) :
    Balanced (operand isFlat ts) := by
  unfold operand
  split
  · exact hts
  · exact (trails_derived hts "t").balanced.cons rfl

end Token

namespace CompileError

/-- The error is that a placeholder was left over. -/
def isLeftOver : CompileError → Bool
  | resolution _ _ .leftOver => true
  | _ => false

/-- The errors `E` are all that there are, but for placeholders that were left over. -/
def CoversOthers (E : CompileError → Prop) : Prop := ∀ err, err.isLeftOver = false → E err

end CompileError

/-- Where the expression is a placeholder, the error for it is among `E`. -/
def Expr.LeavesIn (E : CompileError → Prop) : Expr → Prop
  | .placeholder name => E (.resolution (.placeholder name) name .leftOver)
  | _ => True

open Token

section Rendering

variable {d : Dialect} {f : Query → Rendered} {E : CompileError → Prop}

/-- Writing a value ends with an unbroken text or with an error that is not about placeholders. -/
theorem Value.ends_render (hE : CompileError.CoversOthers E) (value : Value) :
    Ends Unbroken E (value.render d) := by
  cases value with
  | null | bool | int | text => exact ends_ok (unbroken_atom rfl)
  | float x =>
    by_cases hx : x.isFinite
    · simp only [Value.render, if_pos hx]
      exact ends_ok (unbroken_atom rfl)
    · simp only [Value.render, if_neg hx]
      exact ends_error (hE _ rfl)

/-- An operator is written with its operands in an unbroken text. -/
theorem OperatorSyntax.unbroken_render (entry : OperatorSyntax) {left right : List Token}
    (hleft : Balanced left) (hright : Balanced right) : Unbroken (entry.render left right) := by
  cases entry with
  | between symbol =>
    exact (trails_parens (hleft.join _ hright)).toUnbroken
  | call name => exact unbroken_call name (hleft.join _ hright)
  | upperBetween symbol =>
    have hupper : Balanced (.text "UPPER" :: parens left) := hleft.parens.cons rfl
    exact (trails_parens (hupper.join _ hright.parens)).toUnbroken

/-- A unary operator is written with its operand in a text that may stand behind any other. -/
theorem UnaryOperator.trails_render (op : UnaryOperator) {operand : List Token}
    (h : Balanced operand) : Trails (op.render operand) := by
  cases op with
  | not | minus => exact trails_parens (h.cons rfl)
  | isNull | isNotNull => exact trails_parens (h.append (.atom rfl))

/-- An order key is written in an unbroken text, wherever it places nulls. -/
theorem NullsOrdering.unbroken_renderKey (ordering : NullsOrdering) {body : List Token}
    (h : Unbroken body) (direction : SortDirection) (nulls : Option NullsOrder) :
    Unbroken (ordering.renderKey body direction nulls) := by
  have hword {s : String} (hs : IsInner s) : Trails [text s] := trails_nil.toUnbroken.clause hs
  have hdesc := h.append (hword (s := " DESC") (by decide))
  have htest := (UnaryOperator.isNull.trails_render h.balanced).toUnbroken
  have hjoin {s : String} (hs : IsInner s) {key : List Token} (hkey : Unbroken key) :
      Unbroken (UnaryOperator.isNull.render body ++ [.text s] ++ key) := by
    rw [List.append_assoc]
    exact htest.append (hkey.clause hs)
  cases nulls with
  | none =>
    cases direction with
    | asc => exact h
    | desc => exact hdesc
  | some order =>
    cases ordering with
    | native =>
      have horder : Trails [.text (" " ++ order.keyword)] :=
        hword (by cases order <;> decide)
      cases direction with
      | asc => exact h.append horder
      | desc => exact hdesc.append horder
    | emulatedWithIsNull =>
      cases direction with
      | asc => cases order <;> exact hjoin (by decide) h
      | desc => cases order <;> exact hjoin (by decide) hdesc

/-- A window is written in balanced brackets. -/
theorem Token.balanced_over {partition order : List (List Token)}
    (hpartition : ∀ part ∈ partition, Balanced part) (horder : ∀ part ∈ order, Balanced part)
    (frame : Option Frame) : Balanced (Token.over partition order frame) := by
  refine Balanced.intercalate (.atom rfl) ?_
  simp only [List.forall_mem_append]
  refine ⟨⟨?_, ?_⟩, ?_⟩
  · split
    · simp
    · simpa using (Balanced.commas hpartition).cons rfl
  · split
    · simp
    · simpa using (Balanced.commas horder).cons rfl
  · cases frame with
    | none => simp
    | some frame => exact List.forall_mem_singleton.mpr (.atom rfl)

mutual

/-- Writing an expression ends with unbroken tokens, or with an error that is not about a
placeholder unless a part of the expression is one. -/
theorem Expr.ends_render (hE : CompileError.CoversOthers E) :
    ∀ {e : Expr}, (∀ x ∈ e.parts, x.LeavesIn E) → (∀ q ∈ e.queries, Ends Balanced E (f q)) →
      Ends Unbroken E (e.render d f)
  | .column owner name, _, _ => ends_ok (unbroken_column owner name)
  | .placeholder name, hp, _ => ends_error (hp (.placeholder name) (Expr.mem_parts_self _))
  | .literal value, _, _ => value.ends_render hE
  | .parameter .., _, _ | .wildcard, _, _ => ends_ok (unbroken_atom rfl)
  | .inList _ [] _, _, _ | .choice [] _, _, _ => ends_error (hE _ rfl)
  | .binary op left right, hp, hq => by
    simp only [Expr.parts, Expr.queries, List.forall_mem_cons, List.forall_mem_append] at hp hq
    have hleft := Expr.ends_render hE hp.2.1 hq.1
    have hright := Expr.ends_render hE hp.2.2 hq.2
    rw [Expr.render]
    split
    · exact ends_error (hE _ rfl)
    next entry _ =>
      exact hleft.bind fun left hleft => hright.bind fun right hright =>
        ends_pure (entry.unbroken_render hleft.balanced hright.balanced)
  | .unary op operand, hp, hq => by
    simp only [Expr.parts, List.forall_mem_cons] at hp
    exact (Expr.ends_render hE hp.2 hq).bind fun operand hoperand =>
      ends_pure (op.trails_render hoperand.balanced).toUnbroken
  | .call name args distinct, hp, hq => by
    simp only [Expr.parts, List.forall_mem_cons] at hp
    refine (Expr.ends_renderAll hE hp.2 hq).bind fun args hargs => ends_pure ?_
    have hcommas := Balanced.commas fun part hpart => (hargs part hpart).balanced
    refine unbroken_call name ?_
    split
    · exact hcommas.cons rfl
    · exact hcommas
  | .between subject low high negated, hp, hq => by
    simp only [Expr.parts, Expr.queries, List.forall_mem_cons, List.forall_mem_append] at hp hq
    have hsubject := Expr.ends_render hE hp.2.1.1 hq.1.1
    have hlow := Expr.ends_render hE hp.2.1.2 hq.1.2
    have hhigh := Expr.ends_render hE hp.2.2 hq.2
    refine hsubject.bind fun subject hsubject => hlow.bind fun low hlow =>
      hhigh.bind fun high hhigh => ends_pure ?_
    have hlower := hsubject.balanced.join (" " ++ negation negated ++ "BETWEEN ") hlow.balanced
    exact (trails_parens (hlower.join " AND " hhigh.balanced)).toUnbroken
  | .inList subject (value :: values) negated, hp, hq => by
    simp only [Expr.parts, List.forall_mem_cons, List.forall_mem_append] at hp
    simp only [Expr.queries, List.forall_mem_append] at hq
    have hsubject := Expr.ends_render hE hp.2.1 hq.1
    have hvalues := Expr.ends_renderAll hE hp.2.2 hq.2
    by_cases hquery : ∃ q, value :: values = [.subquery q]
    · obtain ⟨q, hlist⟩ := hquery
      rw [hlist] at hq ⊢
      have hrows := hq.2 q (by simp [Expr.queriesAll, Expr.queries])
      exact hsubject.bind fun subject hsubject => hrows.bind fun rows hrows =>
        ends_pure (trails_parens (hsubject.balanced.join _ hrows.parens)).toUnbroken
    · rw [Expr.render_inList (List.cons_ne_nil _ _) (not_exists.mp hquery)]
      refine hsubject.bind fun subject hsubject => hvalues.bind fun values hvalues => ends_pure ?_
      have hcommas := Balanced.commas fun part hpart => (hvalues part hpart).balanced
      exact (trails_parens (hsubject.balanced.join _ hcommas.parens)).toUnbroken
  | .cast operand type, hp, hq => by
    simp only [Expr.parts, List.forall_mem_cons] at hp
    have hoperand := Expr.ends_render hE hp.2 hq
    rw [Expr.render]
    split
    · exact ends_error (hE _ rfl)
    · exact hoperand.bind fun operand hoperand =>
        ends_pure (unbroken_call "CAST" (hoperand.balanced.append (.atom rfl)))
  | .subquery query, _, hq =>
    (hq query (by simp [Expr.queries])).bind fun rows hrows =>
      ends_pure (trails_parens hrows).toUnbroken
  | .existence query negated, _, hq =>
    (hq query (by simp [Expr.queries])).bind fun rows hrows => ends_pure (unbroken_call _ hrows)
  | .choice (branch :: branches) otherwise, hp, hq => by
    simp only [Expr.parts, List.forall_mem_cons, List.forall_mem_append] at hp
    simp only [Expr.queries, List.forall_mem_append] at hq
    have hbranches := Branch.ends_renderAll hE hp.2.1 hq.1
    have hotherwise := Expr.ends_renderElse hE hp.2.2 hq.2
    refine hbranches.bind fun branches hbranches => hotherwise.bind fun otherwise hotherwise =>
      ends_pure ?_
    have hcase : Balanced (.text "CASE" :: branches) := hbranches.cons rfl
    exact (trails_parens ((hcase.append hotherwise).append (.atom rfl))).toUnbroken
  | .window name args partition order frame, hp, hq => by
    simp only [Expr.parts, Expr.queries, List.forall_mem_cons, List.forall_mem_append] at hp hq
    have hargs := Expr.ends_renderAll hE hp.2.1.1 hq.1.1
    have hpartition := Expr.ends_renderAll hE hp.2.1.2 hq.1.2
    have horder := OrderKey.ends_renderAll hE hp.2.2 hq.2
    rw [Expr.render]
    split
    · refine hargs.bind fun args hargs => hpartition.bind fun partition hpartition =>
        horder.bind fun order horder => ends_pure ?_
      have hcall := unbroken_call name
        (Balanced.commas fun part hpart => (hargs part hpart).balanced)
      have hover := trails_parens (balanced_over
        (fun part hpart => (hpartition part hpart).balanced)
        (fun part hpart => (horder part hpart).balanced) frame)
      exact hcall.append (hover.toUnbroken.clause (by decide))
    · exact ends_error (hE _ rfl)
termination_by structural e => e

/-- Writing a list ends with unbroken texts, or with an error that is not about a placeholder unless
a part is one. -/
theorem Expr.ends_renderAll (hE : CompileError.CoversOthers E) :
    ∀ {es : List Expr}, (∀ x ∈ Expr.partsAll es, x.LeavesIn E) →
    (∀ q ∈ Expr.queriesAll es, Ends Balanced E (f q)) →
      Ends (fun parts => ∀ part ∈ parts, Unbroken part) E (Expr.renderAll d f es)
  | [], _, _ => ends_ok (by simp)
  | e :: es, hp, hq => by
    simp only [Expr.partsAll, Expr.queriesAll, List.forall_mem_append] at hp hq
    have he := Expr.ends_render hE hp.1 hq.1
    have hes := Expr.ends_renderAll hE hp.2 hq.2
    exact he.bind fun part hpart => hes.bind fun parts hparts =>
      ends_pure (List.forall_mem_cons.mpr ⟨hpart, hparts⟩)
termination_by structural es => es

/-- Writing an ELSE ends with a balanced text, or with an error that is not about a placeholder
unless a part is one. -/
theorem Expr.ends_renderElse (hE : CompileError.CoversOthers E) :
    ∀ {e : Option Expr}, (∀ x ∈ Expr.partsOption e, x.LeavesIn E) →
    (∀ q ∈ Expr.queriesOption e, Ends Balanced E (f q)) →
      Ends Balanced E (Expr.renderElse d f e)
  | none, _, _ => ends_ok .nil
  | some _, hp, hq =>
    (Expr.ends_render hE hp hq).bind fun _ hpart => ends_pure (hpart.balanced.cons rfl)
termination_by structural e => e

/-- Writing branches ends with a balanced text, or with an error that is not about a placeholder
unless a part is one. -/
theorem Branch.ends_renderAll (hE : CompileError.CoversOthers E) :
    ∀ {branches : List Branch}, (∀ x ∈ Branch.partsAll branches, x.LeavesIn E) →
    (∀ q ∈ Branch.queriesAll branches, Ends Balanced E (f q)) →
      Ends Balanced E (Branch.renderAll d f branches)
  | [], _, _ => ends_ok .nil
  | ⟨condition, result⟩ :: branches, hp, hq => by
    simp only [Branch.partsAll, Branch.queriesAll, List.forall_mem_append] at hp hq
    have hcondition := Expr.ends_render hE hp.1.1 hq.1.1
    have hresult := Expr.ends_render hE hp.1.2 hq.1.2
    have hbranches := Branch.ends_renderAll hE hp.2 hq.2
    refine hcondition.bind fun condition hcondition => hresult.bind fun result hresult =>
      hbranches.bind fun rest hrest => ends_pure ?_
    have hwhen : Balanced (.text " WHEN " :: condition) := hcondition.balanced.cons rfl
    have hthen : Balanced (.text " THEN " :: result) := hresult.balanced.cons rfl
    exact (hwhen.append hthen).append hrest
termination_by structural branches => branches

/-- Writing order keys ends with unbroken texts, or with an error that is not about a placeholder
unless a part is one. -/
theorem OrderKey.ends_renderAll (hE : CompileError.CoversOthers E) :
    ∀ {keys : List OrderKey}, (∀ x ∈ OrderKey.partsAll keys, x.LeavesIn E) →
    (∀ q ∈ OrderKey.queriesAll keys, Ends Balanced E (f q)) →
      Ends (fun parts => ∀ part ∈ parts, Unbroken part) E (OrderKey.renderAll d f keys)
  | [], _, _ => ends_ok (by simp)
  | ⟨e, direction, nulls⟩ :: keys, hp, hq => by
    simp only [OrderKey.partsAll, OrderKey.queriesAll, List.forall_mem_append] at hp hq
    have he := Expr.ends_render hE hp.1 hq.1
    have hkeys := OrderKey.ends_renderAll hE hp.2 hq.2
    exact he.bind fun body hbody => hkeys.bind fun parts hparts =>
      ends_pure (List.forall_mem_cons.mpr
        ⟨d.nulls.unbroken_renderKey hbody direction nulls, hparts⟩)
termination_by structural keys => keys

end

/-- Writing a list ends as writing its expressions does. -/
theorem Expr.ends_renderAll_of_mem {es : List Expr}
    (hx : ∀ x ∈ es, Ends Unbroken E (x.render d f)) :
    Ends (fun parts => ∀ part ∈ parts, Unbroken part) E (Expr.renderAll d f es) := by
  rw [Expr.renderAll_eq_mapM]
  exact ends_mapM hx

/-- Writing a clause of conditions ends as writing the conditions does, with a text that may stand
behind others. -/
theorem Expr.ends_renderAnd {keyword : String} (hkeyword : IsInner keyword) {es : List Expr}
    (hx : ∀ x ∈ es, Ends Unbroken E (x.render d f)) :
    Ends Trails E (Expr.renderAnd d f keyword es) := by
  refine (Expr.ends_renderAll_of_mem hx).bind fun parts hparts => ?_
  split
  · exact ends_pure trails_nil
  · exact ends_pure ((unbroken_intercalate (by decide) hparts).clause hkeyword)

/-- Writing a clause that lists expressions ends as writing these does, with a text that may stand
behind others. -/
theorem Expr.ends_renderClause {keyword : String} (hkeyword : IsInner keyword) {es : List Expr}
    (hx : ∀ x ∈ es, Ends Unbroken E (x.render d f)) :
    Ends Trails E (Expr.renderClause d f keyword es) := by
  refine (Expr.ends_renderAll_of_mem hx).bind fun parts hparts => ?_
  split
  · exact ends_pure trails_nil
  · exact ends_pure ((unbroken_commas hparts).clause hkeyword)

/-- Writing an ORDER BY ends as writing its expressions does, with a text that may stand behind
others. -/
theorem OrderKey.ends_renderClause {keys : List OrderKey}
    (hx : ∀ x ∈ keys.map (·.expr), Ends Unbroken E (x.render d f)) :
    Ends Trails E (OrderKey.renderClause d f keys) := by
  have hkeys : Ends (fun parts => ∀ part ∈ parts, Unbroken part) E
      (OrderKey.renderAll d f keys) := by
    rw [OrderKey.renderAll_eq_mapM]
    refine ends_mapM fun key hkey => ?_
    exact (hx key.expr (List.mem_map_of_mem hkey)).bind fun body hbody =>
      ends_pure (d.nulls.unbroken_renderKey hbody key.direction key.nulls)
  refine hkeys.bind fun parts hparts => ?_
  split
  · exact ends_pure trails_nil
  · exact ends_pure ((unbroken_commas hparts).clause (by decide))

/-- No SELECT starts with a blank. -/
theorem Token.opensSelect_blank (s : String) (rest : List Token) :
    opensSelect (text (" " ++ s) :: rest) = false := by
  simp [opensSelect, text, List.isPrefixOf]

/-- A clause of the dialect's own starts with a blank, and so no SELECT. -/
theorem Token.trails_blank (clause : String) : Trails [text (" " ++ clause)] where
  toUnbroken := unbroken_atom rfl
  not_opensSelect rest _ := opensSelect_blank clause rest

/-- Writing the bounds of a page ends as writing their expressions does, with a text that may stand
behind others. -/
theorem Expr.ends_renderPage {limit offset : Option Expr}
    (hlimit : ∀ x ∈ limit.toList, Ends Unbroken E (x.render d f))
    (hoffset : ∀ x ∈ offset.toList, Ends Unbroken E (x.render d f)) :
    Ends Trails E (Expr.renderPage d f limit offset) := by
  cases offset with
  | none =>
    cases limit with
    | none => exact ends_ok trails_nil
    | some count =>
      exact (hlimit count (by simp)).bind fun part hpart =>
        ends_pure ((hpart.clause (by decide)).append trails_nil)
  | some skipped =>
    have hskipped := hoffset skipped (by simp)
    cases limit with
    | some count =>
      exact (hlimit count (by simp)).bind fun part hpart => hskipped.bind fun rest hrest =>
        ends_pure ((hpart.clause (by decide)).append (hrest.clause (by decide)))
    | none =>
      simp only [Expr.renderPage]
      split
      · exact hskipped.bind fun rest hrest => ends_pure (hrest.clause (by decide))
      next clause _ =>
        exact hskipped.bind fun rest hrest =>
          ends_pure ((trails_blank clause).append (hrest.clause (by decide)))

/-- Writing projected items ends as writing their expressions does, with an unbroken text. -/
theorem SelectItem.ends_renderAll {items : List SelectItem}
    (hx : ∀ x ∈ items.map (·.expr), Ends Unbroken E (x.render d f)) :
    Ends Unbroken E (SelectItem.renderAll d f items) := by
  refine Ends.bind (P := fun parts => ∀ part ∈ parts, Unbroken part)
    (ends_mapM fun item hitem => ?_) fun parts hparts => ends_pure (unbroken_commas hparts)
  refine (hx item.expr (List.mem_map_of_mem hitem)).bind fun part hpart => ?_
  split
  · exact ends_pure hpart
  next name _ => exact ends_pure (hpart.append ((unbroken_ident name).clause (by decide)))

/-- Writing what is returned ends as writing its expressions does, with a balanced text. -/
theorem SelectItem.ends_renderReturning {items : Option (List SelectItem)}
    (hx : ∀ x ∈ SelectItem.exprs items, Ends Unbroken E (x.render d f)) :
    Ends Balanced E (SelectItem.renderReturning d f items) := by
  cases items with
  | none => exact ends_ok .nil
  | some items =>
    exact (SelectItem.ends_renderAll hx).bind fun part hpart =>
      ends_pure (hpart.balanced.cons rfl)

/-- Writing assignments ends as writing their values does, with a balanced text. -/
theorem Assignment.ends_renderAll {assignments : List Assignment}
    (hx : ∀ x ∈ assignments.map (·.value), Ends Unbroken E (x.render d f)) :
    Ends Balanced E (Assignment.renderAll d f assignments) := by
  refine Ends.bind (P := fun parts => ∀ part ∈ parts, Balanced part)
    (ends_mapM fun a ha => ?_) fun parts hparts => ends_pure (Balanced.commas hparts)
  exact (hx a.value (List.mem_map_of_mem ha)).bind fun part hpart =>
    ends_pure ((hpart.balanced.cons rfl).cons rfl)

/-- Writing rows ends as writing their values does, with a balanced text. -/
theorem Expr.ends_renderRows {rows : List (List Expr)}
    (hx : ∀ x ∈ rows.flatten, Ends Unbroken E (x.render d f)) :
    Ends Balanced E (Expr.renderRows d f rows) := by
  have hrows : ∀ row ∈ rows, Ends (fun parts => ∀ part ∈ parts, Unbroken part) E
      (Expr.renderAll d f row) := fun row hrow =>
    Expr.ends_renderAll_of_mem fun x hxrow => hx x (List.mem_flatten.mpr ⟨row, hrow, hxrow⟩)
  refine (ends_mapM hrows).bind fun rows hrows => ends_pure (Balanced.commas fun part hpart => ?_)
  obtain ⟨row, hrow, rfl⟩ := List.mem_map.mp hpart
  exact (unbroken_commas (hrows row hrow)).balanced.parens

/-- Writing a rule upon a conflict ends as writing its expressions does, with a balanced text. -/
theorem Upsert.ends_renderOption (hE : CompileError.CoversOthers E)
    {upsert : Option Upsert} (hx : ∀ x ∈ Upsert.exprs upsert, Ends Unbroken E (x.render d f)) :
    Ends Balanced E (Upsert.renderOption d f upsert) := by
  cases upsert with
  | none => exact ends_ok .nil
  | some upsert =>
    obtain ⟨target, action⟩ := upsert
    have hconflict : Balanced (.text " ON CONFLICT" :: columnList target) :=
      (balanced_columnList target).cons rfl
    simp only [Upsert.renderOption]
    cases d.upsert with
    | none => exact ends_error (hE _ rfl)
    | some spelling =>
      cases action with
      | doNothing =>
        cases spelling with
        | onConflict => exact ends_ok (hconflict.append (.atom rfl))
        | onDuplicateKey => exact ends_ok .nil
      | doUpdate assignments =>
        have hassignments := Assignment.ends_renderAll hx
        cases spelling with
        | onConflict =>
          simp only [Upsert.render]
          split
          · exact ends_error (hE _ rfl)
          · exact hassignments.bind fun part hpart =>
              ends_pure (hconflict.append (hpart.cons rfl))
        | onDuplicateKey =>
          exact hassignments.bind fun part hpart =>
            ends_pure (((hpart.append (.atom rfl)).cons rfl).cons rfl)

/-- Writing an UPDATE ends as writing its expressions does, with a balanced text. -/
theorem Update.ends_render (hE : CompileError.CoversOthers E)
    {u : Update} (hx : ∀ x ∈ u.exprs, Ends Unbroken E (x.render d f)) :
    Ends Balanced E (u.render d f) := by
  simp only [Update.exprs, List.forall_mem_append] at hx
  unfold Update.render
  split
  · exact ends_error (hE _ rfl)
  · refine (Assignment.ends_renderAll hx.1.1).bind fun assignments hassignments =>
      (Expr.ends_renderAnd (by decide) hx.1.2).bind fun filters hfilters =>
        (SelectItem.ends_renderReturning hx.2).bind fun returning hreturning => ends_pure ?_
    have hset : Balanced (.text "UPDATE " :: .ident u.table :: .text " SET " :: assignments) :=
      ((hassignments.cons rfl).cons rfl).cons rfl
    exact (hset.append hfilters.balanced).append hreturning

/-- Writing a DELETE ends as writing its expressions does, with a balanced text. -/
theorem Delete.ends_render {x : Delete} (hx : ∀ e ∈ x.exprs, Ends Unbroken E (e.render d f)) :
    Ends Balanced E (x.render d f) := by
  simp only [Delete.exprs, List.forall_mem_append] at hx
  refine (Expr.ends_renderAnd (by decide) hx.1).bind fun filters hfilters =>
    (SelectItem.ends_renderReturning hx.2).bind fun returning hreturning => ends_pure ?_
  have htable : Balanced (.text "DELETE FROM " :: .ident x.table :: filters) :=
    (hfilters.balanced.cons rfl).cons rfl
  exact htable.append hreturning

mutual

/-- Writing a statement ends with matched brackets or with an error of its expressions or of its
own. -/
theorem Statement.ends_render (hE : CompileError.CoversOthers E) :
    ∀ {s : Statement}, (∀ x ∈ s.exprs, Ends Unbroken E (x.render d f)) →
      Ends Balanced E (s.render d f)
  | .select _, hx => (Block.ends_render hE hx).imp fun _ hblock => hblock.balanced
  | .setOperation op all left right, hx => by
    simp only [Statement.exprs, List.forall_mem_append] at hx
    refine (Statement.ends_render hE hx.1).bind fun leftTokens hleft =>
      (Statement.ends_render hE hx.2).bind fun rightTokens hright => ends_pure ?_
    exact (balanced_operand _ hleft).append ((balanced_operand _ hright).cons rfl)
  | .withCtes recursive ctes body, hx => by
    simp only [Statement.exprs, List.forall_mem_append] at hx
    refine (Cte.ends_renderAll hE hx.1).bind fun ctes hctes =>
      (Statement.ends_render hE hx.2).bind fun body hbody => ends_pure ?_
    exact ((Balanced.commas hctes).cons rfl).append (hbody.cons rfl)
  | .insert _, hx => Insert.ends_render hE hx
  | .update _, hx => Update.ends_render hE hx
  | .delete _, hx => Delete.ends_render hx
termination_by structural s => s

/-- A SELECT is unbroken, because the statements that it reads from stand in brackets. -/
theorem Block.ends_render (hE : CompileError.CoversOthers E) :
    ∀ {b : Block}, (∀ x ∈ b.exprs, Ends Unbroken E (x.render d f)) →
      Ends Unbroken E (b.render d f)
  | ⟨origin, joins, filters, groupBy, having, projection, distinct, orderBy, limit, offset⟩,
    hx => by
    simp only [Block.exprs, List.forall_mem_append] at hx
    obtain ⟨⟨⟨⟨⟨⟨⟨⟨hitems, horigin⟩, hjoins⟩, hfilters⟩, hgroup⟩, hhaving⟩, horder⟩, hlimit⟩,
      hoffset⟩ := hx
    have horigin := Origin.ends_render hE horigin
    have hjoins := Join.ends_renderAll hE hjoins
    have hselect : SetOperator.ofWords? (if distinct then "SELECT DISTINCT " else "SELECT ") =
        none := by
      cases distinct <;> decide
    -- behind the items, the rest of the SELECT is the same with and without a projection
    have hrest (items : List Token) (hitems : Unbroken items) :
        Ends Unbroken E (do
          let origin ← origin.render d f
          let joins ← Join.renderAll d f joins
          let filters ← Expr.renderAnd d f " WHERE " filters
          let groupBy ← Expr.renderClause d f " GROUP BY " groupBy
          let having ← Expr.renderAnd d f " HAVING " having
          let orderBy ← OrderKey.renderClause d f orderBy
          let page ← Expr.renderPage d f limit offset
          return .text (if distinct then "SELECT DISTINCT " else "SELECT ") :: items ++
            .text " FROM " :: origin ++ joins ++ filters ++ groupBy ++ having ++ orderBy ++
            page) := by
      refine horigin.bind fun origin horigin => hjoins.bind fun joins hjoins =>
        (Expr.ends_renderAnd (by decide) hfilters).bind fun filters hfilters =>
        (Expr.ends_renderClause (by decide) hgroup).bind fun groupBy hgroup =>
        (Expr.ends_renderAnd (by decide) hhaving).bind fun having hhaving =>
        (OrderKey.ends_renderClause horder).bind fun orderBy horder =>
        (Expr.ends_renderPage hlimit hoffset).bind fun page hpage => ends_pure ?_
      have hfrom := (hitems.text_cons hselect).append (horigin.clause (s := " FROM ") (by decide))
      exact (((((hfrom.append hjoins).append hfilters).append hgroup).append hhaving).append
        horder).append hpage
    cases projection with
    | none => exact hrest _ (unbroken_atom rfl)
    | some items => exact (SelectItem.ends_renderAll hitems).bind hrest
termination_by structural b => b

/-- Writing what a SELECT reads from ends as writing its expressions does, with an unbroken text. -/
theorem Origin.ends_render (hE : CompileError.CoversOthers E) :
    ∀ {o : Origin}, (∀ x ∈ o.exprs, Ends Unbroken E (x.render d f)) →
      Ends Unbroken E (o.render d f)
  | .table name, _ => ends_ok (unbroken_ident name)
  | .derived _ name, hx =>
    (Statement.ends_render hE hx).bind fun _ hbody =>
      ends_pure (trails_derived hbody name).toUnbroken
termination_by structural o => o

/-- Writing joins ends as writing their expressions does, with a text that may stand behind
others. -/
theorem Join.ends_renderAll (hE : CompileError.CoversOthers E) :
    ∀ {joins : List Join}, (∀ x ∈ Join.exprs joins, Ends Unbroken E (x.render d f)) →
      Ends Trails E (Join.renderAll d f joins)
  | [], _ => ends_ok trails_nil
  | ⟨kind, target, condition⟩ :: joins, hx => by
    simp only [Join.exprs, List.forall_mem_append] at hx
    have hkind : IsInner (" " ++ kind.keyword ++ " ") := by cases kind <;> decide
    have hjoins := Join.ends_renderAll hE hx.2
    refine (JoinTarget.ends_render hE hx.1.1).bind fun target htarget => ?_
    cases condition with
    | none =>
      exact hjoins.bind fun rest hrest =>
        ends_pure (((htarget.clause hkind).append trails_nil).append hrest)
    | some e =>
      exact (hx.1.2 e (by simp)).bind fun part hpart => hjoins.bind fun rest hrest =>
        ends_pure (((htarget.clause hkind).append (hpart.clause (by decide))).append hrest)
termination_by structural joins => joins

/-- Writing what is joined ends as writing its expressions does, with an unbroken text. -/
theorem JoinTarget.ends_render (hE : CompileError.CoversOthers E) :
    ∀ {target : JoinTarget Statement},
      (∀ x ∈ JoinTarget.exprs target, Ends Unbroken E (x.render d f)) →
      Ends Unbroken E (JoinTarget.render d f target)
  | .table name, _ => ends_ok (unbroken_ident name)
  | .lateral _ name, hx =>
    (Statement.ends_render hE hx).bind fun _ hbody =>
      ends_pure ((trails_derived hbody name).toUnbroken.text_cons (by decide))
termination_by structural target => target

/-- Writing the entries of a WITH ends as writing their expressions does, with balanced texts. -/
theorem Cte.ends_renderAll (hE : CompileError.CoversOthers E) :
    ∀ {ctes : List (Cte Statement)}, (∀ x ∈ Cte.exprs ctes, Ends Unbroken E (x.render d f)) →
      Ends (fun parts => ∀ part ∈ parts, Balanced part) E (Cte.renderAll d f ctes)
  | [], _ => ends_ok (by simp)
  | ⟨name, columns, body⟩ :: ctes, hx => by
    simp only [Cte.exprs, List.forall_mem_append] at hx
    have hctes := Cte.ends_renderAll hE hx.2
    refine (Statement.ends_render hE hx.1).bind fun body hbody =>
      hctes.bind fun parts hparts => ends_pure (List.forall_mem_cons.mpr ⟨?_, hparts⟩)
    exact ((balanced_columnList columns).cons rfl).append (hbody.parens.cons rfl)
termination_by structural ctes => ctes

/-- Writing an INSERT ends as writing its expressions does, with a balanced text. -/
theorem Insert.ends_render (hE : CompileError.CoversOthers E) :
    ∀ {i : Insert}, (∀ x ∈ i.exprs, Ends Unbroken E (x.render d f)) →
      Ends Balanced E (i.render d f)
  | ⟨_, _, none, _, _⟩, _ => ends_error (hE _ rfl)
  | ⟨name, columns, some source, upsert, returning⟩, hx => by
    simp only [Insert.exprs, List.forall_mem_append] at hx
    have hsource := InsertSource.ends_render hE hx.1.1
    have hcheck : Ends (fun _ => True) E (Upsert.check d upsert) := by
      unfold Upsert.check
      split
      · exact ends_ok trivial
      · split
        · exact ends_error (hE _ rfl)
        · exact ends_ok trivial
    refine hcheck.bind fun _ _ => hsource.bind fun source hsource =>
      (Upsert.ends_renderOption hE hx.1.2).bind fun upsert hupsert =>
      (SelectItem.ends_renderReturning hx.2).bind fun returning hreturning => ends_pure ?_
    have hname := ((balanced_columnList columns).cons (t := .ident name) rfl)
    exact (((hname.cons rfl).append hsource).append hupsert).append hreturning
termination_by structural i => i

/-- Writing what is inserted ends as writing its expressions does, with a balanced text. -/
theorem InsertSource.ends_render (hE : CompileError.CoversOthers E) :
    ∀ {s : InsertSource}, (∀ x ∈ s.exprs, Ends Unbroken E (x.render d f)) →
      Ends Balanced E (s.render d f)
  | .values _, hx =>
    (Expr.ends_renderRows hx).bind fun _ hrows => ends_pure (hrows.cons rfl)
  | .select _, hx =>
    (Statement.ends_render hE hx).bind fun _ hbody => ends_pure (hbody.cons rfl)
termination_by structural s => s

end

end Rendering

section Balanced

variable {d : Dialect} {f : Query → Rendered} (hf : ∀ q, Ends Balanced (fun _ => True) (f q))

/-- Every error is among all errors. -/
theorem Expr.leavesIn_true (e : Expr) : e.LeavesIn fun _ => True := by
  cases e <;> trivial

include hf

/-- Where any error will do, expressions are unbroken if nested queries have matched brackets. -/
theorem Expr.unbroken_render (e : Expr) : Ends Unbroken (fun _ => True) (e.render d f) :=
  Expr.ends_render (fun _ _ => trivial) (fun x _ => x.leavesIn_true) fun q _ => hf q

/-- A statement is written in balanced brackets, if the queries nested in it are. -/
theorem Statement.balanced_render {s : Statement} {ts : List Token}
    (hts : s.render d f = .ok ts) : Balanced ts := by
  have hends := Statement.ends_render (fun _ _ => trivial) fun e (_ : e ∈ s.exprs) =>
    Expr.unbroken_render (d := d) hf e
  exact hends.yields ts hts

/-- An expression is written in balanced brackets, if the queries nested in it are. -/
theorem Expr.balanced_render {e : Expr} {ts : List Token} (hts : e.render d f = .ok ts) :
    Balanced ts :=
  ((Expr.unbroken_render hf e).yields ts hts).balanced

/-- A list is written in balanced brackets, if the queries nested in it are. -/
theorem Expr.balanced_renderAll {es : List Expr} {parts : List (List Token)}
    (hparts : Expr.renderAll d f es = .ok parts) : ∀ part ∈ parts, Balanced part := by
  have hends := Expr.ends_renderAll_of_mem fun e (_ : e ∈ es) => Expr.unbroken_render (d := d) hf e
  exact fun part hpart => (hends.yields parts hparts part hpart).balanced

/-- Order keys are written in balanced brackets, if the queries nested in them are. -/
theorem OrderKey.balanced_renderAll {keys : List OrderKey} {parts : List (List Token)}
    (hparts : OrderKey.renderAll d f keys = .ok parts) : ∀ part ∈ parts, Balanced part := by
  have hends := OrderKey.ends_renderAll (d := d) (fun _ _ => trivial)
    (fun x (_ : x ∈ OrderKey.partsAll keys) => x.leavesIn_true) fun q _ => hf q
  exact fun part hpart => (hends.yields parts hparts part hpart).balanced

/-- Branches are written in balanced brackets, if the queries nested in them are. -/
theorem Branch.balanced_renderAll {branches : List Branch} {ts : List Token}
    (hts : Branch.renderAll d f branches = .ok ts) : Balanced ts := by
  have hends := Branch.ends_renderAll (d := d) (fun _ _ => trivial)
    (fun x (_ : x ∈ Branch.partsAll branches) => x.leavesIn_true) fun q _ => hf q
  exact hends.yields ts hts

/-- An ELSE is written in balanced brackets, if the queries nested in it are. -/
theorem Expr.balanced_renderElse {e : Option Expr} {ts : List Token}
    (hts : Expr.renderElse d f e = .ok ts) : Balanced ts := by
  have hends := Expr.ends_renderElse (d := d) (fun _ _ => trivial)
    (fun x (_ : x ∈ Expr.partsOption e) => x.leavesIn_true) fun q _ => hf q
  exact hends.yields ts hts

end Balanced

/-- Queries nested in expressions are written with matched brackets. -/
theorem Query.balanced_renderRows (d : Dialect) (limit : Nat) : ∀ q : Query,
    Ends Balanced (fun _ => True) (q.renderRows d limit) := by
  induction limit with
  | zero => exact fun _ => ends_error trivial
  | succ limit ih =>
    intro q
    cases hts : q.renderRows d (limit + 1) with
    | error err => trivial
    | ok ts =>
      obtain ⟨s, -, hts⟩ := bind_eq_ok.mp hts
      exact Statement.balanced_render ih hts

end SqlAlgebra
