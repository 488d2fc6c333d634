import SqlAlgebra.Proofs.Marks
import SqlAlgebra.Proofs.Separation
import SqlAlgebra.Proofs.Unbroken

/-!
# Operands delimit themselves

An expression is written as a constant, a column, a parameter, a star, a call or something between
brackets. No operator stands outside of its brackets, so that nothing the expression is made an
operand of can take it apart, whatever binds tighter in a database. There is one exception: that a
query has no rows is written with a NOT for which there are no brackets.
-/

namespace SqlAlgebra

open Text Token

/-- The expression says that a query has no rows. -/
def Expr.deniesExistence : Expr → Bool
  | .existence _ true => true
  | _ => false

/-- The function that the expression calls has a name that can be read as one. -/
def Expr.HasName : Expr → Prop
  | .call name .. | .window name .. => IsName name
  | _ => True

instance : DecidablePred Expr.HasName
  | .call .. | .window .. => inferInstanceAs (Decidable (IsName _))
  | .column .. | .placeholder _ | .literal _ | .parameter .. | .binary .. | .unary .. | .between ..
  | .inList .. | .cast .. | .subquery _ | .existence .. | .choice .. | .wildcard =>
    inferInstanceAs (Decidable True)

/-- What the text of an expression can be so that no brackets are needed around it. -/
inductive Token.SelfDelimiting (d : Dialect) : List Token → Prop where
  | constant {value : Value} {ts : List Token} (h : value.render d = .ok ts) : SelfDelimiting d ts
  | column (name : String) : SelfDelimiting d [ident name]
  | qualified (table name : String) : SelfDelimiting d [ident table, text ".", ident name]
  | proposed (name : String) : SelfDelimiting d [.proposed name]
  | slot (name : String) : SelfDelimiting d [slot name]
  | star : SelfDelimiting d [text "*"]
  | call {name : String} (hname : IsName name) {body : List Token} (hbody : Balanced body) :
    SelfDelimiting d (text name :: parens body)
  | window {name : String} (hname : IsName name) {args frame : List Token} (hargs : Balanced args)
      (hframe : Balanced frame) :
    SelfDelimiting d (text name :: parens args ++ text " OVER " :: parens frame)
  | existence {body : List Token} (hbody : Balanced body) :
    SelfDelimiting d (text "EXISTS " :: parens body)
  | parens {body : List Token} (hbody : Balanced body) : SelfDelimiting d (parens body)

/-- What is written between the operands of an operator, or before them, is known for an operator
or a name. -/
def OperatorSyntax.IsMarked : OperatorSyntax → Prop
  | between symbol => mark? [text (" " ++ symbol ++ " ")] = some (" " ++ symbol ++ " ")
  | call name => IsName name
  | upperBetween symbol =>
    mark? [text (" " ++ symbol ++ " UPPER")] = some (" " ++ symbol ++ " UPPER")

instance : DecidablePred OperatorSyntax.IsMarked
  | .between _ | .upperBetween _ => inferInstanceAs (Decidable (_ = _))
  | .call _ => inferInstanceAs (Decidable (IsName _))

/-- The operators of a dialect are known for operators, and its truth values are not. -/
structure Dialect.MarksOperators (d : Dialect) : Prop where
  boolean : ∀ b, mark? [text (d.boolean b)] = none
  operator : ∀ op entry, d.operator? op = some entry → entry.IsMarked

/-- A profile with the operators of a built-in one marks them, whatever else it changes. -/
theorem Profile.marksOperators {p : Profile}
    (hp : ∃ base ∈ Profile.builtin, p.operators = base.operators) : p.dialect.MarksOperators := by
  have hoperators : ∀ base ∈ Profile.builtin, ∀ op ∈ BinaryOperator.all,
      ∀ entry ∈ base.operators.spelling? op, entry.IsMarked := by decide
  obtain ⟨base, hbase, hp⟩ := hp
  refine ⟨fun b => ?_, fun op entry hentry => ?_⟩
  · change mark? [text (p.booleans.write b)] = none
    cases p.booleans <;> cases b <;> decide
  · have hentry : base.operators.spelling? op = some entry := by
      rw [← hp]
      exact hentry
    exact hoperators base hbase op op.mem_all entry hentry

section Forms

variable {d : Dialect}

/-- A value is written in an undivided text. -/
theorem Value.undivided_render (hd : d.MarksOperators) (value : Value) :
    Yields Undivided (value.render d) := by
  cases value with
  | null => exact yields_ok (undivided_atom rfl (by decide))
  | bool b => exact yields_ok (undivided_atom rfl (hd.boolean b))
  | int n => exact yields_ok (undivided_atom rfl (mark?_numeral (isNumeral_toString_int _)))
  | text s => exact yields_ok (undivided_atom rfl rfl)
  | float x =>
    by_cases hx : x.isFinite = true
    · simp only [Value.render, if_pos hx]
      exact yields_ok (undivided_atom rfl (mark?_numeral (Binary64.isNumeral_text hx)))
    · simp only [Value.render, if_neg hx]
      exact yields_error _

/-- What delimits itself has no operator and no comma outside of its brackets. -/
theorem Token.SelfDelimiting.undivided (hd : d.MarksOperators) {ts : List Token}
    (h : SelfDelimiting d ts) : Undivided ts := by
  cases h with
  | constant hvalue => exact Value.undivided_render hd _ ts hvalue
  | column | proposed | slot => exact undivided_atom rfl rfl
  | qualified table name =>
    have hname : Undivided [ident name] := undivided_atom rfl rfl
    exact (hname.cons (t := text ".") rfl (by decide)).cons rfl rfl
  | star => exact undivided_atom rfl (by decide)
  | call hname hbody => exact (undivided_parens hbody).cons rfl (mark?_name hname)
  | window hname hargs hframe =>
    have hcall := (undivided_parens hargs).cons rfl (mark?_name hname)
    exact hcall.append ((undivided_parens hframe).cons rfl (by decide))
  | existence hbody => exact (undivided_parens hbody).cons rfl (by decide)
  | parens hbody => exact undivided_parens hbody

/-- The tokens with proposed columns spelled out. -/
def Token.spell (asValues : Bool) (ts : List Token) : List Token :=
  (pieces asValues ts).map .piece

/-- Two texts are spelled out one after the other, the second in the mode that the first leaves. -/
theorem Token.spell_append (asValues : Bool) (ts us : List Token) :
    spell asValues (ts ++ us) = spell asValues ts ++ spell (asValuesAfter asValues ts) us := by
  simp [spell, pieces_append]

/-- Brackets are spelled as they are. -/
theorem Token.spell_parens (asValues : Bool) (ts : List Token) :
    spell asValues (parens ts) = parens (spell asValues ts) := by
  simp [spell, parens, pieces, pieces_append, leftParen, rightParen]

/-- A text is spelled as it is. -/
theorem Token.spell_text_cons (asValues : Bool) (s : String) (ts : List Token) :
    spell asValues (text s :: ts) = text s :: spell asValues ts := rfl

/-- Spelling proposed columns out keeps brackets balanced. -/
theorem Token.Balanced.spell {ts : List Token} (h : Balanced ts) (asValues : Bool) :
    Balanced (spell asValues ts) := by
  induction h generalizing asValues with
  | nil => exact .nil
  | @atom t ht =>
    cases t with
    | piece p => exact .atom ht
    | proposed column =>
      cases asValues with
      | true =>
        have hcolumn : Balanced [ident column] := .atom rfl
        exact hcolumn.parens.cons (t := text "VALUES") rfl
      | false =>
        have hname : Balanced [text ".", ident column] := (Balanced.atom rfl).cons rfl
        exact hname.cons (t := ident Expr.proposedTable) rfl
    | proposedAsValues on => exact .nil
  | append _ _ ihts ihus =>
    rw [spell_append]
    exact (ihts _).append (ihus _)
  | parens _ ih =>
    rw [spell_parens]
    exact (ih _).parens

/-- A constant is a single piece. -/
theorem Value.exists_piece {value : Value} {ts : List Token} (h : value.render d = .ok ts) :
    ∃ p, ts = [.piece p] := by
  cases value with
  | null | bool | int | text =>
    cases h
    exact ⟨_, rfl⟩
  | float x =>
    by_cases hx : x.isFinite = true
    · simp only [Value.render, if_pos hx] at h
      cases h
      exact ⟨_, rfl⟩
    · simp only [Value.render, if_neg hx] at h
      cases h

/-- Spelling out proposed columns keeps what delimits itself: a call or a qualified column takes
the place of each. -/
theorem Token.SelfDelimiting.spell {ts : List Token} (h : SelfDelimiting d ts) (asValues : Bool) :
    SelfDelimiting d (spell asValues ts) := by
  cases h with
  | constant hvalue =>
    obtain ⟨p, rfl⟩ := Value.exists_piece hvalue
    exact .constant hvalue
  | column name => exact .column name
  | qualified table name => exact .qualified table name
  | slot name => exact .slot name
  | star => exact .star
  | proposed name =>
    cases asValues with
    | true =>
      have hcolumn : Balanced [ident name] := .atom rfl
      exact .call (by decide : IsName "VALUES") hcolumn
    | false => exact .qualified Expr.proposedTable name
  | call hname hbody =>
    rw [spell_text_cons, spell_parens]
    exact .call hname (hbody.spell _)
  | window hname hargs hframe =>
    rw [spell_append, spell_text_cons, spell_parens, spell_text_cons, spell_parens]
    exact .window hname (hargs.spell _) (hframe.spell _)
  | existence hbody =>
    rw [spell_text_cons, spell_parens]
    exact .existence (hbody.spell _)
  | parens hbody =>
    rw [spell_parens]
    exact .parens (hbody.spell _)

/-- Behind a NOT without brackets nothing delimits itself: the words are no name. -/
theorem Token.not_selfDelimiting_not_exists (body : List Token) :
    ¬ SelfDelimiting d (text "NOT EXISTS " :: parens body) := by
  intro h
  generalize hts : text "NOT EXISTS " :: Token.parens body = ts at h
  have hwords : ¬ IsName "NOT EXISTS " := by decide
  cases h with
  | constant hvalue =>
    obtain ⟨p, rfl⟩ := Value.exists_piece hvalue
    cases (List.cons.inj hts).2
  | call hname =>
    cases (List.cons.inj hts).1
    exact hwords hname
  | window hname =>
    cases (List.cons.inj hts).1
    exact hwords hname
  | existence | star => exact absurd (List.cons.inj hts).1 (by decide)
  | column | qualified | proposed | slot | parens =>
    have hhead := (List.cons.inj hts).1
    cases hhead

end Forms

section Rendering

variable {d : Dialect} {f : Query → Rendered} (hd : d.MarksOperators)
  (hf : ∀ q, Ends Balanced (fun _ => True) (f q))

/-- A column needs no brackets, with or without a qualifier. -/
theorem Token.selfDelimiting_column (owner : Option String) (name : String) :
    SelfDelimiting d (column owner name) := by
  cases owner with
  | none => exact .column name
  | some table =>
    by_cases htable : table = Expr.proposedTable
    · rw [column, if_pos htable]
      exact .proposed name
    · rw [column, if_neg htable]
      exact .qualified table name

include hd in
/-- An operator is written with its operands in a text that needs no brackets. -/
theorem OperatorSyntax.selfDelimiting_render {op : BinaryOperator} {entry : OperatorSyntax}
    (hentry : d.operator? op = some entry) {left right : List Token} (hleft : Balanced left)
    (hright : Balanced right) : SelfDelimiting d (entry.render left right) := by
  cases entry with
  | between symbol => exact .parens (hleft.join _ hright)
  | call name => exact .call (hd.operator op _ hentry) (hleft.join _ hright)
  | upperBetween symbol =>
    have hupper : Balanced (text "UPPER" :: parens left) := hleft.parens.cons rfl
    exact .parens (hupper.join _ hright.parens)

/-- A unary operator is written with its operand in a text that needs no brackets. -/
theorem UnaryOperator.selfDelimiting_render (op : UnaryOperator) {operand : List Token}
    (h : Balanced operand) : SelfDelimiting d (op.render operand) := by
  cases op with
  | not | minus => exact .parens (h.cons rfl)
  | isNull | isNotNull => exact .parens (h.append (.atom rfl))

/-- A list of values that is written has a value in it. -/
theorem Expr.ne_nil_of_render_inList {subject : Expr} {values : List Expr} {negated : Bool}
    {ts : List Token} (hts : (Expr.inList subject values negated).render d f = .ok ts) :
    values ≠ [] := by
  rintro rfl
  cases hts

include hd hf in
/-- Every expression delimits itself, unless it denies that a query has rows. -/
theorem Expr.selfDelimiting_render {e : Expr} (hname : e.HasName)
    (hexists : e.deniesExistence = false) {ts : List Token} (hts : e.render d f = .ok ts) :
    SelfDelimiting d ts := by
  cases e with
  | column owner name =>
    cases hts
    exact selfDelimiting_column owner name
  | placeholder name => cases hts
  | literal value => exact .constant hts
  | parameter type name =>
    cases hts
    exact .slot name
  | wildcard =>
    cases hts
    exact .star
  | binary op left right =>
    simp only [Expr.render] at hts
    split at hts
    · cases hts
    next entry hentry =>
      simp only [bind_eq_ok, pure_eq_ok] at hts
      obtain ⟨leftTokens, hleft, rightTokens, hright, rfl⟩ := hts
      exact OperatorSyntax.selfDelimiting_render hd hentry (Expr.balanced_render hf hleft)
        (Expr.balanced_render hf hright)
  | unary op operand =>
    simp only [Expr.render, bind_eq_ok, pure_eq_ok] at hts
    obtain ⟨tokens, hoperand, rfl⟩ := hts
    exact op.selfDelimiting_render (Expr.balanced_render hf hoperand)
  | call name args distinct =>
    simp only [Expr.render, bind_eq_ok, pure_eq_ok] at hts
    obtain ⟨parts, hparts, rfl⟩ := hts
    have hcommas := Balanced.commas (Expr.balanced_renderAll hf hparts)
    refine .call hname ?_
    split
    · exact hcommas.cons rfl
    · exact hcommas
  | between subject low high negated =>
    simp only [Expr.render, bind_eq_ok, pure_eq_ok] at hts
    obtain ⟨subjectTokens, hsubject, lowTokens, hlow, highTokens, hhigh, rfl⟩ := hts
    have hlower := (Expr.balanced_render hf hsubject).join
      (" " ++ negation negated ++ "BETWEEN ") (Expr.balanced_render hf hlow)
    exact .parens (hlower.join " AND " (Expr.balanced_render hf hhigh))
  | inList subject values negated =>
    by_cases hquery : ∃ q, values = [.subquery q]
    · obtain ⟨q, rfl⟩ := hquery
      simp only [Expr.render, bind_eq_ok, pure_eq_ok] at hts
      obtain ⟨subjectTokens, hsubject, rows, hrows, rfl⟩ := hts
      have hrows := ((hf q).yields rows hrows).parens
      exact .parens ((Expr.balanced_render hf hsubject).join _ hrows)
    · rw [Expr.render_inList (Expr.ne_nil_of_render_inList hts) (not_exists.mp hquery)] at hts
      simp only [bind_eq_ok, pure_eq_ok] at hts
      obtain ⟨subjectTokens, hsubject, parts, hparts, rfl⟩ := hts
      have hcommas := Balanced.commas (Expr.balanced_renderAll hf hparts)
      exact .parens ((Expr.balanced_render hf hsubject).join _ hcommas.parens)
  | cast operand type =>
    simp only [Expr.render] at hts
    split at hts
    · cases hts
    · simp only [bind_eq_ok, pure_eq_ok] at hts
      obtain ⟨tokens, hoperand, rfl⟩ := hts
      exact .call (by decide) ((Expr.balanced_render hf hoperand).append (.atom rfl))
  | subquery q =>
    simp only [Expr.render, bind_eq_ok, pure_eq_ok] at hts
    obtain ⟨rows, hrows, rfl⟩ := hts
    exact .parens ((hf q).yields rows hrows)
  | existence q negated =>
    cases negated with
    | true => cases hexists
    | false =>
      simp only [Expr.render, bind_eq_ok, pure_eq_ok] at hts
      obtain ⟨rows, hrows, rfl⟩ := hts
      exact .existence ((hf q).yields rows hrows)
  | choice branches otherwise =>
    cases branches with
    | nil => cases hts
    | cons branch branches =>
      simp only [Expr.render, bind_eq_ok, pure_eq_ok] at hts
      obtain ⟨branchTokens, hbranches, elseTokens, helse, rfl⟩ := hts
      have hcase : Balanced (text "CASE" :: branchTokens) :=
        (Branch.balanced_renderAll hf hbranches).cons rfl
      exact .parens ((hcase.append (Expr.balanced_renderElse hf helse)).append (.atom rfl))
  | window name args partition order frame =>
    simp only [Expr.render] at hts
    split at hts
    · simp only [bind_eq_ok, pure_eq_ok] at hts
      obtain ⟨argParts, hargs, partitionParts, hpartition, orderParts, horder, rfl⟩ := hts
      exact .window hname (Balanced.commas (Expr.balanced_renderAll hf hargs))
        (balanced_over (Expr.balanced_renderAll hf hpartition)
          (OrderKey.balanced_renderAll hf horder) frame)
    · cases hts

/-- What denies that a query has rows is written with words that are no name. -/
theorem Expr.render_of_deniesExistence {e : Expr} (hexists : e.deniesExistence = true)
    {ts : List Token} (hts : e.render d f = .ok ts) :
    ∃ body, ts = text "NOT EXISTS " :: parens body := by
  cases e with
  | existence q negated =>
    cases negated with
    | false => cases hexists
    | true =>
      simp only [Expr.render, bind_eq_ok, pure_eq_ok] at hts
      obtain ⟨rows, -, rfl⟩ := hts
      exact ⟨rows, rfl⟩
  | _ => cases hexists

end Rendering

/-- The operands that an operator or a test has. -/
def Expr.operands : Expr → List Expr
  | .binary _ left right => [left, right]
  | .unary _ operand => [operand]
  | .between subject low high _ => [subject, low, high]
  | .inList subject [.subquery _] _ => [subject]
  | .inList subject values _ => subject :: values
  | _ => []

/-- A unary operator and its operand. -/
def UnaryOperator.division (operand : List Token) : UnaryOperator → Cut String
  | not => ⟨[], [("NOT ", operand)]⟩
  | minus => ⟨[], [("- ", operand)]⟩
  | isNull => ⟨operand, [(" IS NULL", [])]⟩
  | isNotNull => ⟨operand, [(" IS NOT NULL", [])]⟩

/-- How the operands of an expression are meant to be told apart: between each pair of brackets that
it writes itself, by its own operator or by commas. -/
inductive Expr.Divides (d : Dialect) (f : Query → Rendered) : Expr → Cut String → Prop where
  | between {op : BinaryOperator} {left right : Expr} {symbol : String} {x y : List Token}
      (hop : d.operator? op = some (.between symbol)) (hleft : left.render d f = .ok x)
      (hright : right.render d f = .ok y) :
    Divides d f (.binary op left right) ⟨x, [(" " ++ symbol ++ " ", y)]⟩
  | call {op : BinaryOperator} {left right : Expr} {name : String} {x y : List Token}
      (hop : d.operator? op = some (.call name)) (hleft : left.render d f = .ok x)
      (hright : right.render d f = .ok y) :
    Divides d f (.binary op left right) ⟨x, [(", ", y)]⟩
  | upperBetween {op : BinaryOperator} {left right : Expr} {symbol : String} {x y : List Token}
      (hop : d.operator? op = some (.upperBetween symbol)) (hleft : left.render d f = .ok x)
      (hright : right.render d f = .ok y) :
    Divides d f (.binary op left right)
      ⟨text "UPPER" :: parens x, [(" " ++ symbol ++ " UPPER", parens y)]⟩
  | upperLeft {op : BinaryOperator} {left right : Expr} {symbol : String} {x : List Token}
      (hop : d.operator? op = some (.upperBetween symbol)) (hleft : left.render d f = .ok x) :
    Divides d f (.binary op left right) ⟨x, []⟩
  | upperRight {op : BinaryOperator} {left right : Expr} {symbol : String} {y : List Token}
      (hop : d.operator? op = some (.upperBetween symbol)) (hright : right.render d f = .ok y) :
    Divides d f (.binary op left right) ⟨y, []⟩
  | unary (op : UnaryOperator) {operand : Expr} {x : List Token}
      (hoperand : operand.render d f = .ok x) : Divides d f (.unary op operand) (op.division x)
  | range {subject low high : Expr} {negated : Bool} {x y z : List Token}
      (hsubject : subject.render d f = .ok x) (hlow : low.render d f = .ok y)
      (hhigh : high.render d f = .ok z) :
    Divides d f (.between subject low high negated)
      ⟨x, [(" " ++ negation negated ++ "BETWEEN ", y), (" AND ", z)]⟩
  | rows {subject : Expr} {query : Query} {negated : Bool} {x y : List Token}
      (hsubject : subject.render d f = .ok x) (hrows : f query = .ok y) :
    Divides d f (.inList subject [.subquery query] negated)
      ⟨x, [(" " ++ negation negated ++ "IN ", parens y)]⟩
  | member {subject : Expr} {values : List Expr} {negated : Bool} {x : List Token}
      {xs : List (List Token)} (hquery : ∀ query, values ≠ [.subquery query])
      (hsubject : subject.render d f = .ok x) (hvalues : Expr.renderAll d f values = .ok xs) :
    Divides d f (.inList subject values negated)
      ⟨x, [(" " ++ negation negated ++ "IN ", parens (commas xs))]⟩
  | values {subject : Expr} {values : List Expr} {negated : Bool} {x : List Token}
      {xs : List (List Token)} (hquery : ∀ query, values ≠ [.subquery query])
      (hvalues : Expr.renderAll d f values = .ok (x :: xs)) :
    Divides d f (.inList subject values negated) ⟨x, xs.map (", ", ·)⟩

section Division

variable {d : Dialect} {f : Query → Rendered} {e : Expr} {ts : List Token}

/-- The expressions of a list are parts of it. -/
theorem Expr.mem_partsAll {es : List Expr} {e : Expr} (he : e ∈ es) : e ∈ Expr.partsAll es := by
  induction es with
  | nil => cases he
  | cons x es ih =>
    rw [Expr.partsAll, List.mem_append]
    rcases List.mem_cons.mp he with rfl | he
    · exact Or.inl e.mem_parts_self
    · exact Or.inr (ih he)

/-- The operands are among the parts. -/
theorem Expr.mem_parts_of_mem_operands {o : Expr} (ho : o ∈ e.operands) : o ∈ e.parts := by
  cases e with
  | binary op left right =>
    simp only [Expr.operands, List.mem_cons, List.not_mem_nil, or_false] at ho
    simp only [Expr.parts, List.mem_cons, List.mem_append]
    rcases ho with rfl | rfl
    · exact Or.inr (Or.inl o.mem_parts_self)
    · exact Or.inr (Or.inr o.mem_parts_self)
  | unary op operand =>
    rw [List.mem_singleton.mp ho]
    exact List.mem_cons_of_mem _ operand.mem_parts_self
  | between subject low high negated =>
    simp only [Expr.operands, List.mem_cons, List.not_mem_nil, or_false] at ho
    simp only [Expr.parts, List.mem_cons, List.mem_append]
    rcases ho with rfl | rfl | rfl
    · exact Or.inr (Or.inl (Or.inl o.mem_parts_self))
    · exact Or.inr (Or.inl (Or.inr o.mem_parts_self))
    · exact Or.inr (Or.inr o.mem_parts_self)
  | inList subject values negated =>
    have hmem : o = subject ∨ o ∈ values := by
      unfold Expr.operands at ho
      split at ho <;> simp_all
    simp only [Expr.parts, List.mem_cons, List.mem_append]
    rcases hmem with rfl | hmem
    · exact Or.inr (Or.inl o.mem_parts_self)
    · exact Or.inr (Or.inr (Expr.mem_partsAll hmem))
  | _ => cases ho

/-- The operands of a test for a list are what is tested and the values, if these are not one
query. -/
theorem Expr.operands_inList {subject : Expr} {values : List Expr} {negated : Bool}
    (hquery : ∀ query, values ≠ [.subquery query]) :
    (Expr.inList subject values negated).operands = subject :: values := by
  cases values with
  | nil => rfl
  | cons value values =>
    cases values with
    | cons _ _ => cases value <;> rfl
    | nil =>
      cases value with
      | subquery query => exact absurd rfl (hquery query)
      | _ => rfl

/-- A test is marked by its word, with or without a negation before it. -/
theorem Token.mark?_negation (negated : Bool) (word : String)
    (hword : word = "BETWEEN " ∨ word = "IN ") :
    mark? [text (" " ++ negation negated ++ word)] = some (" " ++ negation negated ++ word) := by
  rcases hword with rfl | rfl
  · cases negated <;> decide
  · cases negated <;> decide

/-- A list of undivided texts is cut at the commas between them. -/
theorem Token.cut_commas {x : List Token} {xs : List (List Token)}
    (h : ∀ y ∈ x :: xs, Undivided y) : cut mark? 0 (commas (x :: xs)) = ⟨x, xs.map (", ", ·)⟩ := by
  induction xs generalizing x with
  | nil =>
    rw [commas, List.intercalate_singleton]
    exact (h x List.mem_cons_self).cut_eq
  | cons y ys ih =>
    rw [List.forall_mem_cons] at h
    have hcomma : commas (x :: y :: ys) = x ++ text ", " :: commas (y :: ys) := by
      simp [commas]
    rw [hcomma, h.1.cut_mark (by decide), ih h.2]
    simp [Cut.prepend, Cut.start]

/-- Two undivided texts are cut at the mark between them. -/
theorem Token.cut_join {x y : List Token} (hx : Undivided x) (hy : Undivided y) {s : String}
    (hs : mark? [text s] = some s) : cut mark? 0 (x ++ [text s] ++ y) = ⟨x, [(s, y)]⟩ := by
  rw [List.append_assoc, List.singleton_append, hx.cut_mark hs, hy.cut_eq]
  simp [Cut.prepend, Cut.start]

/-- In the brackets of a unary operator, it is told apart from its operand. -/
theorem UnaryOperator.cut_render (op : UnaryOperator) {x : List Token} (hx : Undivided x) :
    ∃ inner, op.render x = parens inner ∧ cut mark? 0 inner = op.division x := by
  cases op with
  | not => exact ⟨_, rfl, cut_join undivided_nil hx (by decide)⟩
  | minus => exact ⟨_, rfl, cut_join undivided_nil hx (by decide)⟩
  | isNull =>
    have hcut := cut_join hx undivided_nil (s := " IS NULL") (by decide)
    exact ⟨_, rfl, by rwa [List.append_nil] at hcut⟩
  | isNotNull =>
    have hcut := cut_join hx undivided_nil (s := " IS NOT NULL") (by decide)
    exact ⟨_, rfl, by rwa [List.append_nil] at hcut⟩

/-- An expression whose operands are undivided keeps them apart by its own operator. -/
theorem Expr.Divides.exists_cut (hd : d.MarksOperators)
    (hf : ∀ q, Ends Balanced (fun _ => True) (f q)) {c : Cut String} (hc : e.Divides d f c)
    (hoperands : ∀ o ∈ e.operands, ∀ x, o.render d f = .ok x → Undivided x)
    (hts : e.render d f = .ok ts) :
    ∃ inner, parens inner <:+: ts ∧ cut mark? 0 inner = c := by
  cases hc with
  | between hop hleft hright =>
    simp only [Expr.operands, List.forall_mem_cons] at hoperands
    simp only [Expr.render, hop, hleft, hright, ok_bind, pure_eq_ok] at hts
    have hmark := hd.operator _ _ hop
    subst hts
    exact ⟨_, List.infix_rfl, cut_join (hoperands.1 _ hleft) (hoperands.2.1 _ hright) hmark⟩
  | call hop hleft hright =>
    simp only [Expr.operands, List.forall_mem_cons] at hoperands
    simp only [Expr.render, hop, hleft, hright, ok_bind, pure_eq_ok] at hts
    subst hts
    exact ⟨_, (List.suffix_cons _ _).isInfix,
      cut_join (hoperands.1 _ hleft) (hoperands.2.1 _ hright) (by decide)⟩
  | upperBetween hop hleft hright =>
    simp only [Expr.render, hop, hleft, hright, ok_bind, pure_eq_ok] at hts
    have hmark := hd.operator _ _ hop
    have hx := undivided_parens (Expr.balanced_render hf hleft)
    have hy := undivided_parens (Expr.balanced_render hf hright)
    subst hts
    exact ⟨_, List.infix_rfl, cut_join (hx.cons (t := text "UPPER") rfl (by decide)) hy hmark⟩
  | @upperLeft _ _ right symbol x hop hleft =>
    simp only [Expr.operands, List.forall_mem_cons] at hoperands
    simp only [Expr.render, hop, hleft, ok_bind, bind_eq_ok, pure_eq_ok] at hts
    obtain ⟨y, hy, rfl⟩ := hts
    refine ⟨x, ?_, (hoperands.1 _ hleft).cut_eq⟩
    exact ⟨[leftParen, text "UPPER"], text (" " ++ symbol ++ " UPPER") :: parens y ++ [rightParen],
      by simp [OperatorSyntax.render, parens]⟩
  | @upperRight _ left _ symbol y hop hright =>
    simp only [Expr.operands, List.forall_mem_cons] at hoperands
    simp only [Expr.render, hop, hright, ok_bind, bind_eq_ok, pure_eq_ok] at hts
    obtain ⟨x, hx, rfl⟩ := hts
    refine ⟨y, ?_, (hoperands.2.1 _ hright).cut_eq⟩
    exact ⟨leftParen :: text "UPPER" :: parens x ++ [text (" " ++ symbol ++ " UPPER")],
      [rightParen], by simp [OperatorSyntax.render, parens]⟩
  | unary op hoperand =>
    simp only [Expr.render, hoperand, ok_bind, pure_eq_ok] at hts
    obtain ⟨inner, hinner, hcut⟩ :=
      op.cut_render (hoperands _ (List.mem_singleton_self _) _ hoperand)
    have hparens : parens inner = _ := hinner.symm.trans hts
    exact ⟨inner, hparens ▸ List.infix_rfl, hcut⟩
  | @range _ _ _ negated x y z hsubject hlow hhigh =>
    simp only [Expr.operands, List.forall_mem_cons] at hoperands
    simp only [Expr.render, hsubject, hlow, hhigh, ok_bind, pure_eq_ok] at hts
    subst hts
    refine ⟨_, List.infix_rfl, ?_⟩
    have hlater :=
      cut_join (hoperands.2.1 _ hlow) (hoperands.2.2.1 _ hhigh) (s := " AND ") (by decide)
    have hmark := mark?_negation negated "BETWEEN " (Or.inl rfl)
    have hcut := (hoperands.1 _ hsubject).cut_mark hmark (y ++ [text " AND "] ++ z)
    rw [hlater] at hcut
    simpa [Cut.prepend, Cut.start] using hcut
  | @rows _ _ negated _ _ hsubject hrows =>
    simp only [Expr.operands, List.forall_mem_cons] at hoperands
    simp only [Expr.render, hsubject, hrows, ok_bind, pure_eq_ok] at hts
    have hy := undivided_parens ((hf _).yields _ hrows)
    subst hts
    exact ⟨_, List.infix_rfl, cut_join (hoperands.1 _ hsubject) hy
      (mark?_negation negated "IN " (Or.inr rfl))⟩
  | @member _ values negated _ xs hquery hsubject hvalues =>
    rw [Expr.operands_inList hquery, List.forall_mem_cons] at hoperands
    rw [Expr.render_inList (Expr.ne_nil_of_render_inList hts) hquery] at hts
    simp only [hsubject, hvalues, ok_bind, pure_eq_ok] at hts
    have hxs := undivided_parens (Balanced.commas (Expr.balanced_renderAll hf hvalues))
    subst hts
    exact ⟨_, List.infix_rfl, cut_join (hoperands.1 _ hsubject) hxs
      (mark?_negation negated "IN " (Or.inr rfl))⟩
  | @values _ values negated x xs hquery hvalues =>
    rw [Expr.operands_inList hquery, List.forall_mem_cons] at hoperands
    rw [Expr.render_inList (Expr.ne_nil_of_render_inList hts) hquery] at hts
    simp only [hvalues, ok_bind, bind_eq_ok, pure_eq_ok] at hts
    obtain ⟨y, hy, rfl⟩ := hts
    have hundivided : ∀ part ∈ x :: xs, Undivided part := by
      rw [Expr.renderAll_eq_mapM] at hvalues
      exact yields_mapM (fun value hvalue => hoperands.2 value hvalue) _ hvalues
    refine ⟨commas (x :: xs), ?_, cut_commas hundivided⟩
    exact ⟨leftParen :: (y ++ [text (" " ++ negation negated ++ "IN ")]), [rightParen], by
      simp [parens]⟩

end Division

/-- An expression that a profile with built-in operators can write, and whose calls have names, is
written as a text that delimits itself exactly if it does not deny that a query has rows, and
exactly then no operator stands outside of the brackets. An operator or a test that has no such
operand tells its operands apart by its own words only. -/
theorem selfDelimiting_iff {p : Profile}
    (hp : ∃ base ∈ Profile.builtin, p.operators = base.operators) {limit : Nat} {e : Expr}
    (hnames : ∀ x ∈ e.parts, x.HasName) {ts : List Token}
    (hts : e.render p.dialect (Query.renderRows p.dialect limit) = .ok ts) :
    (∀ asValues, (SelfDelimiting p.dialect (spell asValues ts) ↔ e.deniesExistence = false) ∧
      (cut mark? 0 (spell asValues ts) = ⟨spell asValues ts, []⟩ ↔ e.deniesExistence = false)) ∧
    ((∀ o ∈ e.operands, o.deniesExistence = false) →
      ∀ c, e.Divides p.dialect (Query.renderRows p.dialect limit) c →
        ∃ inner, parens inner <:+: ts ∧ cut mark? 0 inner = c) := by
  have hd := Profile.marksOperators hp
  have hf := Query.balanced_renderRows p.dialect limit
  refine ⟨fun asValues => ?_, fun hoperands c hc => ?_⟩
  · cases hexists : e.deniesExistence with
    | false =>
      have hself := Expr.selfDelimiting_render hd hf (hnames e e.mem_parts_self) hexists hts
      have hspelled := hself.spell asValues
      exact ⟨iff_of_true hspelled rfl, iff_of_true (hspelled.undivided hd).cut_eq rfl⟩
    | true =>
      obtain ⟨body, rfl⟩ := Expr.render_of_deniesExistence hexists hts
      rw [spell_text_cons, spell_parens]
      refine ⟨iff_of_false (not_selfDelimiting_not_exists _) (by simp), iff_of_false ?_ (by simp)⟩
      have hmark := undivided_nil.cut_mark (s := "NOT EXISTS ") (by decide)
        (parens (spell asValues body))
      rw [List.nil_append] at hmark
      rw [hmark]
      exact fun hcut => nomatch congrArg Cut.rest hcut
  · refine hc.exists_cut hd hf (fun o ho x hx => ?_) hts
    have hname := hnames o (Expr.mem_parts_of_mem_operands ho)
    exact (Expr.selfDelimiting_render hd hf hname (hoperands o ho) hx).undivided hd

/-- A column that is not in a list of a negated number and a call. -/
def Expr.unlisted : Expr :=
  .inList (.binary .iLike (.column (some "excluded") "a") (.literal (.text "x%")))
    [.unary .minus (.literal (.int (-5))), .call "ABS" [.existence (.table "u") true] false] true

/-- The test for a list is in brackets, and so are the values in it, but for the one that says that
a query has no rows. -/
theorem selfDelimiting_iff_unlisted : ∃ ts inner,
    Expr.unlisted.render Profile.sqlite.dialect (Query.renderRows Profile.sqlite.dialect 1) =
      .ok ts ∧
    SelfDelimiting Profile.sqlite.dialect (spell true ts) ∧
    cut mark? 0 (spell true ts) = ⟨spell true ts, []⟩ ∧
    parens inner <:+: ts ∧
    cut mark? 0 inner = ⟨parens [text "- ", text "-5"],
      [(", ", text "ABS" :: parens (text "NOT EXISTS " ::
        parens [text "SELECT ", text "*", text " FROM ", ident "u"]))]⟩ := by
  have hts : Expr.unlisted.render Profile.sqlite.dialect
      (Query.renderRows Profile.sqlite.dialect 1) = .ok _ := rfl
  obtain ⟨hforms, hdivides⟩ := selfDelimiting_iff (p := Profile.sqlite) (by decide)
    (e := Expr.unlisted) (by decide) hts
  obtain ⟨inner, hinner, hcut⟩ := hdivides (by decide) _ (.values nofun rfl)
  exact ⟨_, inner, hts, (hforms true).1.mpr rfl, (hforms true).2.mpr rfl, hinner, hcut⟩

/-- The test for a null stands beside the NOT of its operand, and takes a part of it. -/
theorem not_selfDelimiting_isNull : ∃ x inner,
    (Expr.existence (.table "u") true).render Profile.postgres.dialect
      (Query.renderRows Profile.postgres.dialect 1) = .ok x ∧
    ¬ SelfDelimiting Profile.postgres.dialect x ∧
    (Expr.unary .isNull (.existence (.table "u") true)).render Profile.postgres.dialect
      (Query.renderRows Profile.postgres.dialect 1) = .ok (parens inner) ∧
    cut mark? 0 inner = ⟨[], [("NOT EXISTS ", x.tail), (" IS NULL", [])]⟩ :=
  ⟨_, _, rfl, not_selfDelimiting_not_exists _, rfl, by decide⟩

end SqlAlgebra
