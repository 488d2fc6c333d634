import SqlAlgebra.Proofs.Parts
import SqlAlgebra.Query.Describe

/-!
# Filling in placeholders

Resolving an expression for a table puts columns of the table in the place of its placeholders and
changes nothing else. Where there is no single table, the placeholder that is reported is the one
that the text of the expression shows first.
-/

namespace SqlAlgebra

section Replacement

mutual

/-- The second expression is the first one with columns of a table in the place of placeholders.
Queries nested in it are the same. -/
inductive Expr.Filled (table : String) : Expr → Expr → Prop where
  | placeholder (name : String) : Expr.Filled table (.placeholder name) (.column (some table) name)
  | column (owner : Option String) (name : String) :
    Expr.Filled table (.column owner name) (.column owner name)
  | literal (value : Value) : Expr.Filled table (.literal value) (.literal value)
  | parameter (type : SqlType) (name : String) :
    Expr.Filled table (.parameter type name) (.parameter type name)
  | subquery (query : Query) : Expr.Filled table (.subquery query) (.subquery query)
  | existence (query : Query) (negated : Bool) :
    Expr.Filled table (.existence query negated) (.existence query negated)
  | wildcard : Expr.Filled table .wildcard .wildcard
  | binary (op : BinaryOperator) {left left' right right' : Expr}
    (hleft : Expr.Filled table left left') (hright : Expr.Filled table right right') :
    Expr.Filled table (.binary op left right) (.binary op left' right')
  | unary (op : UnaryOperator) {operand operand' : Expr}
    (hoperand : Expr.Filled table operand operand') :
    Expr.Filled table (.unary op operand) (.unary op operand')
  | call (name : String) (distinct : Bool) {args args' : List Expr}
    (hargs : Expr.FilledAll table args args') :
    Expr.Filled table (.call name args distinct) (.call name args' distinct)
  | between (negated : Bool) {subject subject' low low' high high' : Expr}
    (hsubject : Expr.Filled table subject subject') (hlow : Expr.Filled table low low')
    (hhigh : Expr.Filled table high high') :
    Expr.Filled table (.between subject low high negated) (.between subject' low' high' negated)
  | inList (negated : Bool) {subject subject' : Expr} {values values' : List Expr}
    (hsubject : Expr.Filled table subject subject')
    (hvalues : Expr.FilledAll table values values') :
    Expr.Filled table (.inList subject values negated) (.inList subject' values' negated)
  | cast (type : SqlType) {operand operand' : Expr}
    (hoperand : Expr.Filled table operand operand') :
    Expr.Filled table (.cast operand type) (.cast operand' type)
  | choice {branches branches' : List Branch} {otherwise otherwise' : Option Expr}
    (hbranches : Branch.FilledAll table branches branches')
    (hotherwise : Expr.FilledOption table otherwise otherwise') :
    Expr.Filled table (.choice branches otherwise) (.choice branches' otherwise')
  | window (name : String) (frame : Option Frame) {args args' partition partition' : List Expr}
    {order order' : List OrderKey} (hargs : Expr.FilledAll table args args')
    (hpartition : Expr.FilledAll table partition partition')
    (horder : OrderKey.FilledAll table order order') :
    Expr.Filled table (.window name args partition order frame)
      (.window name args' partition' order' frame)

inductive Expr.FilledAll (table : String) : List Expr → List Expr → Prop where
  | nil : Expr.FilledAll table [] []
  | cons {e e' : Expr} {es es' : List Expr} (he : Expr.Filled table e e')
    (hes : Expr.FilledAll table es es') : Expr.FilledAll table (e :: es) (e' :: es')

inductive Expr.FilledOption (table : String) : Option Expr → Option Expr → Prop where
  | none : Expr.FilledOption table none none
  | some {e e' : Expr} (he : Expr.Filled table e e') :
    Expr.FilledOption table (some e) (some e')

inductive Branch.FilledAll (table : String) : List Branch → List Branch → Prop where
  | nil : Branch.FilledAll table [] []
  | cons {condition condition' result result' : Expr} {branches branches' : List Branch}
    (hcondition : Expr.Filled table condition condition')
    (hresult : Expr.Filled table result result')
    (hbranches : Branch.FilledAll table branches branches') :
    Branch.FilledAll table (⟨condition, result⟩ :: branches) (⟨condition', result'⟩ :: branches')

inductive OrderKey.FilledAll (table : String) : List OrderKey → List OrderKey → Prop where
  | nil : OrderKey.FilledAll table [] []
  | cons (direction : SortDirection) (nulls : Option NullsOrder) {e e' : Expr}
    {keys keys' : List OrderKey} (he : Expr.Filled table e e')
    (hkeys : OrderKey.FilledAll table keys keys') :
    OrderKey.FilledAll table (⟨e, direction, nulls⟩ :: keys) (⟨e', direction, nulls⟩ :: keys')

end

variable {table : String}

mutual

/-- Qualifying an expression fills the table in. -/
theorem Expr.filled_qualify (table : String) : ∀ e : Expr, e.Filled table (e.qualify table)
  | .placeholder name => .placeholder name
  | .column owner name => .column owner name
  | .literal value => .literal value
  | .parameter type name => .parameter type name
  | .subquery query => .subquery query
  | .existence query negated => .existence query negated
  | .wildcard => .wildcard
  | .binary op left right =>
    .binary op (Expr.filled_qualify table left) (Expr.filled_qualify table right)
  | .unary op operand => .unary op (Expr.filled_qualify table operand)
  | .call name args distinct => .call name distinct (Expr.filledAll_qualify table args)
  | .between subject low high negated =>
    .between negated (Expr.filled_qualify table subject) (Expr.filled_qualify table low)
      (Expr.filled_qualify table high)
  | .inList subject values negated =>
    .inList negated (Expr.filled_qualify table subject) (Expr.filledAll_qualify table values)
  | .cast operand type => .cast type (Expr.filled_qualify table operand)
  | .choice branches otherwise =>
    .choice (Branch.filledAll_qualify table branches) (Expr.filledOption_qualify table otherwise)
  | .window name args partition order frame =>
    .window name frame (Expr.filledAll_qualify table args) (Expr.filledAll_qualify table partition)
      (OrderKey.filledAll_qualify table order)
termination_by structural e => e

/-- Qualifying a list of expressions fills the table in. -/
theorem Expr.filledAll_qualify (table : String) : ∀ es : List Expr,
    Expr.FilledAll table es (Expr.qualifyAll table es)
  | [] => .nil
  | e :: es => .cons (Expr.filled_qualify table e) (Expr.filledAll_qualify table es)
termination_by structural es => es

/-- Qualifying an expression that may be missing fills the table in. -/
theorem Expr.filledOption_qualify (table : String) : ∀ e : Option Expr,
    Expr.FilledOption table e (Expr.qualifyOption table e)
  | none => .none
  | some e => .some (Expr.filled_qualify table e)
termination_by structural e => e

/-- Qualifying branches fills the table in. -/
theorem Branch.filledAll_qualify (table : String) : ∀ branches : List Branch,
    Branch.FilledAll table branches (Branch.qualifyAll table branches)
  | [] => .nil
  | ⟨condition, result⟩ :: branches =>
    .cons (Expr.filled_qualify table condition) (Expr.filled_qualify table result)
      (Branch.filledAll_qualify table branches)
termination_by structural branches => branches

/-- Qualifying order keys fills the table in. -/
theorem OrderKey.filledAll_qualify (table : String) : ∀ keys : List OrderKey,
    OrderKey.FilledAll table keys (OrderKey.qualifyAll table keys)
  | [] => .nil
  | ⟨e, direction, nulls⟩ :: keys =>
    .cons direction nulls (Expr.filled_qualify table e) (OrderKey.filledAll_qualify table keys)
termination_by structural keys => keys

end

mutual

/-- There is one way only to fill in a table. -/
theorem Expr.Filled.eq_qualify : ∀ {e e' : Expr}, e.Filled table e' → e' = e.qualify table
  | _, _, .placeholder _ | _, _, .column .. | _, _, .literal _ | _, _, .parameter ..
  | _, _, .subquery _ | _, _, .existence .. | _, _, .wildcard => rfl
  | _, _, .binary op hleft hright => by
    rw [hleft.eq_qualify, hright.eq_qualify, Expr.qualify]
  | _, _, .unary op hoperand => by
    rw [hoperand.eq_qualify, Expr.qualify]
  | _, _, .call name distinct hargs => by
    rw [hargs.eq_qualifyAll, Expr.qualify]
  | _, _, .between negated hsubject hlow hhigh => by
    rw [hsubject.eq_qualify, hlow.eq_qualify, hhigh.eq_qualify, Expr.qualify]
  | _, _, .inList negated hsubject hvalues => by
    rw [hsubject.eq_qualify, hvalues.eq_qualifyAll, Expr.qualify]
  | _, _, .cast type hoperand => by
    rw [hoperand.eq_qualify, Expr.qualify]
  | _, _, .choice hbranches hotherwise => by
    rw [hbranches.eq_qualifyAll, hotherwise.eq_qualifyOption, Expr.qualify]
  | _, _, .window name frame hargs hpartition horder => by
    rw [hargs.eq_qualifyAll, hpartition.eq_qualifyAll, horder.eq_qualifyAll, Expr.qualify]

/-- A list in which the table is filled in is the qualified one. -/
theorem Expr.FilledAll.eq_qualifyAll : ∀ {es es' : List Expr}, Expr.FilledAll table es es' →
    es' = Expr.qualifyAll table es
  | _, _, .nil => rfl
  | _, _, .cons he hes => by
    rw [he.eq_qualify, hes.eq_qualifyAll, Expr.qualifyAll]

/-- What may be missing and has the table filled in is the qualified expression. -/
theorem Expr.FilledOption.eq_qualifyOption : ∀ {e e' : Option Expr},
    Expr.FilledOption table e e' → e' = Expr.qualifyOption table e
  | _, _, .none => rfl
  | _, _, .some he => by
    rw [he.eq_qualify, Expr.qualifyOption]

/-- Branches in which the table is filled in are the qualified ones. -/
theorem Branch.FilledAll.eq_qualifyAll : ∀ {branches branches' : List Branch},
    Branch.FilledAll table branches branches' → branches' = Branch.qualifyAll table branches
  | _, _, .nil => rfl
  | _, _, .cons hcondition hresult hbranches => by
    rw [hcondition.eq_qualify, hresult.eq_qualify, hbranches.eq_qualifyAll, Branch.qualifyAll]

/-- Order keys in which the table is filled in are the qualified ones. -/
theorem OrderKey.FilledAll.eq_qualifyAll : ∀ {keys keys' : List OrderKey},
    OrderKey.FilledAll table keys keys' → keys' = OrderKey.qualifyAll table keys
  | _, _, .nil => rfl
  | _, _, .cons direction nulls he hkeys => by
    rw [he.eq_qualify, hkeys.eq_qualifyAll, OrderKey.qualifyAll]

end

mutual

/-- Where there are no placeholders, there is nothing to fill in. -/
theorem Expr.qualify_eq_self : ∀ {e : Expr}, e.firstPlaceholder? = none → e.qualify table = e
  | .placeholder _, h => by simp [Expr.firstPlaceholder?] at h
  | .column .., _ | .literal _, _ | .parameter .., _ | .subquery _, _ | .existence .., _
  | .wildcard, _ => rfl
  | .binary op left right, h => by
    simp only [Expr.firstPlaceholder?, Option.or_eq_none_iff] at h
    rw [Expr.qualify, Expr.qualify_eq_self h.1, Expr.qualify_eq_self h.2]
  | .unary op operand, h => by
    have hoperand : operand.qualify table = operand := Expr.qualify_eq_self h
    rw [Expr.qualify, hoperand]
  | .call name args distinct, h => by
    rw [Expr.qualify, Expr.qualifyAll_eq_self h]
  | .between subject low high negated, h => by
    simp only [Expr.firstPlaceholder?, Option.or_eq_none_iff] at h
    rw [Expr.qualify, Expr.qualify_eq_self h.1.1, Expr.qualify_eq_self h.1.2,
      Expr.qualify_eq_self h.2]
  | .inList subject values negated, h => by
    simp only [Expr.firstPlaceholder?, Option.or_eq_none_iff] at h
    rw [Expr.qualify, Expr.qualify_eq_self h.1, Expr.qualifyAll_eq_self h.2]
  | .cast operand type, h => by
    have hoperand : operand.qualify table = operand := Expr.qualify_eq_self h
    rw [Expr.qualify, hoperand]
  | .choice branches otherwise, h => by
    simp only [Expr.firstPlaceholder?, Option.or_eq_none_iff] at h
    rw [Expr.qualify, Branch.qualifyAll_eq_self h.1, Expr.qualifyOption_eq_self h.2]
  | .window name args partition order frame, h => by
    simp only [Expr.firstPlaceholder?, Option.or_eq_none_iff] at h
    rw [Expr.qualify, Expr.qualifyAll_eq_self h.1.1, Expr.qualifyAll_eq_self h.1.2,
      OrderKey.qualifyAll_eq_self h.2]
termination_by structural e => e

/-- A list without placeholders is not changed by qualifying. -/
theorem Expr.qualifyAll_eq_self : ∀ {es : List Expr}, Expr.firstPlaceholderIn? es = none →
    Expr.qualifyAll table es = es
  | [], _ => rfl
  | e :: es, h => by
    simp only [Expr.firstPlaceholderIn?, Option.or_eq_none_iff] at h
    rw [Expr.qualifyAll, Expr.qualify_eq_self h.1, Expr.qualifyAll_eq_self h.2]
termination_by structural es => es

/-- What may be missing and has no placeholder is not changed by qualifying. -/
theorem Expr.qualifyOption_eq_self : ∀ {e : Option Expr}, Expr.firstPlaceholderOption? e = none →
    Expr.qualifyOption table e = e
  | none, _ => rfl
  | some e, h => by
    rw [Expr.qualifyOption, Expr.qualify_eq_self h]
termination_by structural e => e

/-- Branches without placeholders are not changed by qualifying. -/
theorem Branch.qualifyAll_eq_self : ∀ {branches : List Branch},
    Branch.firstPlaceholderIn? branches = none → Branch.qualifyAll table branches = branches
  | [], _ => rfl
  | ⟨condition, result⟩ :: branches, h => by
    simp only [Branch.firstPlaceholderIn?, Option.or_eq_none_iff] at h
    rw [Branch.qualifyAll, Expr.qualify_eq_self h.1.1, Expr.qualify_eq_self h.1.2,
      Branch.qualifyAll_eq_self h.2]
termination_by structural branches => branches

/-- Order keys without placeholders are not changed by qualifying. -/
theorem OrderKey.qualifyAll_eq_self : ∀ {keys : List OrderKey},
    OrderKey.firstPlaceholderIn? keys = none → OrderKey.qualifyAll table keys = keys
  | [], _ => rfl
  | ⟨e, direction, nulls⟩ :: keys, h => by
    simp only [OrderKey.firstPlaceholderIn?, Option.or_eq_none_iff] at h
    rw [OrderKey.qualifyAll, Expr.qualify_eq_self h.1, OrderKey.qualifyAll_eq_self h.2]
termination_by structural keys => keys

end

end Replacement

section Text

/-- A stretch of a text that shows an expression: words, or a field of some table. -/
inductive Shown where
  | words (s : String)
  | field (name : String)

namespace Shown

/-- The text of a stretch, fields being shown as columns of the owner. -/
def text (owner : String) : Shown → String
  | words s => s
  | field name => owner ++ "." ++ name

/-- The field that a stretch shows. -/
def field? : Shown → Option String
  | words _ => none
  | field name => some name

/-- The text of a list of stretches. -/
def write (owner : String) (shown : List Shown) : String := String.join (shown.map (text owner))

/-- Stretches are written one after another. -/
theorem write_append (owner : String) (shown shown' : List Shown) :
    write owner (shown ++ shown') = write owner shown ++ write owner shown' := by
  simp [write]

/-- Words are written as they stand, whoever the owner is. -/
theorem write_words (owner s : String) : write owner [words s] = s := by
  simp [write, text]

/-- Parts with a separator between them are written with it between their texts. -/
theorem write_intercalate (owner separator : String) (parts : List (List Shown)) :
    write owner ([words separator].intercalate parts) =
      separator.intercalate (parts.map (write owner)) := by
  induction parts with
  | nil => simp [write]
  | cons part parts ih =>
    cases parts with
    | nil => simp
    | cons part' parts =>
      rw [List.intercalate_cons_cons, write_append, write_append, write_words, ih]
      simp [String.append_assoc]

/-- A separator of words has no field in it. -/
theorem fields_intercalate (separator : String) (parts : List (List Shown)) :
    ([words separator].intercalate parts).filterMap field? = parts.flatten.filterMap field? := by
  induction parts with
  | nil => rfl
  | cons part parts ih =>
    cases parts with
    | nil => simp
    | cons part' parts =>
      rw [List.intercalate_cons_cons, List.filterMap_append, List.filterMap_append, ih]
      simp [field?]

end Shown

/-- A text, what becomes of it when the fields in it are shown as columns of a table, and the names
of these fields. -/
def Displays (text : String) (filled : String → String) (fields : List String) : Prop :=
  ∃ shown : List Shown, text = Shown.write "_" shown ∧
    filled = (fun table => Shown.write table shown) ∧ fields = shown.filterMap Shown.field?

/-- The same for a list of texts. -/
def DisplaysAll (texts : List String) (filled : String → List String) (fields : List String) :
    Prop :=
  ∃ parts : List (List Shown), texts = parts.map (Shown.write "_") ∧
    filled = (fun table => parts.map (Shown.write table)) ∧
    fields = parts.flatten.filterMap Shown.field?

namespace Displays

variable {text text' : String} {filled filled' : String → String} {fields fields' : List String}

/-- Words display no field. -/
theorem words (s : String) : Displays s (fun _ => s) [] :=
  ⟨[.words s], (Shown.write_words _ s).symm, funext fun _ => (Shown.write_words _ s).symm, rfl⟩

/-- A placeholder displays one field. -/
theorem field (name : String) :
    Displays ("_." ++ name) (fun table => table ++ "." ++ name) [name] := by
  refine ⟨[.field name], ?_, funext fun table => ?_, rfl⟩
  · simp [Shown.write, Shown.text]
  · simp [Shown.write, Shown.text]

/-- Two texts display the fields of the first and then those of the second. -/
theorem append (h : Displays text filled fields) (h' : Displays text' filled' fields') :
    Displays (text ++ text') (fun table => filled table ++ filled' table) (fields ++ fields') := by
  obtain ⟨shown, rfl, rfl, rfl⟩ := h
  obtain ⟨shown', rfl, rfl, rfl⟩ := h'
  exact ⟨shown ++ shown', (Shown.write_append _ _ _).symm,
    funext fun _ => (Shown.write_append _ _ _).symm, List.filterMap_append.symm⟩

/-- Words before a text display nothing more. -/
theorem behind (h : Displays text filled fields) (s : String) :
    Displays (s ++ text) (fun table => s ++ filled table) fields :=
  (words s).append h

/-- Words after a text display nothing more. -/
theorem before (h : Displays text filled fields) (s : String) :
    Displays (text ++ s) (fun table => filled table ++ s) fields := by
  have happend := h.append (words s)
  rwa [List.append_nil] at happend

/-- The fields that are displayed may be listed in another form. -/
theorem of_eq (h : Displays text filled fields) (heq : fields' = fields) :
    Displays text filled fields' := heq ▸ h

end Displays

namespace DisplaysAll

variable {texts texts' : List String} {filled filled' : String → List String}
  {fields fields' : List String}

/-- No texts display no fields. -/
theorem nil : DisplaysAll [] (fun _ => []) [] := ⟨[], rfl, rfl, rfl⟩

/-- A text before others displays its fields before theirs. -/
theorem cons {text : String} {filledText : String → String} (h : Displays text filledText fields)
    (h' : DisplaysAll texts filled fields') :
    DisplaysAll (text :: texts) (fun table => filledText table :: filled table)
      (fields ++ fields') := by
  obtain ⟨shown, rfl, rfl, rfl⟩ := h
  obtain ⟨parts, rfl, rfl, rfl⟩ := h'
  exact ⟨shown :: parts, rfl, rfl, List.filterMap_append.symm⟩

/-- Two lists of texts display the fields of the first and then those of the second. -/
theorem append (h : DisplaysAll texts filled fields) (h' : DisplaysAll texts' filled' fields') :
    DisplaysAll (texts ++ texts') (fun table => filled table ++ filled' table)
      (fields ++ fields') := by
  obtain ⟨parts, rfl, rfl, rfl⟩ := h
  obtain ⟨parts', rfl, rfl, rfl⟩ := h'
  refine ⟨parts ++ parts', List.map_append.symm, funext fun _ => List.map_append.symm, ?_⟩
  rw [List.flatten_append, List.filterMap_append]

/-- Texts with a separator of words between them display the fields of the texts. -/
theorem intercalate (h : DisplaysAll texts filled fields) (separator : String) :
    Displays (separator.intercalate texts) (fun table => separator.intercalate (filled table))
      fields := by
  obtain ⟨parts, rfl, rfl, rfl⟩ := h
  exact ⟨[.words separator].intercalate parts, (Shown.write_intercalate _ _ _).symm,
    funext fun _ => (Shown.write_intercalate _ _ _).symm, (Shown.fields_intercalate _ _).symm⟩

/-- A clause of a window call, which is left out if there is nothing to list in it. -/
theorem clause (h : DisplaysAll texts filled fields) (keyword : String) :
    DisplaysAll (if texts.isEmpty then [] else [keyword ++ commaList texts])
      (fun table => if (filled table).isEmpty then [] else [keyword ++ commaList (filled table)])
      fields := by
  have hlisted := (h.intercalate ", ").behind keyword
  obtain ⟨parts, rfl, rfl, rfl⟩ := h
  cases parts with
  | nil => exact nil
  | cons part parts =>
    have hcons := cons hlisted nil
    rwa [List.append_nil] at hcons

/-- The part of a window call between its brackets. -/
theorem displays_over (h : DisplaysAll texts filled fields)
    (h' : DisplaysAll texts' filled' fields') (frame : Option Frame) :
    Displays (describeOver texts texts' frame)
      (fun table => describeOver (filled table) (filled' table) frame) (fields ++ fields') := by
  have hclauses := (h.clause "PARTITION BY ").append (h'.clause "ORDER BY ")
  cases frame with
  | none => exact ((hclauses.append nil).intercalate " ").of_eq (List.append_nil _).symm
  | some frame =>
    have hframe := hclauses.append (cons (.words frame.text) nil)
    exact (hframe.intercalate " ").of_eq (List.append_nil _).symm

end DisplaysAll

/-- A list of values that is no single query is shown between brackets of its own. -/
theorem Expr.describe_inList {subject : Expr} {values : List Expr} {negated : Bool}
    (hquery : ∀ q, values ≠ [.subquery q]) :
    (Expr.inList subject values negated).describe =
      "(" ++ subject.describe ++ " " ++ negation negated ++ "IN (" ++
        commaList (Expr.describeAll values) ++ "))" := by
  rw [Expr.describe]
  exact hquery

/-- Qualifying a list does not make a single query of it. -/
theorem Expr.qualifyAll_ne_subquery {values : List Expr} (hquery : ∀ q, values ≠ [.subquery q])
    (table : String) (q : Query) : Expr.qualifyAll table values ≠ [.subquery q] := by
  intro h
  match values, h with
  | [value], h =>
    cases value with
    | subquery query => exact hquery query rfl
    | _ => simp [Expr.qualifyAll, Expr.qualify] at h
  | [], h | _ :: _ :: _, h => simp [Expr.qualifyAll] at h

mutual

/-- The text of an expression shows its placeholders from left to right, and shows columns in their
place where a table has been filled in. -/
theorem Expr.displays : ∀ e : Expr, Displays e.describe (fun table => (e.qualify table).describe)
    (e.parts.filterMap Expr.placeholder?)
  | .column none name => .words name
  | .column (some owner) name => .words (owner ++ "." ++ name)
  | .placeholder name => .field name
  | .literal value => .words value.describe
  | .parameter _ name => .words (":" ++ name)
  | .subquery query => .words ("(" ++ query.summary ++ ")")
  | .existence query negated => .words (negation negated ++ "EXISTS (" ++ query.summary ++ ")")
  | .wildcard => .words "*"
  | .binary op left right => by
    have hleft := (((left.displays.behind "(").before " ").before op.symbol).before " "
    refine ((hleft.append right.displays).before ")").of_eq ?_
    simp [Expr.parts, List.filterMap_cons, Expr.placeholder?]
  | .unary op operand => by
    have hoperand := operand.displays
    cases op with
    | not => exact (hoperand.behind "(NOT ").before ")"
    | minus => exact (hoperand.behind "(- ").before ")"
    | isNull => exact (hoperand.behind "(").before " IS NULL)"
    | isNotNull => exact (hoperand.behind "(").before " IS NOT NULL)"
  | .call name args distinct =>
    (((Expr.displaysAll args).intercalate ", ").behind _).before ")"
  | .between subject low high negated => by
    have hsubject := (((subject.displays.behind "(").before " ").before
      (negation negated)).before "BETWEEN "
    have hlow := (hsubject.append low.displays).before " AND "
    refine ((hlow.append high.displays).before ")").of_eq ?_
    simp [Expr.parts, List.filterMap_cons, Expr.placeholder?]
  | .inList subject values negated => by
    have hsubject := ((subject.displays.behind "(").before " ").before (negation negated)
    have hvalues := (Expr.displaysAll values).intercalate ", "
    by_cases hquery : ∃ q, values = [.subquery q]
    · obtain ⟨q, rfl⟩ := hquery
      refine (((hsubject.before "IN ").before q.summary).before ")").of_eq ?_
      simp [Expr.parts, Expr.partsAll, List.filterMap_cons, Expr.placeholder?]
    · have hquery := not_exists.mp hquery
      rw [Expr.describe_inList hquery]
      simp only [Expr.qualify, Expr.describe_inList (Expr.qualifyAll_ne_subquery hquery _)]
      refine (((hsubject.before "IN (").append hvalues).before "))").of_eq ?_
      simp [Expr.parts, List.filterMap_cons, Expr.placeholder?]
  | .cast operand type =>
    ((operand.displays.behind "CAST(").before " AS ").before type.label |>.before ")"
  | .choice branches otherwise => by
    have hbranches := (Branch.displaysAll branches).behind "CASE"
    refine ((hbranches.append (Expr.displaysElse otherwise)).before " END").of_eq ?_
    simp [Expr.parts, List.filterMap_cons, Expr.placeholder?]
  | .window name args partition order frame => by
    have hargs := (((Expr.displaysAll args).intercalate ", ").behind (name ++ "(")).before
      ") OVER ("
    have hover := (Expr.displaysAll partition).displays_over (OrderKey.displaysAll order) frame
    refine ((hargs.append hover).before ")").of_eq ?_
    simp [Expr.parts, List.filterMap_cons, Expr.placeholder?]
termination_by structural e => e

/-- The texts of a list of expressions display the placeholders among its parts. -/
theorem Expr.displaysAll : ∀ es : List Expr, DisplaysAll (Expr.describeAll es)
    (fun table => Expr.describeAll (Expr.qualifyAll table es))
    ((Expr.partsAll es).filterMap Expr.placeholder?)
  | [] => .nil
  | e :: es => by
    have hcons := DisplaysAll.cons (Expr.displays e) (Expr.displaysAll es)
    rwa [← List.filterMap_append] at hcons
termination_by structural es => es

/-- The text of an ELSE displays the placeholders among its parts. -/
theorem Expr.displaysElse : ∀ e : Option Expr, Displays (Expr.describeElse e)
    (fun table => Expr.describeElse (Expr.qualifyOption table e))
    ((Expr.partsOption e).filterMap Expr.placeholder?)
  | none => .words ""
  | some e => (Expr.displays e).behind " ELSE "
termination_by structural e => e

/-- The text of branches displays the placeholders among their parts. -/
theorem Branch.displaysAll : ∀ branches : List Branch, Displays (Branch.describeAll branches)
    (fun table => Branch.describeAll (Branch.qualifyAll table branches))
    ((Branch.partsAll branches).filterMap Expr.placeholder?)
  | [] => .words ""
  | ⟨condition, result⟩ :: branches => by
    have hcondition := ((Expr.displays condition).behind " WHEN ").before " THEN "
    refine ((hcondition.append (Expr.displays result)).append
      (Branch.displaysAll branches)).of_eq ?_
    simp [Branch.partsAll]
termination_by structural branches => branches

/-- The texts of order keys display the placeholders among their parts. -/
theorem OrderKey.displaysAll : ∀ keys : List OrderKey, DisplaysAll (OrderKey.describeAll keys)
    (fun table => OrderKey.describeAll (OrderKey.qualifyAll table keys))
    ((OrderKey.partsAll keys).filterMap Expr.placeholder?)
  | [] => .nil
  | ⟨e, direction, nulls⟩ :: keys => by
    have hkey := (Expr.displays e).before (describeOrder direction nulls)
    have hcons := DisplaysAll.cons hkey (OrderKey.displaysAll keys)
    rwa [← List.filterMap_append] at hcons
termination_by structural keys => keys

end

/-- The stretches that the text of an expression is made of, which the text of the same expression
with a table filled in is made of, too. -/
def Expr.ShownAs (e : Expr) (shown : List Shown) : Prop :=
  e.describe = Shown.write "_" shown ∧
    ∀ table e', e.Filled table e' → e'.describe = Shown.write table shown

/-- The text of every expression is made of stretches whose fields are the placeholders of the
expression, in their order. -/
theorem Expr.exists_shownAs (e : Expr) : ∃ shown, e.ShownAs shown ∧
    shown.filterMap Shown.field? = e.parts.filterMap Expr.placeholder? := by
  obtain ⟨shown, htext, hfilled, hfields⟩ := e.displays
  refine ⟨shown, ⟨htext, fun table e' he' => ?_⟩, hfields.symm⟩
  rw [he'.eq_qualify]
  exact congrFun hfilled table

end Text

section Resolving

/-- There is no first placeholder exactly if none is among the parts. -/
theorem Expr.firstPlaceholder?_eq_none_iff {e : Expr} :
    e.firstPlaceholder? = none ↔ ∀ name, Expr.placeholder name ∉ e.parts := by
  rw [Expr.firstPlaceholder?_eq, List.findSome?_eq_none_iff]
  constructor
  · intro h name hmem
    have hnone := h _ hmem
    simp [Expr.placeholder?] at hnone
  · intro h part hmem
    cases part with
    | placeholder name => exact absurd hmem (h name)
    | _ => rfl

/-- The first placeholder is one of the parts. -/
theorem Expr.mem_parts_of_firstPlaceholder? {e : Expr} {name : String}
    (h : e.firstPlaceholder? = some name) : Expr.placeholder name ∈ e.parts := by
  rw [Expr.firstPlaceholder?_eq] at h
  obtain ⟨part, hmem, hpart⟩ := List.exists_of_findSome?_eq_some h
  cases part with
  | placeholder name' =>
    cases hpart
    exact hmem
  | _ => simp [Expr.placeholder?] at hpart

/-- A qualified expression has no placeholder. -/
theorem Expr.firstPlaceholder?_qualify (table : String) (e : Expr) :
    (e.qualify table).firstPlaceholder? = none := by
  have hresolve : e.resolve (.table table) = .ok (e.qualify table) := rfl
  rw [Expr.firstPlaceholder?_eq, List.findSome?_eq_none_iff]
  exact Expr.placeholder?_of_resolve hresolve

/-- Without placeholders, an expression is resolved to itself in any scope. -/
theorem Expr.resolve_eq_self {e : Expr} (h : e.firstPlaceholder? = none) (scope : Scope) :
    e.resolve scope = .ok e := by
  cases scope with
  | table table => rw [Expr.resolve, Expr.qualify_eq_self h]
  | ambiguous reason => simp [Expr.resolve, h]

/-- In an ambiguous scope, an expression is resolved to itself or refused for its first
placeholder. -/
theorem Expr.resolve_ambiguous (e : Expr) (reason : String) :
    e.resolve (.ambiguous reason) = (e.firstPlaceholder?).elim (.ok e)
      fun name => .error (.resolution e name (.ambiguous reason)) := by
  cases h : e.firstPlaceholder? with
  | none => simp [Expr.resolve, h]
  | some name => simp [Expr.resolve, h]

/-- Resolving an expression for a table fills in the table and nothing else. The result has no
placeholders left, is kept by any further resolving, and is the expression itself only if that had
no placeholders. Where there is no single table, exactly the expressions without placeholders are
kept, and the placeholder that is reported for another is the first one that its text shows. -/
theorem resolve_fills (e : Expr) :
    (∀ table, ∃ e', e.resolve (.table table) = .ok e' ∧
      (∀ x, e.Filled table x ↔ x = e') ∧
      (∀ name, .placeholder name ∉ e'.parts) ∧
      (∀ scope, e'.resolve scope = .ok e') ∧
      (e' = e ↔ e.firstPlaceholder? = none)) ∧
    ∃ shown, e.ShownAs shown ∧
      shown.filterMap Shown.field? = e.parts.filterMap Expr.placeholder? ∧
      ∀ reason, e.resolve (.ambiguous reason) = (shown.findSome? Shown.field?).elim (.ok e)
          (fun name => .error (.resolution e name (.ambiguous reason))) ∧
        ((∃ error, e.resolve (.ambiguous reason) = .error error) ↔
          ∃ name, .placeholder name ∈ e.parts) := by
  constructor
  · intro table
    have hnone := e.firstPlaceholder?_qualify table
    refine ⟨e.qualify table, rfl, fun x => ⟨fun hx => hx.eq_qualify, ?_⟩,
      Expr.firstPlaceholder?_eq_none_iff.mp hnone, Expr.resolve_eq_self hnone, ?_, ?_⟩
    · rintro rfl
      exact Expr.filled_qualify table e
    · intro heq
      rwa [heq] at hnone
    · exact Expr.qualify_eq_self
  · obtain ⟨shown, hshown, hfields⟩ := e.exists_shownAs
    have hfirst : shown.findSome? Shown.field? = e.firstPlaceholder? := by
      rw [Expr.firstPlaceholder?_eq, ← List.head?_filterMap, hfields, List.head?_filterMap]
    refine ⟨shown, hshown, hfields, fun reason => ?_⟩
    rw [hfirst, Expr.resolve_ambiguous]
    refine ⟨rfl, ?_⟩
    cases hname : e.firstPlaceholder? with
    | none =>
      have hnone := Expr.firstPlaceholder?_eq_none_iff.mp hname
      simp [hnone]
    | some name =>
      have hmem := Expr.mem_parts_of_firstPlaceholder? hname
      exact ⟨fun _ => ⟨name, hmem⟩, fun _ => ⟨_, rfl⟩⟩

end Resolving

end SqlAlgebra
