import Mathlib.Data.List.Induction
import SqlAlgebra.Dialect.Profile
import SqlAlgebra.Proofs.Unbroken

/-!
# Set operations keep their grouping

Databases differ in which set operator binds tighter. The text of a set operation does not depend on
it: outside of brackets it has one operator only, as often as the operation goes on at its left, and
every operand is a single SELECT. Such a text can be read as one tree only, and that is the tree it
was written for.
-/

namespace SqlAlgebra

open Token

/-- How the operands and the operators of a text are grouped. -/
inductive SetTree (α : Type) where
  | operand (a : α)
  | node (op : SetOperator) (all : Bool) (left right : SetTree α)

namespace SetTree

variable {α : Type} {op : SetOperator} {all : Bool}

/-- The operands from left to right. -/
def operands : SetTree α → List α
  | operand a => [a]
  | node _ _ left right => left.operands ++ right.operands

/-- The operators from left to right. -/
def operators : SetTree α → List (SetOperator × Bool)
  | operand _ => []
  | node op all left right => left.operators ++ (op, all) :: right.operators

/-- The operator that is applied last. -/
def last? : SetTree α → Option SetOperator
  | operand _ => none
  | node op _ _ _ => some op

/-- The tree is how a text is read where operators of higher precedence bind tighter and those of
the same precedence from the left. -/
def Respects (prec : SetOperator → Nat) : SetTree α → Prop
  | operand _ => True
  | node op _ left right =>
    (∀ op' ∈ left.last?, prec op ≤ prec op') ∧ (∀ op' ∈ right.last?, prec op < prec op') ∧
      left.Respects prec ∧ right.Respects prec

/-- The statement that a tree of statements stands for. -/
def statement : SetTree Statement → Statement
  | operand s => s
  | node op all left right => .setOperation op all left.statement right.statement

/-- The tree that is grouped from the left. -/
def chain (op : SetOperator) (all : Bool) (first : α) (rest : List α) : SetTree α :=
  rest.foldl (fun t a => node op all t (operand a)) (operand first)

/-- A last operand is combined with all before it. -/
theorem chain_append_singleton (first : α) (rest : List α) (a : α) :
    chain op all first (rest ++ [a]) = node op all (chain op all first rest) (operand a) := by
  simp [chain]

/-- A chain has its operands in their order. -/
theorem operands_chain (first : α) (rest : List α) :
    (chain op all first rest).operands = first :: rest := by
  induction rest using List.reverseRecOn with
  | nil => rfl
  | append_singleton rest a ih => simp [chain_append_singleton, operands, ih]

/-- All operators of a chain are the same. -/
theorem operators_chain (first : α) (rest : List α) :
    (chain op all first rest).operators = rest.map fun _ => (op, all) := by
  induction rest using List.reverseRecOn with
  | nil => rfl
  | append_singleton rest a ih => simp [chain_append_singleton, operators, ih]

/-- The operator of a chain that is applied last, if there is one, is its only one. -/
theorem last?_chain (first : α) (rest : List α) :
    ∀ op' ∈ (chain op all first rest).last?, op' = op := by
  cases rest using List.reverseRecOn with
  | nil => simp [chain, last?]
  | append_singleton rest a => simp [chain_append_singleton, last?]

/-- A chain is a reading, whatever the precedences. -/
theorem respects_chain (prec : SetOperator → Nat) (first : α) (rest : List α) :
    (chain op all first rest).Respects prec := by
  induction rest using List.reverseRecOn with
  | nil => trivial
  | append_singleton rest a ih =>
    rw [chain_append_singleton]
    refine ⟨fun op' hop' => ?_, nofun, ih, trivial⟩
    rw [last?_chain first rest op' hop']

/-- Where all operators are the same, every precedence groups from the left. -/
theorem eq_chain_of_respects {prec : SetOperator → Nat} {t : SetTree α} (h : t.Respects prec)
    (hops : ∀ o ∈ t.operators, o = (op, all)) :
    ∃ first rest, t.operands = first :: rest ∧ t = chain op all first rest := by
  induction t with
  | operand a => exact ⟨a, [], rfl, rfl⟩
  | node op' all' left right ihleft _ =>
    obtain ⟨-, hright, hl, -⟩ := h
    simp only [operators, List.forall_mem_append, List.forall_mem_cons] at hops
    obtain ⟨hleftOps, hop, hrightOps⟩ := hops
    cases hop
    cases right with
    | operand a =>
      obtain ⟨first, rest, hoperands, rfl⟩ := ihleft hl hleftOps
      refine ⟨first, rest ++ [a], ?_, (chain_append_singleton first rest a).symm⟩
      simp [operands, hoperands]
    | node op' all' left' right' =>
      -- a second operator at the right would have to bind tighter than itself
      have hsame : (op', all') = (op, all) := hrightOps _ (by simp [operators])
      have hless : prec op < prec op' := hright op' rfl
      rw [(Prod.mk.inj hsame).1] at hless
      exact absurd hless (Nat.lt_irrefl _)

/-- With one operator there is one reading, whatever the precedences: the chain. -/
theorem respects_iff_eq_chain (prec : SetOperator → Nat) (first : α) (rest : List α)
    (t : SetTree α) :
    (t.Respects prec ∧ t.operands = first :: rest ∧ t.operators = rest.map fun _ => (op, all)) ↔
      t = chain op all first rest := by
  constructor
  · rintro ⟨hrespects, hoperands, hoperators⟩
    have hops : ∀ o ∈ t.operators, o = (op, all) := by simp [hoperators]
    obtain ⟨first', rest', hoperands', heq⟩ := eq_chain_of_respects hrespects hops
    rw [hoperands'] at hoperands
    obtain ⟨rfl, rfl⟩ := List.cons.inj hoperands
    exact heq
  · rintro rfl
    exact ⟨respects_chain prec first rest, operands_chain first rest, operators_chain first rest⟩

/-- A chain stands for a statement that is grouped from the left. -/
theorem statement_chain (first : Statement) (rest : List Statement) :
    (chain op all first rest).statement = rest.foldl (Statement.setOperation op all) first := by
  induction rest using List.reverseRecOn with
  | nil => rfl
  | append_singleton rest s ih => simp [chain_append_singleton, statement, ih]

end SetTree

/-- How an operand of a set operation is written: a SELECT without order and paging as it is, and
anything else in a derived table. -/
def Statement.StandsAs (d : Dialect) (nested : Query → Rendered) (s : Statement)
    (x : List Token) : Prop :=
  ∃ ts, s.render d nested = .ok ts ∧
    ((∃ block, s = .select block ∧ block.paged = false ∧ x = ts) ∨
      (∀ block, s = .select block → block.paged = true) ∧
        x = .text "SELECT * FROM " :: derived ts "t")

section Writing

variable {d : Dialect}

/-- A statement that is not part of the operation around it is written as an operand. -/
theorem Statement.standsAs_operand {nested : Query → Rendered} {s : Statement} {ts : List Token}
    (chain : Option (SetOperator × Bool)) (hts : s.render d nested = .ok ts)
    (hchain : ∀ op all left right, s = .setOperation op all left right →
      chain ≠ some (op, all)) :
    s.StandsAs d nested (operand (s.isFlat chain) ts) := by
  refine ⟨ts, hts, ?_⟩
  cases s with
  | select block =>
    cases hpaged : block.paged with
    | false =>
      left
      exact ⟨block, rfl, hpaged, by simp [isFlat, operand, hpaged]⟩
    | true =>
      right
      refine ⟨fun block' hblock => ?_, by simp [isFlat, operand, hpaged]⟩
      cases hblock
      exact hpaged
  | setOperation op all left right =>
    have hother := hchain op all left right rfl
    right
    exact ⟨nofun, by simp [isFlat, operand, hother]⟩
  | withCtes | insert | update | delete =>
    right
    exact ⟨nofun, rfl⟩

/-- Operands with the words of an operator between them. -/
def SetOperator.join (op : SetOperator) (all : Bool) (first : List Token)
    (rest : List (List Token)) : List Token :=
  first ++ rest.flatMap fun x => .text (op.words all) :: x

/-- A first operand without others is written as it stands. -/
theorem SetOperator.join_nil (op : SetOperator) (all : Bool) (first : List Token) :
    op.join all first [] = first := by
  simp [SetOperator.join]

/-- The left operand of an operation is written as a chain of operands, of which it is the only one
unless it is an operation of the same kind. -/
theorem Statement.exists_join (op : SetOperator) (all : Bool) {nested : Query → Rendered} :
    ∀ {s : Statement} {ts : List Token}, s.render d nested = .ok ts →
    ∃ (first : Statement × List Token) (rest : List (Statement × List Token)),
      (rest.map Prod.fst).foldl (Statement.setOperation op all) first.1 = s ∧
      operand (s.isFlat (some (op, all))) ts = op.join all first.2 (rest.map Prod.snd) ∧
      ∀ o ∈ first :: rest, o.1.StandsAs d nested o.2
  | .setOperation op' all' left right, ts, hts => by
    by_cases hsame : (op', all') = (op, all)
    · cases hsame
      simp only [Statement.render, bind_eq_ok, pure_eq_ok] at hts
      obtain ⟨leftTokens, hleft, rightTokens, hright, rfl⟩ := hts
      obtain ⟨first, rest, hfold, hjoin, hstands⟩ := Statement.exists_join op all hleft
      have hoperand : right.StandsAs d nested (operand (right.isFlat none) rightTokens) :=
        Statement.standsAs_operand none hright (by simp)
      refine ⟨first, rest ++ [(right, operand (right.isFlat none) rightTokens)], ?_, ?_, ?_⟩
      · simp [hfold]
      · have hflat : (Statement.setOperation op all left right).isFlat (some (op, all)) = true := by
          simp [Statement.isFlat]
        rw [hflat, operand, if_pos rfl, hjoin]
        simp [SetOperator.join, SetOperator.words]
      · rw [← List.cons_append, List.forall_mem_append]
        exact ⟨hstands, List.forall_mem_singleton.mpr hoperand⟩
    · have hoperand := Statement.standsAs_operand (some (op, all)) hts (by
        rintro op'' all'' _ _ heq hchain
        cases heq
        cases hchain
        exact hsame rfl)
      exact ⟨(_, _), [], rfl, (op.join_nil all _).symm, List.forall_mem_singleton.mpr hoperand⟩
  | .select _, ts, hts | .withCtes .., ts, hts | .insert _, ts, hts | .update _, ts, hts
  | .delete _, ts, hts => by
    have hoperand := Statement.standsAs_operand (some (op, all)) hts (by simp)
    exact ⟨(_, _), [], rfl, (op.join_nil all _).symm, List.forall_mem_singleton.mpr hoperand⟩
termination_by structural s => s

/-- The text of a SELECT starts one. -/
theorem Block.opensSelect_render {nested : Query → Rendered} {b : Block} {ts : List Token}
    (h : b.render d nested = .ok ts) (rest : List Token) : opensSelect (ts ++ rest) = true := by
  obtain ⟨origin, joins, filters, groupBy, having, projection, distinct, orderBy, limit, offset⟩ :=
    b
  cases projection <;>
  · simp only [Block.render, bind_eq_ok, pure_eq_ok] at h
    obtain ⟨_, -, _, -, _, -, _, -, _, -, _, -, _, -, _, -, rfl⟩ := h
    cases distinct <;> rfl

/-- An operand is a single SELECT, with no set operator outside of brackets. -/
theorem Statement.StandsAs.unbroken {nested : Query → Rendered}
    (hnested : ∀ q, Ends Balanced (fun _ => True) (nested q)) {s : Statement} {x : List Token}
    (h : s.StandsAs d nested x) :
    Unbroken x ∧ ∀ rest, opensSelect (x ++ rest) = true := by
  obtain ⟨ts, hts, ⟨block, rfl, -, rfl⟩ | ⟨-, rfl⟩⟩ := h
  · have hblock := Block.ends_render (fun _ _ => trivial)
      fun e (_ : e ∈ block.exprs) => Expr.unbroken_render (d := d) hnested e
    exact ⟨hblock.yields _ hts, Block.opensSelect_render hts⟩
  · have hderived := (trails_derived (Statement.balanced_render hnested hts) "t").toUnbroken
    exact ⟨hderived.text_cons (by decide), fun _ => rfl⟩

/-- No SELECT starts with the words of a set operator. -/
theorem Token.opensSelect_words (op : SetOperator) (all : Bool) (ts : List Token) :
    opensSelect (.text (op.words all) :: ts) = false := by
  cases op <;> cases all <;> rfl

/-- A chain of operands is cut into them. -/
theorem SetOperator.cut_join (op : SetOperator) (all : Bool) {first : List Token}
    {rest : List (List Token)} (hfirst : Unbroken first)
    (hrest : ∀ x ∈ rest, Unbroken x ∧ ∀ ts, opensSelect (x ++ ts) = true) :
    cut setOperator? 0 (op.join all first rest) = ⟨first, rest.map ((op, all), ·)⟩ := by
  induction rest generalizing first with
  | nil =>
    have hcut := hfirst.cut_append [] rfl
    rw [SetOperator.join, List.flatMap_nil, hcut]
    simp [Cut.prepend]
  | cons x rest ih =>
    rw [List.forall_mem_cons] at hrest
    have hjoin : op.join all first (x :: rest) =
        first ++ .text (op.words all) :: op.join all x rest := by
      simp [SetOperator.join]
    have hnext : opensSelect (op.join all x rest) = true := hrest.1.2 _
    have hoperator : setOperator? (.text (op.words all) :: op.join all x rest) =
        some (op, all) := by
      simp [setOperator?, text, hnext, SetOperator.ofWords?_words]
    rw [hjoin, hfirst.cut_append _ (opensSelect_words op all _), cut_separator rfl hoperator,
      ih hrest.1.1 hrest.2]
    simp [Cut.prepend, Cut.start]

end Writing

/-- The text of a set operation, cut at the set operators outside of its brackets, has one operator
only. Its parts are single SELECTs, which stand for the operands that make up the operation when
they are folded from the left, and under any precedence the text is read as this operation. -/
theorem cut_setOperation {d : Dialect} {limit : Nat} {op : SetOperator} {all : Bool}
    {left right : Statement} {ts : List Token}
    (hts : (Statement.setOperation op all left right).render d (Query.renderRows d limit) =
      .ok ts) :
    ∃ (first : Statement × List Token) (rest : List (Statement × List Token)),
      cut setOperator? 0 ts = ⟨first.2, rest.map fun operand => ((op, all), operand.2)⟩ ∧
      (rest.map Prod.fst).foldl (Statement.setOperation op all) first.1 =
        .setOperation op all left right ∧
      (∀ operand ∈ first :: rest, operand.1.StandsAs d (Query.renderRows d limit) operand.2 ∧
        cut setOperator? 0 operand.2 = ⟨operand.2, []⟩) ∧
      ∀ prec : SetOperator → Nat, ∃ t : SetTree Statement,
        t.statement = .setOperation op all left right ∧
        ∀ t' : SetTree Statement,
          (t'.Respects prec ∧ t'.operands = first.1 :: rest.map Prod.fst ∧
            t'.operators = rest.map fun _ => (op, all)) ↔ t' = t := by
  obtain ⟨first, rest, hfold, hjoin, hstands⟩ := Statement.exists_join op all hts
  have hflat : (Statement.setOperation op all left right).isFlat (some (op, all)) = true := by
    simp [Statement.isFlat]
  rw [hflat, operand, if_pos rfl] at hjoin
  have hunbroken := fun o ho => (hstands o ho).unbroken (Query.balanced_renderRows d limit)
  rw [List.forall_mem_cons] at hunbroken
  refine ⟨first, rest, ?_, hfold, fun o ho => ⟨hstands o ho, ?_⟩, fun prec => ?_⟩
  · rw [hjoin, SetOperator.cut_join op all hunbroken.1.1 (List.forall_mem_map.mpr hunbroken.2),
      List.map_map]
    rfl
  · have hcut := ((hstands o ho).unbroken (Query.balanced_renderRows d limit)).1.cut_append [] rfl
    simpa [Cut.prepend] using hcut
  · refine ⟨.chain op all first.1 (rest.map Prod.fst), ?_, fun t' => ?_⟩
    · rw [SetTree.statement_chain, hfold]
    · rw [← SetTree.respects_iff_eq_chain prec, List.map_map]
      rfl

/-- A difference whose right side is one too, and whose left side has an operand with a limit. -/
def Statement.differences : Statement :=
  let table (name : String) : Statement := .select (.ofOrigin (.table name))
  let first : Statement :=
    .select { Block.ofOrigin (.table "a") with limit := some (.literal (.int 1)) }
  .setOperation .except false (.setOperation .except false first (table "b"))
    (.setOperation .except false (table "c") (table "d"))

/-- The difference is cut into three operands, the last of which holds the other difference in
brackets. -/
theorem cut_setOperation_differences : ∃ (ts : List Token) (first : Statement × List Token)
    (rest : List (Statement × List Token)),
    Statement.differences.render Profile.sqlite.dialect
      (Query.renderRows Profile.sqlite.dialect 0) = .ok ts ∧
    cut setOperator? 0 ts = ⟨first.2, rest.map fun operand => ((.except, false), operand.2)⟩ ∧
    rest.length = 2 ∧
    (rest.map Prod.fst).foldl (Statement.setOperation .except false) first.1 =
      Statement.differences := by
  have hts : Statement.differences.render Profile.sqlite.dialect
      (Query.renderRows Profile.sqlite.dialect 0) = .ok _ := rfl
  obtain ⟨first, rest, hcut, hfold, -⟩ := cut_setOperation hts
  refine ⟨_, first, rest, hts, hcut, ?_, hfold⟩
  have hlength := congrArg (fun c => c.rest.length) hcut
  rw [List.length_map] at hlength
  exact hlength.symm.trans rfl

end SqlAlgebra
