import SqlAlgebra.Proofs.Additions

/-!
# Which stages may follow which

The form of a statement is what decides which stages it still takes: whether it gives rows or
modifies data, and in the second case which of its parts are there. A stage takes a statement of one
form to one of another, and which form that is can be told from the kinds of the stages alone.
-/

namespace SqlAlgebra

/-- What a statement gives, and which parts of a modification are there. -/
inductive Form where
  | rows
  | insert (source upsert returning : Bool)
  | update (assigned filtered returning : Bool)
  | delete (returning : Bool)
deriving DecidableEq

namespace Form

/-- The form after a stage of some kind, if there can be such a stage. -/
def advance : Form → QueryKind → Option Form
  | rows, k => if k.isRowStage then some rows else none
  | insert false upsert false, .values => some (insert true upsert false)
  | insert false upsert false, .insertSelect => some (insert true upsert false)
  | insert true false false, .onConflict => some (insert true true false)
  | insert source upsert false, .returning => some (insert source upsert true)
  | update _ false false, .set => some (update true false false)
  | update assigned _ false, .updateWhere => some (update assigned true false)
  | update assigned filtered false, .returning => some (update assigned filtered true)
  | delete false, .deleteWhere => some (delete false)
  | delete false, .returning => some (delete true)
  | _, _ => none

/-- The statement can be written: an insertion has rows to insert, and an update changes
something. -/
def isComplete : Form → Bool
  | rows => true
  | insert source _ _ => source
  | update assigned _ _ => assigned
  | delete _ => true

end Form

/-- Stages keep to rows or to modifications. -/
theorem Form.eq_rows_iff_of_advance {f f' : Form} {kind : QueryKind}
    (h : f.advance kind = some f') : f' = .rows ↔ f = .rows := by
  unfold Form.advance at h
  split at h <;> grind

/-- The form of a statement. -/
def Statement.form : Statement → Form
  | .select _ | .setOperation .. | .withCtes .. => .rows
  | .insert i => .insert i.source.isSome i.upsert.isSome i.returning.isSome
  | .update u => .update (!u.assignments.isEmpty) (!u.filters.isEmpty) u.returning.isSome
  | .delete x => .delete x.returning.isSome

/-- The form of the statement for a query, found from the kinds of its stages. -/
def Query.form? : Query → Option Form
  | .table _ | .setOperation .. | .withCtes .. => some .rows
  | .insertInto .. => some (.insert false false false)
  | .update _ => some (.update false false false)
  | .deleteFrom _ => some (.delete false)
  | .step source stage => source.form?.bind (·.advance stage.kind)

/-- The query starts from rows: a table, a set operation or a WITH. -/
def Query.startsWithRows : Query → Bool
  | .table _ | .setOperation .. | .withCtes .. => true
  | .insertInto .. | .update _ | .deleteFrom _ => false
  | .step source _ => source.startsWithRows

/-- The statements that are not modifications have the form of rows. -/
theorem Statement.form_eq_rows {s : Statement} : s.form = .rows ↔ s.isModification = false := by
  cases s <;> simp [form, isModification]

namespace Source

variable {source : Source} {stage : QueryKind}

/-- A stage finds an INSERT below itself only if nothing has been returned from it. -/
theorem insert_eq_ok {i : Insert} :
    source.insert stage = .ok i ↔ source.statement = .ok (.insert i) ∧ i.returning = none := by
  unfold Source.insert
  rw [bind_eq_ok]
  constructor
  · rintro ⟨s, hs, h⟩
    cases s with
    | insert i' =>
      cases hr : i'.returning <;> simp_all
    | _ => cases h
  · rintro ⟨hs, hr⟩
    exact ⟨_, hs, by simp [hr]⟩

/-- A stage finds an UPDATE below itself only if nothing has been returned from it. -/
theorem update_eq_ok {u : Update} :
    source.update stage = .ok u ↔ source.statement = .ok (.update u) ∧ u.returning = none := by
  unfold Source.update
  rw [bind_eq_ok]
  constructor
  · rintro ⟨s, hs, h⟩
    cases s with
    | update u' =>
      cases hr : u'.returning <;> simp_all
    | _ => cases h
  · rintro ⟨hs, hr⟩
    exact ⟨_, hs, by simp [hr]⟩

/-- A stage finds a DELETE below itself only if nothing has been returned from it. -/
theorem delete_eq_ok {x : Delete} :
    source.delete stage = .ok x ↔ source.statement = .ok (.delete x) ∧ x.returning = none := by
  unfold Source.delete
  rw [bind_eq_ok]
  constructor
  · rintro ⟨s, hs, h⟩
    cases s with
    | delete x' =>
      cases hr : x'.returning <;> simp_all
    | _ => cases h
  · rintro ⟨hs, hr⟩
    exact ⟨_, hs, by simp [hr]⟩

end Source

/-- What is required of a dialect must be supported. -/
theorem Dialect.require_eq_ok {d : Dialect} {c : Capability} {u : Unit} :
    d.require c = .ok u ↔ d.supports c = true := by
  unfold Dialect.require
  cases d.supports c <;> simp

/-- A statement is read for its rows unless it modifies data. -/
theorem Statement.asRows_eq_ok {kind : QueryKind} {s s' : Statement} :
    s.asRows kind = .ok s' ↔ s = s' ∧ s.form = .rows := by
  rw [form_eq_rows, asRows]
  cases s.isModification <;> simp

/-- A query is lowered for its rows if it is lowered to something that has rows. -/
theorem Query.lowerRows_eq_ok {d : Dialect} {q : Query} {s : Statement} :
    q.lowerRows d = .ok s ↔ q.lower d = .ok s ∧ s.form = .rows := by
  simp only [Query.lowerRows, bind_eq_ok, Statement.asRows_eq_ok]
  constructor
  · rintro ⟨s', hs', rfl, hform⟩
    exact ⟨hs', hform⟩
  · rintro ⟨hs, hform⟩
    exact ⟨s, hs, rfl, hform⟩

/-- Only a modification that returns nothing yet takes items to return. -/
theorem Statement.addReturning_eq_ok {items : List SelectItem} {kind : QueryKind}
    {s s' : Statement} :
    s.addReturning items kind = .ok s' ↔
      (∃ i, s = .insert i ∧ i.returning = none ∧
        s' = .insert { i with returning := some items }) ∨
      (∃ u, s = .update u ∧ u.returning = none ∧
        s' = .update { u with returning := some items }) ∨
      (∃ x, s = .delete x ∧ x.returning = none ∧
        s' = .delete { x with returning := some items }) := by
  cases s with
  | insert i => cases hr : i.returning <;> simp [addReturning, hr, eq_comm]
  | update u => cases hr : u.returning <;> simp [addReturning, hr, eq_comm]
  | delete x => cases hr : x.returning <;> simp [addReturning, hr, eq_comm]
  | _ => simp [addReturning]

namespace Stage

variable {d : Dialect} {scope : Scope} {source : Source} {s : Statement}

/-- Rows are lowered into an INSERT that has none yet, after they have been checked. -/
theorem lower_values {rows : List (List Expr)} :
    (Stage.values rows).lower d scope source = .ok s ↔
      ∃ i rows', source.statement = .ok (.insert i) ∧ i.returning = none ∧ i.source = none ∧
        i.checkRows rows = .ok () ∧ scope.resolveRows rows = .ok rows' ∧
        s = .insert { i with source := some (.values rows') } := by
  simp only [Stage.lower, bind_eq_ok, Source.insert_eq_ok]
  constructor
  · rintro ⟨i, ⟨hs, hr⟩, h⟩
    cases hsource : i.source with
    | some _ => simp [hsource] at h
    | none =>
      simp only [hsource, Option.isSome_none, Bool.false_eq_true, if_false, bind_eq_ok,
        pure_eq_ok] at h
      obtain ⟨_, hcheck, rows', hrows, rfl⟩ := h
      exact ⟨i, rows', hs, hr, hsource, hcheck, hrows, rfl⟩
  · rintro ⟨i, rows', hs, hr, hsource, hcheck, hrows, rfl⟩
    refine ⟨i, ⟨hs, hr⟩, ?_⟩
    simp [hsource, hcheck, hrows, pure, Except.pure]

/-- A query is lowered into an INSERT that has no rows yet. -/
theorem lower_insertSelect {rows : Query} :
    (Stage.insertSelect rows).lower d scope source = .ok s ↔
      ∃ i body, source.statement = .ok (.insert i) ∧ i.returning = none ∧ i.source = none ∧
        rows.lowerRows d = .ok body ∧ s = .insert { i with source := some (.select body) } := by
  simp only [Stage.lower, bind_eq_ok, Source.insert_eq_ok]
  constructor
  · rintro ⟨i, ⟨hs, hr⟩, h⟩
    cases hsource : i.source with
    | some _ => simp [hsource] at h
    | none =>
      simp only [hsource, Option.isSome_none, Bool.false_eq_true, if_false, bind_eq_ok,
        pure_eq_ok] at h
      obtain ⟨body, hbody, body', hrows, rfl⟩ := h
      exact ⟨i, body', hs, hr, hsource, bind_eq_ok.mpr ⟨body, hbody, hrows⟩, rfl⟩
  · rintro ⟨i, body, hs, hr, hsource, hrows, rfl⟩
    obtain ⟨body', hbody', hrows⟩ := bind_eq_ok.mp hrows
    refine ⟨i, ⟨hs, hr⟩, ?_⟩
    simp [hsource, hbody', hrows, pure, Except.pure]

/-- What happens upon a conflict is lowered into an INSERT that has its rows and no such rule. -/
theorem lower_onConflict {target : List String} {action : ConflictAction} :
    (Stage.onConflict target action).lower d scope source = .ok s ↔
      d.supports .upsert = true ∧
      ∃ i action', source.statement = .ok (.insert i) ∧ i.returning = none ∧
        i.source.isSome = true ∧ i.upsert = none ∧ action.resolve scope = .ok action' ∧
        s = .insert (Insert.guardJoin d { i with upsert := some ⟨target, action'⟩ }) := by
  simp only [Stage.lower, bind_eq_ok, Dialect.require_eq_ok, Source.insert_eq_ok]
  constructor
  · rintro ⟨_, hd, i, ⟨hs, hr⟩, h⟩
    cases hsource : i.source with
    | none => simp [hsource] at h
    | some src =>
      cases hupsert : i.upsert with
      | some _ => simp [hupsert] at h
      | none =>
        simp only [hsource, hupsert, Option.isNone_some, Option.isSome_none, Bool.or_self,
          Bool.false_eq_true, if_false, bind_eq_ok, pure_eq_ok] at h
        obtain ⟨action', haction, rfl⟩ := h
        exact ⟨hd, i, action', hs, hr, by simp [hsource], hupsert, haction, by simp [hsource]⟩
  · rintro ⟨hd, i, action', hs, hr, hsource, hupsert, haction, rfl⟩
    refine ⟨(), hd, i, ⟨hs, hr⟩, ?_⟩
    obtain ⟨src, hsrc⟩ := Option.isSome_iff_exists.mp hsource
    simp [hsrc, hupsert, haction, pure, Except.pure]

/-- Assignments are lowered into an UPDATE that has no conditions yet. -/
theorem lower_set {assignments : List Assignment} :
    (Stage.set assignments).lower d scope source = .ok s ↔
      assignments ≠ [] ∧
      ∃ u assignments', source.statement = .ok (.update u) ∧ u.returning = none ∧
        u.filters = [] ∧ scope.resolveAssignments assignments = .ok assignments' ∧
        s = .update { u with assignments := u.assignments ++ assignments' } := by
  cases assignments with
  | nil => simp [Stage.lower]
  | cons a assignments =>
    simp only [Stage.lower, List.isEmpty_cons, Bool.false_eq_true, if_false, bind_eq_ok,
      Source.update_eq_ok]
    constructor
    · rintro ⟨assignments', hassignments, u, ⟨hs, hr⟩, h⟩
      cases hfilters : u.filters with
      | cons _ _ => simp [hfilters] at h
      | nil =>
        simp only [hfilters, List.isEmpty_nil, if_true, pure_eq_ok] at h
        subst h
        exact ⟨by simp, u, assignments', hs, hr, hfilters, hassignments, by simp [hfilters]⟩
    · rintro ⟨-, u, assignments', hs, hr, hfilters, hassignments, rfl⟩
      exact ⟨assignments', hassignments, u, ⟨hs, hr⟩, by simp [hfilters, pure, Except.pure]⟩

/-- A condition is lowered into an UPDATE. -/
theorem lower_updateWhere {predicate : Expr} :
    (Stage.updateWhere predicate).lower d scope source = .ok s ↔
      ∃ u predicate', source.statement = .ok (.update u) ∧ u.returning = none ∧
        predicate.resolve scope = .ok predicate' ∧
        s = .update { u with filters := u.filters ++ [predicate'] } := by
  simp only [Stage.lower, bind_eq_ok, pure_eq_ok, Source.update_eq_ok]
  constructor
  · rintro ⟨predicate', hp, u, ⟨hs, hr⟩, rfl⟩
    exact ⟨u, predicate', hs, hr, hp, rfl⟩
  · rintro ⟨u, predicate', hs, hr, hp, rfl⟩
    exact ⟨predicate', hp, u, ⟨hs, hr⟩, rfl⟩

/-- A condition is lowered into a DELETE. -/
theorem lower_deleteWhere {predicate : Expr} :
    (Stage.deleteWhere predicate).lower d scope source = .ok s ↔
      ∃ x predicate', source.statement = .ok (.delete x) ∧ x.returning = none ∧
        predicate.resolve scope = .ok predicate' ∧
        s = .delete { x with filters := x.filters ++ [predicate'] } := by
  simp only [Stage.lower, bind_eq_ok, pure_eq_ok, Source.delete_eq_ok]
  constructor
  · rintro ⟨predicate', hp, x, ⟨hs, hr⟩, rfl⟩
    exact ⟨x, predicate', hs, hr, hp, rfl⟩
  · rintro ⟨x, predicate', hs, hr, hp, rfl⟩
    exact ⟨predicate', hp, x, ⟨hs, hr⟩, rfl⟩

/-- What is returned is lowered into any modification, if there is something to return. -/
theorem lower_returning {shape : Shape} {items : List SelectItem} :
    (Stage.returning shape items).lower d scope source = .ok s ↔
      d.supports .returning = true ∧ items ≠ [] ∧
      ∃ items' s', scope.resolveItems items = .ok items' ∧ source.statement = .ok s' ∧
        s'.addReturning items' source.kind = .ok s := by
  cases items with
  | nil => simp [Stage.lower, bind_eq_ok]
  | cons item items =>
    simp only [Stage.lower, List.isEmpty_cons, Bool.false_eq_true, if_false, bind_eq_ok,
      Dialect.require_eq_ok]
    constructor
    · rintro ⟨_, hd, items', hitems, s', hs', h⟩
      exact ⟨hd, by simp, items', s', hitems, hs', h⟩
    · rintro ⟨hd, -, items', s', hitems, hs', h⟩
      exact ⟨(), hd, items', hitems, s', hs', h⟩

end Stage

/-- A row stage gives rows. -/
theorem Statement.form_extend (name : String) {s : Statement} (hs : s.form = .rows)
    (a : Option Addition) : (s.extend name a).form = .rows := by
  cases a with
  | none => exact hs
  | some a => rfl

/-- The guard of an INSERT does not change its form. -/
theorem Insert.form_guardJoin (d : Dialect) (i : Insert) :
    (Statement.insert (i.guardJoin d)).form = (Statement.insert i).form := by
  unfold Insert.guardJoin
  split
  · rename_i hsource
    simp [Statement.form, hsource]
  · rfl

/-- A stage on rows ends well exactly if what it adds can be found and its source gives rows. -/
theorem Stage.lower_rowStage_eq_ok {d : Dialect} {scope : Scope} {source : Source} {stage : Stage}
    {s : Statement} (hrow : stage.kind.isRowStage = true) :
    stage.lower d scope source = .ok s ↔
      ∃ a s', stage.addition d scope = .ok a ∧ source.statement = .ok s' ∧ s'.form = .rows ∧
        s = s'.extend source.derivedName a := by
  simp only [Stage.lower_rowStage d scope source hrow, bind_eq_ok, pure_eq_ok,
    Source.rows_eq_ok, ← Statement.form_eq_rows]
  constructor
  · rintro ⟨a, ha, s', ⟨hs', hform⟩, rfl⟩
    exact ⟨a, s', ha, hs', hform, rfl⟩
  · rintro ⟨a, s', ha, hs', hform, rfl⟩
    exact ⟨a, ha, s', ⟨hs', hform⟩, rfl⟩

/-- A stage takes the form of its source to that of its statement. -/
theorem Stage.form_lower {d : Dialect} {scope : Scope} {source : Source} {stage : Stage}
    {s' : Statement} (h : stage.lower d scope source = .ok s') :
    ∃ s, source.statement = .ok s ∧ s.form.advance stage.kind = some s'.form := by
  cases hrow : stage.kind.isRowStage with
  | true =>
    obtain ⟨a, s, -, hs, hform, rfl⟩ := (Stage.lower_rowStage_eq_ok hrow).mp h
    exact ⟨s, hs, by simp [hform, Form.advance, hrow, Statement.form_extend]⟩
  | false =>
    cases stage with
    | values rows =>
      obtain ⟨i, rows', hi, hr, hsource, -, -, rfl⟩ := Stage.lower_values.mp h
      exact ⟨_, hi, by simp [Statement.form, Stage.kind, hr, hsource, Form.advance]⟩
    | insertSelect rows =>
      obtain ⟨i, body, hi, hr, hsource, -, rfl⟩ := Stage.lower_insertSelect.mp h
      exact ⟨_, hi, by simp [Statement.form, Stage.kind, hr, hsource, Form.advance]⟩
    | onConflict target action =>
      obtain ⟨-, i, action', hi, hr, hsource, hupsert, -, rfl⟩ := Stage.lower_onConflict.mp h
      rw [Insert.form_guardJoin]
      exact ⟨_, hi, by simp [Statement.form, Stage.kind, hr, hsource, hupsert, Form.advance]⟩
    | set assignments =>
      obtain ⟨hne, u, assignments', hu, hr, hfilters, hassignments, rfl⟩ := Stage.lower_set.mp h
      have hne' := ne_nil_of_mapM hassignments hne
      exact ⟨_, hu, by simp [Statement.form, Stage.kind, hr, hfilters, hne', Form.advance]⟩
    | updateWhere predicate =>
      obtain ⟨u, predicate', hu, hr, -, rfl⟩ := Stage.lower_updateWhere.mp h
      exact ⟨_, hu, by simp [Statement.form, Stage.kind, hr, Form.advance]⟩
    | deleteWhere predicate =>
      obtain ⟨x, predicate', hx, hr, -, rfl⟩ := Stage.lower_deleteWhere.mp h
      exact ⟨_, hx, by simp [Statement.form, Stage.kind, hr, Form.advance]⟩
    | returning shape items =>
      obtain ⟨-, -, items', s, -, hs, hadd⟩ := Stage.lower_returning.mp h
      refine ⟨s, hs, ?_⟩
      rcases Statement.addReturning_eq_ok.mp hadd with
        ⟨i, rfl, hr, rfl⟩ | ⟨u, rfl, hr, rfl⟩ | ⟨x, rfl, hr, rfl⟩
      · simp [Statement.form, Stage.kind, hr, Form.advance]
      · simp [Statement.form, Stage.kind, hr, Form.advance]
      · simp [Statement.form, Stage.kind, hr, Form.advance]
    | _ => cases hrow

/-- Both operands of a set operation are lowered for their rows. -/
theorem Query.lower_setOperation {d : Dialect} {op : SetOperator} {all : Bool}
    {left right : Query} {s : Statement} :
    (Query.setOperation op all left right).lower d = .ok s ↔
      (all = true → d.supportsSetAll op = true) ∧
      ∃ left' right', left.lowerRows d = .ok left' ∧ right.lowerRows d = .ok right' ∧
        s = .setOperation op all left' right' := by
  have hrows (hall : (all && !d.supportsSetAll op) = false) :
      (Query.setOperation op all left right).lower d = do
        let left' ← left.lowerRows d
        let right' ← right.lowerRows d
        return .setOperation op all left' right' := by
    simp [Query.lower, Query.lowerRows, hall]
  cases hall : (all && !d.supportsSetAll op) with
  | true =>
    simp only [Bool.and_eq_true, Bool.not_eq_true'] at hall
    simp [Query.lower, hall]
  | false =>
    have hsupport : all = true → d.supportsSetAll op = true := by simpa using hall
    rw [hrows hall]
    simp only [bind_eq_ok, pure_eq_ok]
    constructor
    · rintro ⟨left', hleft, right', hright, rfl⟩
      exact ⟨hsupport, left', right', hleft, hright, rfl⟩
    · rintro ⟨-, left', right', hleft, hright, rfl⟩
      exact ⟨left', hleft, right', hright, rfl⟩

/-- The entries of a WITH are lowered before its main query. -/
theorem Query.lower_withCtes {d : Dialect} {recursive : Bool} {ctes : List (Cte Query)}
    {main : Query} {s : Statement} :
    (Query.withCtes recursive ctes main).lower d = .ok s ↔
      d.supports .cte = true ∧ ctes ≠ [] ∧
      ∃ ctes' body, Cte.lowerAll d ctes = .ok ctes' ∧ main.lower d = .ok body ∧
        s = .withCtes recursive ctes' body := by
  cases ctes with
  | nil => simp [Query.lower, bind_eq_ok]
  | cons cte ctes =>
    simp only [Query.lower, List.isEmpty_cons, Bool.false_eq_true, if_false, bind_eq_ok,
      pure_eq_ok, Dialect.require_eq_ok]
    constructor
    · rintro ⟨_, hd, ctes', hctes, body, hbody, rfl⟩
      exact ⟨hd, by simp, ctes', body, hctes, hbody, rfl⟩
    · rintro ⟨hd, -, ctes', body, hctes, hbody, rfl⟩
      exact ⟨(), hd, ctes', hctes, body, hbody, rfl⟩

/-- What is joined laterally is lowered for its rows. -/
theorem JoinTarget.lower_lateral {d : Dialect} {body : Query} {name : String}
    {target : JoinTarget Statement} :
    JoinTarget.lower d (.lateral body name) = .ok target ↔
      d.supports .lateral = true ∧
      ∃ body', body.lowerRows d = .ok body' ∧ target = .lateral body' name := by
  have hrows : JoinTarget.lower d (.lateral body name) = do
      d.require .lateral
      return .lateral (← body.lowerRows d) name := by
    simp [JoinTarget.lower, Query.lowerRows]
  rw [hrows]
  simp only [bind_eq_ok, pure_eq_ok, Dialect.require_eq_ok]
  constructor
  · rintro ⟨_, hd, body', hbody, rfl⟩
    exact ⟨hd, body', hbody, rfl⟩
  · rintro ⟨hd, body', hbody, rfl⟩
    exact ⟨(), hd, body', hbody, rfl⟩

/-- The statement of a query has the form that the kinds of its stages say. -/
theorem Query.form_lower {d : Dialect} : ∀ {q : Query} {s : Statement}, q.lower d = .ok s →
    q.form? = some s.form
  | .table _, s, h | .insertInto .., s, h | .update _, s, h | .deleteFrom _, s, h => by
    cases h
    rfl
  | .setOperation op all left right, s, h => by
    obtain ⟨-, left', right', -, -, rfl⟩ := Query.lower_setOperation.mp h
    rfl
  | .withCtes recursive ctes main, s, h => by
    obtain ⟨-, -, ctes', body, -, -, rfl⟩ := Query.lower_withCtes.mp h
    rfl
  | .step source stage, s, h => by
    obtain ⟨s₀, hs₀, hadvance⟩ := Stage.form_lower h
    rw [Query.form?, Query.form_lower hs₀, Option.bind_some, hadvance]
termination_by structural q => q

/-- A query that starts from rows keeps to rows. -/
theorem Query.form?_of_startsWithRows : ∀ {q : Query} {form : Form}, q.startsWithRows = true →
    q.form? = some form → form = .rows
  | .table _, _, _, h | .setOperation .., _, _, h | .withCtes .., _, _, h => by
    cases h
    rfl
  | .insertInto .., _, hrows, _ | .update _, _, hrows, _ | .deleteFrom _, _, hrows, _ => by
    cases hrows
  | .step source stage, form, hrows, h => by
    obtain ⟨before, hbefore, hadvance⟩ := Option.bind_eq_some_iff.mp h
    have hrows : source.startsWithRows = true := hrows
    obtain rfl := Query.form?_of_startsWithRows hrows hbefore
    simp only [Form.advance, Option.ite_none_right_eq_some, Option.some.injEq] at hadvance
    exact hadvance.2.symm
termination_by structural q => q

end SqlAlgebra
