import SqlAlgebra.Proofs.StoredExpressions

/-!
# Queries are stored faithfully

A stage is stored with its source, under the name of its kind. A reader that carries the expressions
and the queries in a query carries the query, and so by induction the readers carry whatever has
fewer levels than they have.
-/

namespace SqlAlgebra

open Format.Faithful

variable {ω δ : Type} {f : Format ω δ}

/-- The parts of a stage have different names, and none is that of the source. -/
theorem Stage.nodup_names (stage : Stage) (source : ω) :
    ((("source", source) :: stage.parts f).map (·.1)).Nodup := by
  cases stage <;> simp [Stage.parts]

/-- The name of a stage's kind says what parts there are. -/
theorem NodeReader.stageNames_tag (stage : Stage) :
    stageNames stage.tag = some ((stage.parts f).map (·.1)) := by
  cases stage <;> rfl

/-- The kinds of the stages are none of the other kinds of queries. -/
theorem NodeReader.queryOfParts_tag (read : NodeReader δ) (stage : Stage) (y : δ) :
    read.queryOfParts f stage.tag y = read.step f stage.tag y := by
  cases stage <;> rfl

namespace NodeReader.Carries

variable {h : f.Faithful} {limit : Nat} {read : NodeReader δ}

/-- A stage is read if what is in it is. -/
theorem read_stage (hr : read.Carries h limit) {stage : Stage} (hstage : stage.isFinite = true)
    {ys : List δ} (hys : List.Forall₂ (h.Within limit) ys ((stage.parts f).map (·.2))) :
    read.stage f stage.tag (ys.map some) = some stage := by
  cases stage with
  | filter e =>
    obtain _ | ⟨he, _ | _⟩ := hys
    exact congrArg (Option.map Stage.filter) (hr.expr.read_of_within hstage he)
  | join target condition kind =>
    obtain _ | ⟨htarget, _ | ⟨hcondition, _ | ⟨hkind, _ | _⟩⟩⟩ := hys
    simp only [Stage.isFinite, Bool.and_eq_true] at hstage
    exact read_bind (hr.joinTarget.read_of_within hstage.1 htarget) <|
      read_bind (hr.option.read_of_within hstage.2 hcondition) <|
      read_bind ((JoinKind.carries h limit).read_of_within trivial hkind) rfl
  | select shape items =>
    obtain _ | ⟨hshape, _ | ⟨hitems, _ | _⟩⟩ := hys
    exact read_bind ((Shape.carries h limit).read_of_within trivial hshape) <|
      read_bind (hr.selectItems.read_of_within hstage hitems) rfl
  | orderBy keys =>
    obtain _ | ⟨hkeys, _ | _⟩ := hys
    exact congrArg (Option.map Stage.orderBy) (hr.orderKeys.read_of_within hstage hkeys)
  | limit e =>
    obtain _ | ⟨he, _ | _⟩ := hys
    exact congrArg (Option.map Stage.limit) (hr.expr.read_of_within hstage he)
  | offset e =>
    obtain _ | ⟨he, _ | _⟩ := hys
    exact congrArg (Option.map Stage.offset) (hr.expr.read_of_within hstage he)
  | distinct =>
    obtain _ | _ := hys
    rfl
  | groupBy keys =>
    obtain _ | ⟨hkeys, _ | _⟩ := hys
    exact congrArg (Option.map Stage.groupBy) (hr.exprs.read_of_within hstage hkeys)
  | having e =>
    obtain _ | ⟨he, _ | _⟩ := hys
    exact congrArg (Option.map Stage.having) (hr.expr.read_of_within hstage he)
  | values rows =>
    obtain _ | ⟨hrows, _ | _⟩ := hys
    exact congrArg (Option.map Stage.values) (hr.rows.read_of_within hstage hrows)
  | insertSelect rows =>
    obtain _ | ⟨hrows, _ | _⟩ := hys
    exact congrArg (Option.map Stage.insertSelect) (hr.query.read_of_within hstage hrows)
  | onConflict target action =>
    obtain _ | ⟨htarget, _ | ⟨haction, _ | _⟩⟩ := hys
    exact read_bind ((Carries.texts h limit).read_of_within trivial htarget) <|
      read_bind (hr.conflictAction.read_of_within hstage haction) rfl
  | set assignments =>
    obtain _ | ⟨hassignments, _ | _⟩ := hys
    exact congrArg (Option.map Stage.set) (hr.assignments.read_of_within hstage hassignments)
  | updateWhere e =>
    obtain _ | ⟨he, _ | _⟩ := hys
    exact congrArg (Option.map Stage.updateWhere) (hr.expr.read_of_within hstage he)
  | deleteWhere e =>
    obtain _ | ⟨he, _ | _⟩ := hys
    exact congrArg (Option.map Stage.deleteWhere) (hr.expr.read_of_within hstage he)
  | returning shape items =>
    obtain _ | ⟨hshape, _ | ⟨hitems, _ | _⟩⟩ := hys
    exact read_bind ((Shape.carries h limit).read_of_within trivial hshape) <|
      read_bind (hr.selectItems.read_of_within hstage hitems) rfl

/-- A stage that is read is of the kind that is named, could be written, and has finite numbers. -/
theorem fits_stage (hr : read.Carries h limit) {tag : String} {ys : List (Option δ)}
    {stage : Stage} (hstage : read.stage f tag ys = some stage) :
    stage.tag = tag ∧ stage.isFinite = true ∧
      List.Forall₂ (f.FieldFits h.Fits) ys ((stage.parts f).map (·.2)) := by
  unfold NodeReader.stage at hstage
  split at hstage
  case h_7 =>
    cases hstage
    exact ⟨rfl, rfl, .nil⟩
  case h_17 => cases hstage
  all_goals
    simp only [Option.bind_eq_bind, Option.bind_eq_some_iff, Option.pure_def, Option.some.injEq,
      Option.map_eq_some_iff] at hstage
  · -- Where
    obtain ⟨e, he, rfl⟩ := hstage
    obtain ⟨he, hfinite⟩ := hr.expr.required he
    exact ⟨rfl, hfinite, .cons he .nil⟩
  · -- Join
    obtain ⟨target, htarget, condition, hcondition, kind, hkind, rfl⟩ := hstage
    obtain ⟨htarget, hfinite⟩ := hr.joinTarget.required htarget
    obtain ⟨hcondition, hfinite'⟩ := hr.option.optional rfl rfl hcondition
    obtain ⟨hkind, -⟩ := (JoinKind.carries h limit).required hkind
    exact ⟨rfl, by simp [Stage.isFinite, hfinite, hfinite'],
      .cons htarget (.cons hcondition (.cons hkind .nil))⟩
  · -- Select
    obtain ⟨shape, hshape, items, hitems, rfl⟩ := hstage
    obtain ⟨hshape, -⟩ := (Shape.carries h limit).required hshape
    obtain ⟨hitems, hfinite⟩ := hr.selectItems.required hitems
    exact ⟨rfl, hfinite, .cons hshape (.cons hitems .nil)⟩
  · -- OrderBy
    obtain ⟨keys, hkeys, rfl⟩ := hstage
    obtain ⟨hkeys, hfinite⟩ := hr.orderKeys.required hkeys
    exact ⟨rfl, hfinite, .cons hkeys .nil⟩
  · -- Limit
    obtain ⟨e, he, rfl⟩ := hstage
    obtain ⟨he, hfinite⟩ := hr.expr.required he
    exact ⟨rfl, hfinite, .cons he .nil⟩
  · -- Offset
    obtain ⟨e, he, rfl⟩ := hstage
    obtain ⟨he, hfinite⟩ := hr.expr.required he
    exact ⟨rfl, hfinite, .cons he .nil⟩
  · -- GroupBy
    obtain ⟨keys, hkeys, rfl⟩ := hstage
    obtain ⟨hkeys, hfinite⟩ := hr.exprs.required hkeys
    exact ⟨rfl, hfinite, .cons hkeys .nil⟩
  · -- Having
    obtain ⟨e, he, rfl⟩ := hstage
    obtain ⟨he, hfinite⟩ := hr.expr.required he
    exact ⟨rfl, hfinite, .cons he .nil⟩
  · -- InsertValues
    obtain ⟨rows, hrows, rfl⟩ := hstage
    obtain ⟨hrows, hfinite⟩ := hr.rows.required hrows
    exact ⟨rfl, hfinite, .cons hrows .nil⟩
  · -- InsertSelect
    obtain ⟨rows, hrows, rfl⟩ := hstage
    obtain ⟨hrows, hfinite⟩ := hr.query.required hrows
    exact ⟨rfl, hfinite, .cons hrows .nil⟩
  · -- OnConflict
    obtain ⟨target, htarget, action, haction, rfl⟩ := hstage
    obtain ⟨htarget, -⟩ := (Carries.texts h limit).required htarget
    obtain ⟨haction, hfinite⟩ := hr.conflictAction.required haction
    exact ⟨rfl, hfinite, .cons htarget (.cons haction .nil)⟩
  · -- UpdateAssign
    obtain ⟨assignments, hassignments, rfl⟩ := hstage
    obtain ⟨hassignments, hfinite⟩ := hr.assignments.required hassignments
    exact ⟨rfl, hfinite, .cons hassignments .nil⟩
  · -- UpdateWhere
    obtain ⟨e, he, rfl⟩ := hstage
    obtain ⟨he, hfinite⟩ := hr.expr.required he
    exact ⟨rfl, hfinite, .cons he .nil⟩
  · -- DeleteWhere
    obtain ⟨e, he, rfl⟩ := hstage
    obtain ⟨he, hfinite⟩ := hr.expr.required he
    exact ⟨rfl, hfinite, .cons he .nil⟩
  · -- Returning
    obtain ⟨shape, hshape, items, hitems, rfl⟩ := hstage
    obtain ⟨hshape, -⟩ := (Shape.carries h limit).required hshape
    obtain ⟨hitems, hfinite⟩ := hr.selectItems.required hitems
    exact ⟨rfl, hfinite, .cons hshape (.cons hitems .nil)⟩

/-- A stage is read with its source if the source and what is in the stage are. -/
theorem read_step (hr : read.Carries h limit) {source : Query} {stage : Stage}
    (hsource : source.isFinite = true) (hstage : stage.isFinite = true) {y : δ} {ys : List δ}
    (hfields : f.fields? ("source" :: (stage.parts f).map (·.1)) y = some (ys.map some))
    (hys : List.Forall₂ (h.Within limit) ys (source.write f :: (stage.parts f).map (·.2))) :
    read.step f stage.tag y = some (.step source stage) := by
  obtain _ | ⟨hs, hrest⟩ := hys
  exact read_bind (stageNames_tag stage) <|
    read_bind hfields <|
    read_bind (hr.query.read_of_within hsource hs) <|
    read_bind (hr.read_stage hstage hrest) rfl

/-- A stage that is read with its source could be written, and all numbers are finite. -/
theorem fits_step (hr : read.Carries h limit) {x y : δ} {tag : String} {q : Query}
    (hvariant : f.variant? x = some (tag, some y)) (hq : read.step f tag y = some q) :
    h.Fits x (q.write f) ∧ q.isFinite = true := by
  obtain ⟨names, hnames, hq⟩ := Option.bind_eq_some_iff.mp hq
  obtain ⟨parts, hfields, hq⟩ := Option.bind_eq_some_iff.mp hq
  split at hq
  · simp only [Option.bind_eq_bind, Option.bind_eq_some_iff, Option.pure_def,
      Option.some.injEq] at hq
    obtain ⟨source, hsource, stage, hstage, rfl⟩ := hq
    obtain ⟨hsource, hfinite⟩ := hr.query.required hsource
    obtain ⟨rfl, hfinite', hparts⟩ := hr.fits_stage hstage
    rw [stageNames_tag (f := f) stage] at hnames
    cases hnames
    have hfits := h.fits_tagged hvariant hfields (.cons hsource hparts)
    rw [List.zip_cons_cons, List.zip_map', List.map_id'] at hfits
    exact ⟨hfits, by simp [Query.isFinite, hfinite, hfinite']⟩
  · cases hq

/-- A query is read if the expressions and the queries in it are. -/
theorem read_queryNode (hr : read.Carries h limit) {x : δ} {q : Query} (hq : q.isFinite = true)
    (hx : h.Within (limit + 1) x (q.write f)) : read.queryNode f x = some q := by
  cases q with
  | table name =>
    obtain ⟨y, ys, hvariant, hfields, hys⟩ := hx.tagged (by simp)
    obtain _ | ⟨hname, _ | _⟩ := hys
    rw [NodeReader.queryNode, hvariant]
    exact read_bind hfields (congrArg (Option.map Query.table) (h.holds_text hname.2))
  | insertInto name columns =>
    obtain ⟨y, ys, hvariant, hfields, hys⟩ := hx.tagged (by simp)
    obtain _ | ⟨hname, _ | ⟨hcolumns, _ | _⟩⟩ := hys
    rw [NodeReader.queryNode, hvariant]
    exact read_bind hfields <|
      read_bind (h.holds_text hname.2) <|
      read_bind ((Carries.texts h limit).read_of_within trivial hcolumns) rfl
  | update name =>
    obtain ⟨y, ys, hvariant, hfields, hys⟩ := hx.tagged (by simp)
    obtain _ | ⟨hname, _ | _⟩ := hys
    rw [NodeReader.queryNode, hvariant]
    exact read_bind hfields (congrArg (Option.map Query.update) (h.holds_text hname.2))
  | deleteFrom name =>
    obtain ⟨y, ys, hvariant, hfields, hys⟩ := hx.tagged (by simp)
    obtain _ | ⟨hname, _ | _⟩ := hys
    rw [NodeReader.queryNode, hvariant]
    exact read_bind hfields (congrArg (Option.map Query.deleteFrom) (h.holds_text hname.2))
  | setOperation op all left right =>
    obtain ⟨y, ys, hvariant, hfields, hys⟩ := hx.tagged (by simp)
    obtain _ | ⟨hop, _ | ⟨hall, _ | ⟨hleft, _ | ⟨hright, _ | _⟩⟩⟩⟩ := hys
    simp only [Query.isFinite, Bool.and_eq_true] at hq
    rw [NodeReader.queryNode, hvariant]
    exact read_bind hfields <|
      read_bind ((SetOperator.carries h limit).read_of_within trivial hop) <|
      read_bind (h.holds_bool hall.2) <|
      read_bind (hr.query.read_of_within hq.1 hleft) <|
      read_bind (hr.query.read_of_within hq.2 hright) rfl
  | withCtes recursive ctes main =>
    obtain ⟨y, ys, hvariant, hfields, hys⟩ := hx.tagged (by simp)
    obtain _ | ⟨hrecursive, _ | ⟨hctes, _ | ⟨hmain, _ | _⟩⟩⟩ := hys
    simp only [Query.isFinite, Bool.and_eq_true] at hq
    rw [NodeReader.queryNode, hvariant]
    exact read_bind hfields <|
      read_bind (h.holds_bool hrecursive.2) <|
      read_bind (hr.ctes.read_of_within hq.1 hctes) <|
      read_bind (hr.query.read_of_within hq.2 hmain) rfl
  | step source stage =>
    obtain ⟨y, ys, hvariant, hfields, hys⟩ := hx.tagged (stage.nodup_names (source.write f))
    simp only [Query.isFinite, Bool.and_eq_true] at hq
    rw [NodeReader.queryNode, hvariant]
    simp only [read.queryOfParts_tag]
    exact hr.read_step hq.1 hq.2 hfields hys

/-- A query that is read could be written, and its numbers are finite. -/
theorem fits_queryOfParts (hr : read.Carries h limit) {x y : δ} {tag : String} {q : Query}
    (hvariant : f.variant? x = some (tag, some y)) (hq : read.queryOfParts f tag y = some q) :
    h.Fits x (q.write f) ∧ q.isFinite = true := by
  unfold NodeReader.queryOfParts at hq
  split at hq
  case h_7 => exact hr.fits_step hvariant hq
  all_goals
    obtain ⟨parts, hfields, hq⟩ := Option.bind_eq_some_iff.mp hq
    split at hq
    swap
    · cases hq
    simp only [Option.bind_eq_bind, Option.bind_eq_some_iff, Option.pure_def, Option.some.injEq,
      Option.map_eq_some_iff] at hq
  · -- From
    obtain ⟨name, hname, rfl⟩ := hq
    obtain ⟨hname, -⟩ := (Carries.text h limit).required hname
    exact ⟨h.fits_tagged hvariant hfields (.cons hname .nil), rfl⟩
  · -- InsertInto
    obtain ⟨name, hname, columns, hcolumns, rfl⟩ := hq
    obtain ⟨hname, -⟩ := (Carries.text h limit).required hname
    obtain ⟨hcolumns, -⟩ := (Carries.texts h limit).required hcolumns
    exact ⟨h.fits_tagged hvariant hfields (.cons hname (.cons hcolumns .nil)), rfl⟩
  · -- Update
    obtain ⟨name, hname, rfl⟩ := hq
    obtain ⟨hname, -⟩ := (Carries.text h limit).required hname
    exact ⟨h.fits_tagged hvariant hfields (.cons hname .nil), rfl⟩
  · -- DeleteFrom
    obtain ⟨name, hname, rfl⟩ := hq
    obtain ⟨hname, -⟩ := (Carries.text h limit).required hname
    exact ⟨h.fits_tagged hvariant hfields (.cons hname .nil), rfl⟩
  · -- SetOperation
    obtain ⟨op, hop, all, hall, left, hleft, right, hright, rfl⟩ := hq
    obtain ⟨hop, -⟩ := (SetOperator.carries h limit).required hop
    obtain ⟨hall, -⟩ := (Carries.bool h limit).required hall
    obtain ⟨hleft, hfinite⟩ := hr.query.required hleft
    obtain ⟨hright, hfinite'⟩ := hr.query.required hright
    have hparts := List.Forall₂.cons hop (.cons hall (.cons hleft (.cons hright .nil)))
    exact ⟨h.fits_tagged hvariant hfields hparts, by simp [Query.isFinite, hfinite, hfinite']⟩
  · -- With
    obtain ⟨recursive, hrecursive, ctes, hctes, main, hmain, rfl⟩ := hq
    obtain ⟨hrecursive, -⟩ := (Carries.bool h limit).required hrecursive
    obtain ⟨hctes, hfinite⟩ := hr.ctes.required hctes
    obtain ⟨hmain, hfinite'⟩ := hr.query.required hmain
    have hparts := List.Forall₂.cons hrecursive (.cons hctes (.cons hmain .nil))
    exact ⟨h.fits_tagged hvariant hfields hparts, by simp [Query.isFinite, hfinite, hfinite']⟩

/-- Queries are carried one level further than what is in them. -/
theorem queryNode (hr : read.Carries h limit) :
    h.Carries (limit + 1) (Query.write f) (read.queryNode f) (fun q => q.isFinite = true) where
  read_of_within hq hx := hr.read_queryNode hq hx
  fits_of_read {x q} hq := by
    unfold NodeReader.queryNode at hq
    split at hq
    · rename_i hvariant
      exact hr.fits_queryOfParts hvariant hq
    · cases hq

end NodeReader.Carries

/-- What has fewer levels than the readers is carried. -/
theorem NodeReader.carries_upTo (h : f.Faithful) (levels : Nat) :
    (upTo f levels).Carries h levels := by
  induction levels with
  | zero =>
    constructor <;> constructor
    · exact fun _ hx => absurd hx.1 (Nat.not_lt_zero _)
    · intro x e he
      cases he
    · exact fun _ hx => absurd hx.1 (Nat.not_lt_zero _)
    · intro x q hq
      cases hq
  | succ levels ih => exact ⟨ih.exprNode, ih.queryNode⟩

end SqlAlgebra
