import SqlAlgebra.Proofs.Forms

/-!
# The sequences of stages that make a query

From the root upwards, the stages of a complete query are stages on rows, or those of an insertion,
an update or a deletion in their fixed sequence. These sequences are written down here as lists, and
shown to be exactly those along which a statement goes from the form of its root to a complete one.
-/

namespace SqlAlgebra

namespace QueryKind

/-- The root gives rows. -/
def isRowRoot : QueryKind → Bool
  | table | setOperation _ | withCtes => true
  | _ => false

/-- A stage that is there or not. -/
def optional (k : QueryKind) (isThere : Bool) : List QueryKind := if isThere then [k] else []

end QueryKind

/-- The kinds of the root and of the stages upon it in a complete query. -/
inductive Pipeline : List QueryKind → Prop where
  | rows {root : QueryKind} {stages : List QueryKind} (hroot : root.isRowRoot = true)
      (hstages : ∀ k ∈ stages, k.isRowStage = true) : Pipeline (root :: stages)
  | insert {source : QueryKind} (hsource : source = .values ∨ source = .insertSelect)
      (conflict returning : Bool) :
    Pipeline (.insertInto :: source ::
      (QueryKind.onConflict.optional conflict ++ QueryKind.returning.optional returning))
  | update (assignments filters : Nat) (returning : Bool) :
    Pipeline (.update :: (List.replicate (assignments + 1) .set ++
      (List.replicate filters .updateWhere ++ QueryKind.returning.optional returning)))
  | delete (filters : Nat) (returning : Bool) :
    Pipeline (.deleteFrom ::
      (List.replicate filters .deleteWhere ++ QueryKind.returning.optional returning))

namespace Form

/-- The form of a root. -/
def ofRoot? : QueryKind → Option Form
  | .table | .setOperation _ | .withCtes => some rows
  | .insertInto => some (insert false false false)
  | .update => some (update false false false)
  | .deleteFrom => some (delete false)
  | _ => none

/-- The form after stages of the given kinds, if they may follow one another. -/
def advanceAll (f : Form) : List QueryKind → Option Form
  | [] => some f
  | k :: ks => (f.advance k).bind (·.advanceAll ks)

/-- The form of a statement from the kinds of its root and stages. -/
def ofKinds? : List QueryKind → Option Form
  | [] => none
  | root :: stages => (ofRoot? root).bind (·.advanceAll stages)

/-- A last stage is advanced over after all others. -/
theorem advanceAll_concat (f : Form) (ks : List QueryKind) (k : QueryKind) :
    f.advanceAll (ks ++ [k]) = (f.advanceAll ks).bind (·.advance k) := by
  induction ks generalizing f with
  | nil => simp [advanceAll]
  | cons k' ks ih =>
    rw [List.cons_append, advanceAll, advanceAll, Option.bind_assoc]
    simp only [ih]

/-- The form of a pipeline with one more stage comes from the form without it. -/
theorem ofKinds?_concat {ks : List QueryKind} (hne : ks ≠ []) (k : QueryKind) :
    ofKinds? (ks ++ [k]) = (ofKinds? ks).bind (·.advance k) := by
  cases ks with
  | nil => exact absurd rfl hne
  | cons root stages =>
    rw [List.cons_append, ofKinds?, ofKinds?, Option.bind_assoc]
    simp only [advanceAll_concat]

/-- No stage can follow RETURNING. -/
def isFinal : Form → Bool
  | rows => false
  | insert _ _ returning | update _ _ returning | delete returning => returning

/-- Nothing comes after a final form. -/
theorem advance_eq_none_of_isFinal {f : Form} (h : f.isFinal = true) (k : QueryKind) :
    f.advance k = none := by
  cases f with
  | rows => cases h
  | insert source upsert returning | update assigned filtered returning =>
    obtain rfl : returning = true := h
    cases k <;> simp [advance]
  | delete returning =>
    obtain rfl : returning = true := h
    cases k <;> rfl

/-- A pipeline that has a final form has no further stages. -/
theorem advanceAll_of_isFinal {f f' : Form} {ks : List QueryKind} (h : f.isFinal = true)
    (hf : f.advanceAll ks = some f') : ks = [] ∧ f' = f := by
  cases ks with
  | nil =>
    cases hf
    exact ⟨rfl, rfl⟩
  | cons k ks =>
    rw [advanceAll, advance_eq_none_of_isFinal h] at hf
    cases hf

/-- Rows stay rows under row stages, and under no others. -/
theorem advanceAll_rows {ks : List QueryKind} {f : Form} :
    rows.advanceAll ks = some f ↔ (∀ k ∈ ks, k.isRowStage = true) ∧ f = rows := by
  induction ks with
  | nil =>
    rw [advanceAll, Option.some.injEq, eq_comm]
    simp
  | cons k ks ih =>
    cases hk : k.isRowStage with
    | true => simp [advanceAll, advance, hk, ih]
    | false => simp [advanceAll, advance, hk]

/-- A deletion takes filters, and then items to return. -/
theorem advanceAll_delete {ks : List QueryKind} {f : Form} :
    (delete false).advanceAll ks = some f ↔ ∃ filters returning,
      ks = List.replicate filters .deleteWhere ++ QueryKind.returning.optional returning ∧
        f = delete returning := by
  constructor
  · intro h
    induction ks with
    | nil =>
      cases h
      exact ⟨0, false, rfl, rfl⟩
    | cons k ks ih =>
      cases k with
      | deleteWhere =>
        obtain ⟨filters, returning, rfl, rfl⟩ := ih h
        exact ⟨filters + 1, returning, rfl, rfl⟩
      | returning =>
        obtain ⟨rfl, rfl⟩ := advanceAll_of_isFinal (f := delete true) rfl h
        exact ⟨0, true, rfl, rfl⟩
      | _ => cases h
  · rintro ⟨filters, returning, rfl, rfl⟩
    induction filters with
    | zero => cases returning <;> rfl
    | succ filters ih => exact ih

/-- An update that has filters takes more of them, and then items to return. -/
theorem advanceAll_filtered {assigned : Bool} {ks : List QueryKind} {f : Form} :
    (update assigned true false).advanceAll ks = some f ↔ ∃ filters returning,
      ks = List.replicate filters .updateWhere ++ QueryKind.returning.optional returning ∧
        f = update assigned true returning := by
  constructor
  · intro h
    induction ks with
    | nil =>
      cases h
      exact ⟨0, false, rfl, rfl⟩
    | cons k ks ih =>
      cases k with
      | updateWhere =>
        obtain ⟨filters, returning, rfl, rfl⟩ := ih h
        exact ⟨filters + 1, returning, rfl, rfl⟩
      | returning =>
        obtain ⟨rfl, rfl⟩ := advanceAll_of_isFinal (f := update assigned true true) rfl h
        exact ⟨0, true, rfl, rfl⟩
      | _ => cases h
  · rintro ⟨filters, returning, rfl, rfl⟩
    induction filters with
    | zero => cases returning <;> rfl
    | succ filters ih => exact ih

/-- An update takes assignments, then filters, and then items to return. -/
theorem advanceAll_update {assigned : Bool} {ks : List QueryKind} {f : Form} :
    (update assigned false false).advanceAll ks = some f ↔ ∃ assignments filters returning,
      ks = List.replicate assignments .set ++
        (List.replicate filters .updateWhere ++ QueryKind.returning.optional returning) ∧
      f = update (assigned || decide (0 < assignments)) (decide (0 < filters)) returning := by
  constructor
  · intro h
    induction ks generalizing assigned with
    | nil =>
      cases h
      exact ⟨0, 0, false, rfl, by simp⟩
    | cons k ks ih =>
      cases k with
      | set =>
        have hrest : (update true false false).advanceAll ks = some f := h
        obtain ⟨assignments, filters, returning, rfl, rfl⟩ := ih hrest
        exact ⟨assignments + 1, filters, returning, rfl, by simp⟩
      | updateWhere =>
        obtain ⟨filters, returning, rfl, rfl⟩ := advanceAll_filtered.mp h
        exact ⟨0, filters + 1, returning, rfl, by simp⟩
      | returning =>
        obtain ⟨rfl, rfl⟩ := advanceAll_of_isFinal (f := update assigned false true) rfl h
        exact ⟨0, 0, true, rfl, by simp⟩
      | _ => cases h
  · rintro ⟨assignments, filters, returning, rfl, rfl⟩
    induction assignments generalizing assigned with
    | succ assignments ih =>
      have hrest := @ih true
      simpa [List.replicate_succ, advanceAll, advance] using hrest
    | zero =>
      cases filters with
      | zero => cases returning <;> simp [QueryKind.optional, advanceAll, advance]
      | succ filters =>
        have hrest := (@advanceAll_filtered assigned _ _).mpr ⟨filters, returning, rfl, rfl⟩
        simpa [List.replicate_succ, advanceAll, advance] using hrest

/-- An insertion that has rows takes an action for conflicts, and then items to return. -/
theorem advanceAll_insert {ks : List QueryKind} {f : Form} :
    (insert true false false).advanceAll ks = some f ↔ ∃ conflict returning,
      ks = QueryKind.onConflict.optional conflict ++ QueryKind.returning.optional returning ∧
        f = insert true conflict returning := by
  constructor
  · intro h
    cases ks with
    | nil =>
      cases h
      exact ⟨false, false, rfl, rfl⟩
    | cons k ks =>
      cases k with
      | onConflict =>
        cases ks with
        | nil =>
          cases h
          exact ⟨true, false, rfl, rfl⟩
        | cons k ks =>
          cases k with
          | returning =>
            obtain ⟨rfl, rfl⟩ := advanceAll_of_isFinal (f := insert true true true) rfl h
            exact ⟨true, true, rfl, rfl⟩
          | _ => cases h
      | returning =>
        obtain ⟨rfl, rfl⟩ := advanceAll_of_isFinal (f := insert true false true) rfl h
        exact ⟨false, true, rfl, rfl⟩
      | _ => cases h
  · rintro ⟨conflict, returning, rfl, rfl⟩
    cases conflict <;> cases returning <;> rfl

end Form

/-- A sequence of kinds makes a query exactly if it leads to a complete form. -/
theorem pipeline_iff {ks : List QueryKind} :
    Pipeline ks ↔ ∃ f, Form.ofKinds? ks = some f ∧ f.isComplete = true := by
  constructor
  · intro h
    cases h with
    | @rows root stages hroot hstages =>
      have hstart : Form.ofRoot? root = some .rows := by
        cases root <;> first | rfl | cases hroot
      have hrows := Form.advanceAll_rows.mpr ⟨hstages, rfl⟩
      exact ⟨.rows, by rw [Form.ofKinds?, hstart, Option.bind_some, hrows], rfl⟩
    | insert hsource conflict returning =>
      have hinsert := Form.advanceAll_insert.mpr ⟨conflict, returning, rfl, rfl⟩
      rcases hsource with rfl | rfl
      · exact ⟨_, hinsert, rfl⟩
      · exact ⟨_, hinsert, rfl⟩
    | update assignments filters returning =>
      have hupdate := (@Form.advanceAll_update false _ _).mpr
        ⟨assignments + 1, filters, returning, rfl, rfl⟩
      exact ⟨_, hupdate, by simp [Form.isComplete]⟩
    | delete filters returning =>
      exact ⟨_, Form.advanceAll_delete.mpr ⟨filters, returning, rfl, rfl⟩, rfl⟩
  · rintro ⟨f, h, hcomplete⟩
    cases ks with
    | nil => cases h
    | cons root stages =>
      cases root with
      | table | setOperation | withCtes =>
        exact .rows rfl (Form.advanceAll_rows.mp h).1
      | insertInto =>
        cases stages with
        | nil =>
          cases h
          cases hcomplete
        | cons k stages =>
          cases k with
          | values =>
            obtain ⟨conflict, returning, rfl, -⟩ := Form.advanceAll_insert.mp h
            exact .insert (.inl rfl) conflict returning
          | insertSelect =>
            obtain ⟨conflict, returning, rfl, -⟩ := Form.advanceAll_insert.mp h
            exact .insert (.inr rfl) conflict returning
          | returning =>
            obtain ⟨-, rfl⟩ := Form.advanceAll_of_isFinal (f := .insert false false true) rfl h
            cases hcomplete
          | _ => cases h
      | update =>
        obtain ⟨assignments, filters, returning, rfl, rfl⟩ := Form.advanceAll_update.mp h
        cases assignments with
        | zero => cases hcomplete
        | succ assignments => exact .update assignments filters returning
      | deleteFrom =>
        obtain ⟨filters, returning, rfl, -⟩ := Form.advanceAll_delete.mp h
        exact .delete filters returning
      | _ => cases h

namespace Query

/-- A query has a root. -/
theorem kinds_ne_nil (q : Query) : q.kinds ≠ [] := by
  cases q <;> exact List.cons_ne_nil _ _

/-- The form of a query depends on the kinds of its stages only. -/
theorem form?_eq_ofKinds? : ∀ q : Query, q.form? = Form.ofKinds? q.kinds.reverse
  | .table _ | .insertInto .. | .update _ | .deleteFrom _ | .setOperation .. | .withCtes .. => rfl
  | .step source stage => by
    have hne : source.kinds.reverse ≠ [] := by
      simpa using source.kinds_ne_nil
    rw [form?, kinds, List.reverse_cons, Form.ofKinds?_concat hne, form?_eq_ofKinds? source]
termination_by structural q => q

/-- The stages of a query are in a sequence that makes one exactly if its form is complete. -/
theorem pipeline_kinds_iff {q : Query} :
    Pipeline q.kinds.reverse ↔ ∃ f, q.form? = some f ∧ f.isComplete = true := by
  rw [pipeline_iff, form?_eq_ofKinds?]

/-- What has the form of rows starts with rows. -/
theorem startsWithRows_of_form? : ∀ {q : Query}, q.form? = some .rows → q.startsWithRows = true
  | .table _, _ | .setOperation .., _ | .withCtes .., _ => rfl
  | .insertInto .., h | .update _, h | .deleteFrom _, h => by
    cases h
  | .step source stage, h => by
    obtain ⟨f, hf, hadvance⟩ := Option.bind_eq_some_iff.mp h
    have hrows : f = .rows := by
      revert hadvance
      fun_cases Form.advance f stage.kind <;> simp
    subst hrows
    have hsource : source.startsWithRows = true := startsWithRows_of_form? hf
    exact hsource
termination_by structural q => q

/-- The query gives rows exactly if its stages make a query and its root gives rows. -/
theorem form?_eq_rows_iff {q : Query} :
    q.form? = some .rows ↔ Pipeline q.kinds.reverse ∧ q.startsWithRows = true := by
  rw [pipeline_kinds_iff]
  constructor
  · intro h
    exact ⟨⟨.rows, h, rfl⟩, startsWithRows_of_form? h⟩
  · rintro ⟨⟨f, hf, -⟩, hrows⟩
    rw [hf, form?_of_startsWithRows hrows hf]

end Query

end SqlAlgebra
