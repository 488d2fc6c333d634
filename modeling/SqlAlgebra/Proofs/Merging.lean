import SqlAlgebra.Proofs.Forms
import SqlAlgebra.Proofs.RowSemantics
import SqlAlgebra.Query.Build

/-!
# When clauses may share a SELECT

A stage that joins the SELECT of its source should act on the rows that the SELECT gave without it.
For filters, DISTINCT, ORDER BY, OFFSET and LIMIT this is so whenever the SELECT accepts the clause.
A projection is accepted too freely: SQL projects before it sorts and cuts off, so an item that
takes the name of an order key changes the order, and a window call in a SELECT with a LIMIT sees
rows that the pipeline has already dropped. Apart from that, a statement has the rows of its query.
-/

namespace SqlAlgebra

section Lists

variable {α β : Type} {m : Meaning}

/-- Dropping duplicates by what a function gives is dropping duplicates of what it gives. -/
theorem map_eraseDupsBy [BEq β] (f : α → β) (as : List α) :
    (as.eraseDupsBy fun a b => f a == f b).map f = (as.map f).eraseDups := by
  induction hn : as.length using Nat.strongRecOn generalizing as with
  | ind n ih =>
    cases as with
    | nil => rfl
    | cons a as =>
      rw [List.eraseDupsBy_cons, List.map_cons, List.map_cons, List.eraseDups_cons,
        List.filter_map]
      have hlength : (as.filter fun b => decide ((f b == f a) = false)).length < n := by
        have hle := List.length_filter_le (fun b => decide ((f b == f a) = false)) as
        rw [List.length_cons] at hn
        omega
      rw [ih _ hlength _ rfl]
      congr 3
      refine List.filter_congr fun b _ => ?_
      cases hb : f b == f a <;> simp [hb]

/-- A page of mapped rows is the mapped page of the rows. -/
theorem Meaning.map_page (f : α → β) (limit offset : Option Expr) (as : List α) :
    (m.page limit offset as).map f = m.page limit offset (as.map f) := by
  cases limit <;> cases offset <;> simp [Meaning.page]

/-- The rows of a page are among the rows. -/
theorem Meaning.mem_of_mem_page {limit offset : Option Expr} {as : List α} {a : α}
    (h : a ∈ m.page limit offset as) : a ∈ as := by
  cases limit with
  | none =>
    cases offset with
    | none => exact h
    | some start => exact List.mem_of_mem_drop h
  | some count =>
    cases offset with
    | none => exact List.mem_of_mem_take h
    | some start => exact List.mem_of_mem_drop (List.mem_of_mem_take h)

/-- What is sorted by the same values comes in the same order. -/
theorem Meaning.map_sort (f : α → β) {read : α → String → Value} {read' : β → String → Value}
    {keys : List OrderKey} {as : List α}
    (h : ∀ a ∈ as, ∀ key ∈ keys, read a key.column = read' (f a) key.column) :
    (m.sort read keys as).map f = m.sort read' keys (as.map f) := by
  refine List.map_mergeSort fun a ha b hb => ?_
  unfold Meaning.precedes
  congr 1
  induction keys with
  | nil => rfl
  | cons key keys ih =>
    have hkeys : ∀ a ∈ as, ∀ key ∈ keys, read a key.column = read' (f a) key.column :=
      fun a ha key hkey => h a ha key (List.mem_cons_of_mem _ hkey)
    rw [List.foldr_cons, List.foldr_cons, h a ha key List.mem_cons_self,
      h b hb key List.mem_cons_self, ih hkeys]

/-- Where no key tells them apart, everything stays in its order. -/
theorem Meaning.sort_nil (read : α → String → Value) (as : List α) : m.sort read [] as = as :=
  List.mergeSort_of_pairwise (List.pairwise_of_forall fun _ _ => rfl)

end Lists

namespace Block

variable {m : Meaning} {b : Block} {rows : List Row}

/-- A row that is its own output is read as it is. -/
theorem readOutput_self (row : Row) (name : String) :
    readOutput (row, row) name = Row.get row name := by
  unfold readOutput Row.get
  cases row.lookup name <;> rfl

/-- The outputs beside their rows are the projected rows. -/
theorem map_fst_project_zip (items : List SelectItem) (rows : List Row) :
    ((m.project items rows).zip rows).map Prod.fst = m.project items rows :=
  List.map_fst_zip (by simp [Meaning.project])

/-- The rows beside their outputs are the rows. -/
theorem map_snd_project_zip (items : List SelectItem) (rows : List Row) :
    ((m.project items rows).zip rows).map Prod.snd = rows :=
  List.map_snd_zip (by simp [Meaning.project])

/-- A SELECT has a meaning if it is plain and what it reads from has one. -/
theorem rows?_eq (b : Block) (m : Meaning) :
    b.rows? m = (b.origin.rows? m).bind fun rows =>
      if b.isPlain then some (b.evaluate m rows) else none := by
  cases b
  rfl

/-- The rows of a SELECT are those it makes of the rows it reads from. -/
theorem rows?_eq_some {out : List Row} : b.rows? m = some out ↔
    ∃ rows, b.origin.rows? m = some rows ∧ b.isPlain = true ∧ b.evaluate m rows = out := by
  rw [rows?_eq]
  cases b.origin.rows? m with
  | none => simp
  | some rows => cases b.isPlain <;> simp

/-- The ORDER BY of a SELECT sorts by what is read of an output. -/
theorem orderOutputs_eq_sort (outputs : List (Row × Row)) :
    b.orderOutputs m outputs = m.sort readOutput b.orderBy outputs := by
  unfold orderOutputs
  split
  · next hempty => rw [List.isEmpty_iff.mp hempty, Meaning.sort_nil]
  · rfl

/-- Without a projection, only the rows themselves are sorted and cut off. -/
theorem evaluate_of_not_projected (h : b.projected = false) (rows : List Row) :
    b.evaluate m rows =
      m.page b.limit b.offset (m.sort Row.get b.orderBy (b.filterRows m rows)) := by
  obtain ⟨hprojection, hdistinct⟩ := projected_eq_false.mp h
  simp only [evaluate, Meaning.map_page, outputs, hprojection, distinctOutputs, hdistinct,
    Bool.false_eq_true, if_false, orderOutputs_eq_sort]
  congr 1
  have hrows : ((b.filterRows m rows).map fun row => (row, row)).map Prod.fst =
      b.filterRows m rows := by
    simp [Function.comp_def]
  rw [Meaning.map_sort Prod.fst, hrows]
  intro p hp key _
  obtain ⟨row, -, rfl⟩ := List.mem_map.mp hp
  exact readOutput_self row _

/-- A condition that is added to a SELECT filters its rows, if it neither projects nor is paged. -/
theorem evaluate_add_filter (hprojected : b.projected = false) (hpaged : b.paged = false)
    (e : Expr) (rows : List Row) :
    (b.add (.filter e)).evaluate m rows = (b.evaluate m rows).filter (m.holds e) := by
  obtain ⟨horder, hlimit, hoffset⟩ := paged_eq_false.mp hpaged
  have hadded : (b.add (.filter e)).projected = false := hprojected
  rw [evaluate_of_not_projected hprojected, evaluate_of_not_projected hadded]
  simp [add, horder, hlimit, hoffset, Meaning.page, Meaning.sort_nil, filterRows,
    List.filter_filter, Bool.and_comm]

/-- A DISTINCT that is added to a SELECT drops repeated rows, if it has none and is not paged. -/
theorem evaluate_add_distinct (hdistinct : b.distinct = false) (hpaged : b.paged = false)
    (rows : List Row) :
    (b.add .distinct).evaluate m rows = (b.evaluate m rows).eraseDups := by
  obtain ⟨horder, hlimit, hoffset⟩ := paged_eq_false.mp hpaged
  simp only [evaluate, add, orderOutputs_eq_sort, horder, hlimit, hoffset, hdistinct, Meaning.page,
    Meaning.sort_nil, distinctOutputs, if_true, Bool.false_eq_true, if_false]
  exact map_eraseDupsBy Prod.fst _

/-- An order that is added to a SELECT sorts its rows, if it is not paged and the keys are read from
its rows. -/
theorem evaluate_add_orderBy (hpaged : b.paged = false) {keys : List OrderKey}
    (hsorts : ∀ key ∈ keys, key.sorts (b.evaluate m rows) = true) :
    (b.add (.orderBy keys)).evaluate m rows = m.sort Row.get keys (b.evaluate m rows) := by
  obtain ⟨horder, hlimit, hoffset⟩ := paged_eq_false.mp hpaged
  have heval : b.evaluate m rows =
      (b.distinctOutputs (b.outputs m (b.filterRows m rows))).map Prod.fst := by
    simp [evaluate, orderOutputs_eq_sort, Meaning.sort_nil, horder, hlimit, hoffset, Meaning.page]
  have hadded : (b.add (.orderBy keys)).evaluate m rows = (m.sort readOutput keys
      (b.distinctOutputs (b.outputs m (b.filterRows m rows)))).map Prod.fst := by
    simp [evaluate, add, orderOutputs_eq_sort, hlimit, hoffset, Meaning.page, distinctOutputs,
      outputs, filterRows]
  rw [hadded, heval]
  refine Meaning.map_sort Prod.fst fun p hp key hkey => ?_
  have hcolumn : (p.1.lookup key.column).isSome = true := by
    have hkey := hsorts key hkey
    rw [heval, OrderKey.sorts, Bool.and_eq_true, List.all_eq_true] at hkey
    exact hkey.2 p.1 (List.mem_map_of_mem hp)
  obtain ⟨value, hvalue⟩ := Option.isSome_iff_exists.mp hcolumn
  simp [readOutput, Row.get, hvalue]

/-- A limit that is added to a SELECT takes the first of its rows, if it has none. -/
theorem evaluate_add_limit (hlimit : b.limit = none) (e : Expr) (rows : List Row) :
    (b.add (.limit e)).evaluate m rows = (b.evaluate m rows).take (m.count e) := by
  simp only [evaluate, add, hlimit, Meaning.page, List.map_take]
  rfl

/-- An offset that is added to a SELECT drops the first of its rows, if it has neither offset nor
limit. -/
theorem evaluate_add_offset (hoffset : b.offset = none) (hlimit : b.limit = none) (e : Expr)
    (rows : List Row) :
    (b.add (.offset e)).evaluate m rows = (b.evaluate m rows).drop (m.count e) := by
  simp only [evaluate, add, hoffset, hlimit, Meaning.page, List.map_drop]
  rfl

end Block

/-- The value of the window call at a row depends on the rows, but not on their order. -/
def Meaning.IgnoresOrder (m : Meaning) (e : Expr) : Prop :=
  ∀ rows rows' : List Row, rows.Perm rows' → ∀ i j row, rows[i]? = some row →
    rows'[j]? = some row → m.window e rows i = m.window e rows' j

/-- The items may join the SELECT. An item that takes the name of an order key is that key, and
where there are window calls nothing is cut off, and nothing sorted that they could tell. -/
structure Block.Admits (m : Meaning) (b : Block) (items : List SelectItem) : Prop where
  keys : ∀ key ∈ b.orderBy, ∀ item ∈ items, item.outputName = key.column →
    item.expr = .column none key.column
  windows : (∀ item ∈ items, item.expr.isWindow = false) ∨
    b.limit = none ∧ b.offset = none ∧
      (b.orderBy = [] ∨ ∀ item ∈ items, item.expr.isWindow = true → m.IgnoresOrder item.expr)

/-- A bare expression is a column without a qualifier. -/
theorem Expr.isBare_iff {e : Expr} : e.isBare = true ↔ ∃ name, e = .column none name := by
  constructor
  · intro h
    unfold Expr.isBare at h
    split at h
    · next name => exact ⟨name, rfl⟩
    · cases h
  · rintro ⟨name, rfl⟩
    rfl

section Projecting

variable {m : Meaning} {b : Block} {items : List SelectItem}

/-- Where items that take its name are the column itself, an order key still means the row that
the output comes from. -/
theorem Meaning.readOutput_output {name : String}
    (h : ∀ item ∈ items, item.outputName = name → item.expr = .column none name)
    (rows : List Row) (i : Nat) (row : Row) :
    Block.readOutput (m.output items rows i row, row) name = Row.get row name := by
  induction items with
  | nil => rfl
  | cons item items ih =>
    rw [List.forall_mem_cons] at h
    by_cases hname : item.outputName = name
    · simp [Block.readOutput, Meaning.output, hname, h.1 hname, Meaning.value]
    · have hne : (name == item.outputName) = false := by simpa using Ne.symm hname
      have hrest := ih h.2
      simpa [Block.readOutput, Meaning.output, List.lookup_cons, hne] using hrest

/-- An output beside its row is what the items make of this row. -/
theorem Meaning.mem_project_zip {rows : List Row} {p : Row × Row}
    (h : p ∈ (m.project items rows).zip rows) :
    ∃ i, rows[i]? = some p.2 ∧ p.1 = m.output items rows i p.2 := by
  obtain ⟨i, hi⟩ := List.mem_iff_getElem?.mp h
  obtain ⟨hout, hrow⟩ := List.getElem?_zip_eq_some.mp hi
  refine ⟨i, hrow, ?_⟩
  rw [Meaning.project, List.getElem?_mapIdx, hrow] at hout
  exact (Option.some.inj hout).symm

/-- At the same row, two lists of rows give the same output if no window call tells them apart. -/
theorem Meaning.output_congr {rows rows' : List Row} {i j : Nat} {row : Row}
    (h : ∀ item ∈ items, item.expr.isBare = true ∨
      m.window item.expr rows i = m.window item.expr rows' j) :
    m.output items rows i row = m.output items rows' j row := by
  refine List.map_congr_left fun item hitem => ?_
  congr 1
  unfold Meaning.value
  split
  · rfl
  · next hcolumn =>
    rcases h item hitem with hbare | hwindow
    · obtain ⟨name, hname⟩ := Expr.isBare_iff.mp hbare
      exact absurd hname (hcolumn name)
    · exact hwindow

/-- Pairs are known from their second parts, if those determine the first ones. -/
theorem map_fst_eq_mapIdx {α β : Type} {ps : List (α × β)} {bs : List β} {g : Nat → β → α}
    (hsnd : ps.map Prod.snd = bs) (h : ∀ p ∈ ps, ∀ j, bs[j]? = some p.2 → p.1 = g j p.2) :
    ps.map Prod.fst = bs.mapIdx g := by
  subst hsnd
  refine List.ext_getElem? fun j => ?_
  rw [List.getElem?_mapIdx, List.getElem?_map, List.getElem?_map]
  cases hp : ps[j]? with
  | none => rfl
  | some p =>
    have hsnd : (ps.map Prod.snd)[j]? = some p.2 := by rw [List.getElem?_map, hp]; rfl
    simp [h p (List.mem_of_getElem? hp) j hsnd]

/-- Sorting the outputs sorts the rows that they come from. -/
theorem Meaning.map_snd_sort_project {keys : List OrderKey}
    (h : ∀ key ∈ keys, ∀ item ∈ items, item.outputName = key.column →
      item.expr = .column none key.column) (rows : List Row) :
    (m.sort Block.readOutput keys ((m.project items rows).zip rows)).map Prod.snd =
      m.sort Row.get keys rows := by
  rw [Meaning.map_sort Prod.snd, Block.map_snd_project_zip]
  intro p hp key hkey
  obtain ⟨i, -, hout⟩ := Meaning.mem_project_zip hp
  have hread := Meaning.readOutput_output (m := m) (h key hkey) rows i p.2
  rwa [← hout] at hread

/-- Where something is sorted or cut off after it, an admitted window call has the same value
before and afterwards. -/
theorem Block.Admits.window_eq (hadmits : b.Admits m items) (hpaged : b.paged = true)
    {item : SelectItem} (hitem : item ∈ items) (hwindow : item.expr.isWindow = true)
    {rows : List Row} {i j : Nat} {row : Row} (hi : rows[i]? = some row)
    (hj : (m.page b.limit b.offset (m.sort Row.get b.orderBy rows))[j]? = some row) :
    m.window item.expr rows i =
      m.window item.expr (m.page b.limit b.offset (m.sort Row.get b.orderBy rows)) j := by
  rcases hadmits.windows with hnone | ⟨hlimit, hoffset, horder | hignores⟩
  · rw [hnone item hitem] at hwindow
    cases hwindow
  · rw [Block.paged, horder, hlimit, hoffset] at hpaged
    cases hpaged
  · simp only [hlimit, hoffset, Meaning.page] at hj ⊢
    exact hignores item hitem hwindow rows _ (List.mergeSort_perm _ _).symm i j row hi hj

/-- A projection that a SELECT admits acts on the rows that the SELECT gave before, even though
they are projected first and sorted and cut off afterwards. -/
theorem Block.evaluate_add_select (hprojected : b.projected = false)
    (hplain : ∀ item ∈ items, item.isPlain = true) (hadmits : b.Admits m items)
    (rows : List Row) :
    (b.add (.select items)).evaluate m rows = m.project items (b.evaluate m rows) := by
  obtain ⟨-, hdistinct⟩ := projected_eq_false.mp hprojected
  rw [evaluate_of_not_projected hprojected]
  have hadded : (b.add (.select items)).evaluate m rows = (m.page b.limit b.offset
      (m.sort readOutput b.orderBy
        ((m.project items (b.filterRows m rows)).zip (b.filterRows m rows)))).map Prod.fst := by
    simp [evaluate, add, outputs, distinctOutputs, hdistinct, orderOutputs_eq_sort, filterRows]
  rw [hadded]
  generalize b.filterRows m rows = kept
  cases hpaged : b.paged with
  | false =>
    -- Nothing comes after the projection, so it sees what the stage sees.
    obtain ⟨horder, hlimit, hoffset⟩ := paged_eq_false.mp hpaged
    simp only [hlimit, hoffset, horder, Meaning.page, Meaning.sort_nil]
    exact map_fst_project_zip items kept
  | true =>
    refine map_fst_eq_mapIdx ?_ fun p hp j hj => ?_
    · rw [Meaning.map_page, Meaning.map_snd_sort_project hadmits.keys]
    · have hmem : p ∈ (m.project items kept).zip kept :=
        (List.mergeSort_perm _ _).mem_iff.mp (Meaning.mem_of_mem_page hp)
      obtain ⟨i, hi, hout⟩ := Meaning.mem_project_zip hmem
      rw [hout]
      refine Meaning.output_congr fun item hitem => ?_
      have hitem' := hplain item hitem
      rw [SelectItem.isPlain, Bool.or_eq_true] at hitem'
      exact hitem'.imp_right fun hwindow => hadmits.window_eq hpaged hitem hwindow hi hj

end Projecting

/-- What an addition makes of rows. -/
def Addition.act (m : Meaning) (rows : List Row) : Addition → List Row
  | .filter e => rows.filter (m.holds e)
  | .select items => m.project items rows
  | .distinct => rows.eraseDups
  | .orderBy keys => m.sort Row.get keys rows
  | .offset e => rows.drop (m.count e)
  | .limit e => rows.take (m.count e)
  | .join _ | .groupBy _ | .having _ => rows

/-- The addition is one that the readings cover, and can act on the rows. -/
def Addition.Suits (rows : List Row) : Addition → Prop
  | .filter _ | .distinct | .offset _ | .limit _ => True
  | .select items => ∀ item ∈ items, item.isPlain = true
  | .orderBy keys => ∀ key ∈ keys, key.sorts rows = true
  | .join _ | .groupBy _ | .having _ => False

/-- A plain SELECT stays plain if what is added suits the rows. -/
theorem Block.isPlain_add {b : Block} {a : Addition} {rows : List Row} (hb : b.isPlain = true)
    (hsuits : a.Suits rows) : (b.add a).isPlain = true := by
  simp only [Block.isPlain, Bool.and_eq_true] at hb ⊢
  obtain ⟨hrest, horder⟩ := hb
  cases a with
  | filter | distinct | offset | limit => exact ⟨hrest, horder⟩
  | select items => exact ⟨⟨hrest.1, List.all_eq_true.mpr hsuits⟩, horder⟩
  | orderBy keys =>
    refine ⟨hrest, List.all_eq_true.mpr fun key hkey => ?_⟩
    have hkey := hsuits key hkey
    rw [OrderKey.sorts, Bool.and_eq_true] at hkey
    exact hkey.1
  | join | groupBy | having => cases hsuits

/-- A SELECT that accepts a clause gives, once it is added, what the addition makes of the rows
before, provided that a projection is admitted. -/
theorem Block.rows?_add {m : Meaning} {b : Block} {a : Addition} {rows : List Row}
    (hrows : b.rows? m = some rows) (haccepts : b.accepts a.clause = true)
    (hsuits : a.Suits rows) (hadmits : ∀ items, a = .select items → b.Admits m items) :
    (b.add a).rows? m = some (a.act m rows) := by
  obtain ⟨base, hbase, hplain, rfl⟩ := Block.rows?_eq_some.mp hrows
  have hstep : (b.add a).evaluate m base = a.act m (b.evaluate m base) := by
    cases a with
    | filter e =>
      simp only [Addition.clause, Block.accepts, Bool.and_eq_true, Bool.not_eq_true'] at haccepts
      exact Block.evaluate_add_filter haccepts.1.2 haccepts.2 e base
    | select items =>
      simp only [Addition.clause, Block.accepts, Bool.not_eq_true'] at haccepts
      exact Block.evaluate_add_select haccepts hsuits (hadmits items rfl) base
    | distinct =>
      simp only [Addition.clause, Block.accepts, Bool.and_eq_true, Bool.not_eq_true'] at haccepts
      exact Block.evaluate_add_distinct haccepts.1 haccepts.2 base
    | orderBy keys =>
      simp only [Addition.clause, Block.accepts, Bool.not_eq_true'] at haccepts
      exact Block.evaluate_add_orderBy haccepts hsuits
    | offset e =>
      simp only [Addition.clause, Block.accepts, Bool.and_eq_true, Option.isNone_iff_eq_none]
        at haccepts
      exact Block.evaluate_add_offset haccepts.1 haccepts.2 e base
    | limit e =>
      simp only [Addition.clause, Block.accepts, Option.isNone_iff_eq_none] at haccepts
      exact Block.evaluate_add_limit haccepts e base
    | join | groupBy | having => cases hsuits
  have horigin : (b.add a).origin = b.origin := by cases a <;> rfl
  refine Block.rows?_eq_some.mpr ⟨base, ?_, Block.isPlain_add hplain hsuits, hstep⟩
  rw [horigin, hbase]

/-- A new SELECT gives the rows of what it reads from. -/
theorem Block.rows?_ofOrigin (m : Meaning) (origin : Origin) :
    (Block.ofOrigin origin).rows? m = origin.rows? m := by
  have hrows (rows : List Row) : (Block.ofOrigin origin).evaluate m rows = rows := by
    rw [Block.evaluate_of_not_projected rfl]
    simp [Block.ofOrigin, Meaning.page, Meaning.sort_nil, Block.filterRows]
  have hplain : (Block.ofOrigin origin).isPlain = true := rfl
  rw [Block.rows?_eq, hplain]
  simp only [hrows, if_true]
  exact Option.bind_fun_some _

/-- The SELECT over a statement that accepts a clause gives the rows of the statement. -/
theorem Statement.rows?_blockFor (m : Meaning) (clause : Clause) (name : String) (s : Statement) :
    (s.blockFor clause name).rows? m = s.rows? m := by
  cases s with
  | select block =>
    by_cases h : block.accepts clause = true
    · rw [blockFor, if_pos h]
      rfl
    · rw [blockFor, if_neg h]
      exact Block.rows?_ofOrigin m _
  | _ => exact Block.rows?_ofOrigin m _

/-- A projection is always admitted where nothing has been sorted or cut off. -/
theorem Block.admits_ofOrigin (m : Meaning) (origin : Origin) (items : List SelectItem) :
    (Block.ofOrigin origin).Admits m items where
  keys _ hkey := by cases hkey
  windows := .inr ⟨rfl, rfl, .inl rfl⟩

/-- A statement that is extended gives what the addition makes of its rows. -/
theorem Statement.rows?_extend {m : Meaning} {s : Statement} {a : Addition} {rows : List Row}
    (name : String) (hrows : s.rows? m = some rows) (hsuits : a.Suits rows)
    (hadmits : ∀ items b, a = .select items → s = .select b → b.accepts .select = true →
      b.Admits m items) :
    (s.extend name (some a)).rows? m = some (a.act m rows) := by
  refine Block.rows?_add ?_ (s.accepts_blockFor a.clause name) hsuits ?_
  · rw [Statement.rows?_blockFor, hrows]
  · rintro items rfl
    cases s with
    | select b =>
      by_cases h : b.accepts .select = true
      · rw [Addition.clause, blockFor, if_pos h]
        exact hadmits items b rfl rfl h
      · rw [Addition.clause, blockFor, if_neg h]
        exact Block.admits_ofOrigin m _ items
    | _ => cases hrows

/-- What is kept of an outcome is its result. -/
theorem toOption_eq_some {ε α : Type} {x : Except ε α} {a : α} :
    x.toOption = some a ↔ x = .ok a := by
  cases x <;> simp [Except.toOption]

/-- A stage that makes something of the rows adds a clause that makes the same of them. -/
theorem Stage.exists_addition {m : Meaning} {scope : Scope} {rows out : List Row} {stage : Stage}
    (d : Dialect) (h : stage.rows? m scope rows = some out) :
    stage.kind.isRowStage = true ∧
      ∃ a, stage.addition d scope = .ok (some a) ∧ a.Suits rows ∧ a.act m rows = out := by
  cases stage with
  | filter e =>
    simp only [Stage.rows?, Option.bind_eq_bind, Option.bind_eq_some_iff, toOption_eq_some] at h
    obtain ⟨e', he, hout⟩ := h
    exact ⟨rfl, .filter e', by simp [Stage.addition, he], trivial, Option.some.inj hout⟩
  | offset e =>
    simp only [Stage.rows?, Option.bind_eq_bind, Option.bind_eq_some_iff, toOption_eq_some] at h
    obtain ⟨e', he, hout⟩ := h
    exact ⟨rfl, .offset e', by simp [Stage.addition, he], trivial, Option.some.inj hout⟩
  | limit e =>
    simp only [Stage.rows?, Option.bind_eq_bind, Option.bind_eq_some_iff, toOption_eq_some] at h
    obtain ⟨e', he, hout⟩ := h
    exact ⟨rfl, .limit e', by simp [Stage.addition, he], trivial, Option.some.inj hout⟩
  | select shape items =>
    simp only [Stage.rows?, Option.bind_eq_bind, Option.bind_eq_some_iff, toOption_eq_some] at h
    obtain ⟨items', hitems, hout⟩ := h
    split at hout
    · next hplain =>
      cases Option.some.inj hout
      simp only [Bool.and_eq_true, Bool.not_eq_true', List.isEmpty_eq_false_iff,
        List.all_eq_true] at hplain
      cases items with
      | nil =>
        cases hitems
        exact absurd rfl hplain.1
      | cons item items =>
        exact ⟨rfl, .select items', by simp [Stage.addition, hitems], hplain.2, rfl⟩
    · cases hout
  | distinct => exact ⟨rfl, .distinct, rfl, trivial, Option.some.inj h⟩
  | orderBy keys =>
    simp only [Stage.rows?, Option.bind_eq_bind, Option.bind_eq_some_iff, toOption_eq_some] at h
    obtain ⟨keys', hkeys, hout⟩ := h
    split at hout
    · next hsorts =>
      cases Option.some.inj hout
      simp only [Bool.and_eq_true, Bool.not_eq_true', List.isEmpty_eq_false_iff,
        List.all_eq_true] at hsorts
      cases keys with
      | nil =>
        cases hkeys
        exact absurd rfl hsorts.1
      | cons key keys =>
        exact ⟨rfl, .orderBy keys', by simp [Stage.addition, hkeys], hsorts.2, rfl⟩
    · cases hout
  | _ => cases h

/-- Every projection that joins a SELECT is admitted by it. -/
def Query.Admissible (m : Meaning) (d : Dialect) : Query → Prop
  | .step source stage =>
    source.Admissible m d ∧ ∀ items b,
      stage.addition d (Query.step source stage).scope = .ok (some (.select items)) →
      source.lower d = .ok (.select b) → b.accepts .select = true → b.Admits m items
  | _ => True

/-- The statement of a pipeline gives the rows that its stages give one after the other, if every
projection that joins a SELECT is admitted by it. -/
theorem rows_lower {m : Meaning} {d : Dialect} : ∀ {q : Query} {rows : List Row},
    q.rows? m = some rows → q.Admissible m d →
    ∃ s, q.lower d = .ok s ∧ s.rows? m = some rows
  | .table name, rows, hrows, _ =>
    ⟨_, rfl, (Block.rows?_ofOrigin m (.table name)).trans hrows⟩
  | .step source stage, rows, hrows, hadmissible => by
    obtain ⟨below, hbelow, hstage⟩ := Option.bind_eq_some_iff.mp hrows
    obtain ⟨s, hs, hsrows⟩ := rows_lower hbelow hadmissible.1
    obtain ⟨hrow, a, ha, hsuits, rfl⟩ := Stage.exists_addition d hstage
    have hform : s.form = .rows := by
      cases s with
      | select b => rfl
      | _ => cases hsrows
    refine ⟨s.extend source.scope.derivedName (some a), ?_, ?_⟩
    · exact (Stage.lower_rowStage_eq_ok hrow).mpr ⟨some a, s, ha, hs, hform, rfl⟩
    · refine Statement.rows?_extend _ hsrows hsuits ?_
      rintro items b rfl rfl haccepts
      exact hadmissible.2 items b ha hs haccepts
  | .setOperation .., _, hrows, _ | .withCtes .., _, hrows, _ | .insertInto .., _, hrows, _
  | .update _, _, hrows, _ | .deleteFrom _, _, hrows, _ => by cases hrows
termination_by structural q => q

/-- Two rows are sorted by exchanging them unless the first precedes the second. -/
theorem Meaning.sort_pair {α : Type} (m : Meaning) (read : α → String → Value)
    (keys : List OrderKey) (a b : α) :
    m.sort read keys [a, b] = if m.precedes read keys a b then [a, b] else [b, a] := by
  simp [Meaning.sort, List.mergeSort, List.merge]

/-- A meaning with the given rows for every table, under which a column holds where it is true and
every window call counts the rows. -/
def Meaning.counting (rows : List Row) : Meaning where
  table _ := rows
  holds
    | .column _ name, row => Row.get row name == .bool true
    | _, _ => true
  count
    | .literal (.int n) => n.toNatClampNeg
    | _ => 0
  window _ rows _ := .int (.ofNat rows.length)
  compare direction _
    | .int x, .int y => if direction = .asc then Ord.compare x y else Ord.compare y x
    | _, _ => .eq

/-- COUNT(*) OVER (), under a name if there is one. -/
def SelectItem.countOver (name : Option String) : SelectItem :=
  ⟨.window "COUNT" [.wildcard] [] [] none, name⟩

/-- The first of the active rows, together with their number. -/
def Query.firstActive : Query :=
  ((((Query.table "users").filter (.placeholder "active")).orderBy
    [⟨.column none "id", .asc, none⟩]).select
      [⟨.column none "id", none⟩, .countOver (some "total")] none).limit (.literal (.int 1))

/-- A filter, an order, a projection with a window call and a limit share one SELECT, in which the
projection comes before the order. -/
theorem rows_lower_firstActive :
    ∃ s, Query.firstActive.lower Profile.postgres.dialect = .ok s ∧
      s.rows? (.counting [[("id", .int 3), ("active", .bool true)],
        [("id", .int 1), ("active", .bool false)], [("id", .int 2), ("active", .bool true)]]) =
        some [[("id", .int 2), ("total", .int 2)]] := by
  refine rows_lower ?_
    (And.intro (And.intro (And.intro (And.intro trivial nofun) nofun) ?_) nofun)
  · exact congrArg (fun sorted => some ((Meaning.project _ _ sorted).take 1))
      (Meaning.sort_pair _ Row.get [⟨.column none "id", .asc, none⟩] _ _)
  intro items b hitems hlower _
  cases hitems
  cases hlower
  constructor
  · intro key hkey item hitem hname
    have hkey : key = ⟨.column none "id", .asc, none⟩ := List.mem_singleton.mp hkey
    have hitem : item ∈ [⟨.column none "id", none⟩, SelectItem.countOver (some "total")] := hitem
    subst hkey
    rcases List.mem_cons.mp hitem with rfl | hitem
    · rfl
    · cases List.mem_singleton.mp hitem
      exact absurd hname (by decide)
  · refine .inr ⟨rfl, rfl, .inr fun item hitem _ rows rows' hperm _ _ _ _ _ => ?_⟩
    simp [Meaning.counting, hperm.length_eq]

/-- Projections that are not admitted change the rows. A count over the rows that a LIMIT has left
becomes a count of all rows, and an order by a column becomes an order by the output that takes its
name. -/
theorem rows_lower_not_admitted :
    let d := Profile.postgres.dialect
    let limited := ((Query.table "t").limit (.literal (.int 1))).select [.countOver none] none
    let renamed := ((Query.table "t").orderBy [⟨.column none "a", .asc, none⟩]).select
      [⟨.column none "b", some "a"⟩] none
    let m := Meaning.counting
      [[("a", .int 1), ("b", .int 2)], [("a", .int 2), ("b", .int 1)]]
    (limited.rows? m = some [[("count", .int 1)]] ∧
      ∃ s, limited.lower d = .ok s ∧ s.rows? m = some [[("count", .int 2)]]) ∧
    (renamed.rows? m = some [[("a", .int 2)], [("a", .int 1)]] ∧
      ∃ s, renamed.lower d = .ok s ∧ s.rows? m = some [[("a", .int 1)], [("a", .int 2)]]) := by
  refine ⟨⟨rfl, _, rfl, rfl⟩, ?_, _, rfl, ?_⟩
  · exact congrArg (fun sorted => some (Meaning.project _ _ sorted))
      (Meaning.sort_pair _ Row.get [⟨.column none "a", .asc, none⟩] _ _)
  · exact congrArg (fun sorted => some (sorted.map Prod.fst))
      (Meaning.sort_pair _ Block.readOutput [⟨.column none "a", .asc, none⟩] _ _)

end SqlAlgebra
