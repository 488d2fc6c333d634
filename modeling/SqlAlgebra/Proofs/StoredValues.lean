import SqlAlgebra.Proofs.Faithfulness
import SqlAlgebra.Query.Restoring

/-!
# Values are stored faithfully

Whatever the format is, operators, types, constants, frames and shapes are read back as they were
written, and what is read could as well have been written. Only constants that are not finite are
lost.
-/

namespace SqlAlgebra

variable {ω δ : Type} {f : Format ω δ} (h : f.Faithful) (limit : Nat)

namespace Format.Faithful.Carries

/-- Truth values are carried. -/
theorem bool : h.Carries limit f.bool f.bool? (fun _ => True) where
  read_of_within _ hx := h.holds_bool hx.2
  fits_of_read ha := ⟨h.fits_bool ha, trivial⟩

/-- Texts are carried. -/
theorem text : h.Carries limit f.text f.text? (fun _ => True) where
  read_of_within _ hx := h.holds_text hx.2
  fits_of_read ha := ⟨h.fits_text ha, trivial⟩

/-- Signed integers are carried. -/
theorem int64 : h.Carries limit f.int64 f.int64? (fun _ => True) where
  read_of_within _ hx := h.holds_int64 hx.2
  fits_of_read ha := ⟨h.fits_int64 ha, trivial⟩

/-- Unsigned integers are carried. -/
theorem uint64 : h.Carries limit f.uint64 f.uint64? (fun _ => True) where
  read_of_within _ hx := h.holds_uint64 hx.2
  fits_of_read ha := ⟨h.fits_uint64 ha, trivial⟩

/-- Finite floating-point numbers are carried. -/
theorem binary64 : h.Carries limit f.binary64 f.binary64? (fun x => x.isFinite = true) where
  read_of_within hfinite hx := h.holds_binary64 hfinite hx.2
  fits_of_read ha := And.symm (h.fits_binary64 ha)

/-- A list of texts. -/
theorem texts : h.Carries limit f.texts (f.listOf? f.text?) (fun _ => True) :=
  (Carries.text h limit).list.congr (by simp)

/-- A text that may be missing. -/
theorem optionalText :
    h.Carries limit (f.ofOption f.text) (f.optionOf? f.text?) (fun _ => True) :=
  ((Carries.text h limit).option .text).congr (by simp)

end Format.Faithful.Carries

open Format.Faithful

/-- Reading goes on with what has been read. -/
theorem read_bind {α β : Type} {x : Option α} {k : α → Option β} {a : α} {b : β}
    (hx : x = some a) (hk : k a = some b) : x.bind k = some b := by
  rw [hx]
  exact hk

/-- Binary operators are carried. -/
theorem BinaryOperator.carries : h.Carries limit (write f) (read? f) (fun _ => True) :=
  .all_named (by decide) (by decide) (fun op => by cases op <;> decide)

/-- Unary operators are carried. -/
theorem UnaryOperator.carries : h.Carries limit (write f) (read? f) (fun _ => True) :=
  .all_named (by decide) (by decide) (fun op => by cases op <;> decide)

/-- Set operators are carried. -/
theorem SetOperator.carries : h.Carries limit (write f) (read? f) (fun _ => True) :=
  .all_named (by decide) (by decide) (fun op => by cases op <;> decide)

/-- The kinds of joins are carried. -/
theorem JoinKind.carries : h.Carries limit (write f) (read? f) (fun _ => True) :=
  .all_named (by decide) (by decide) (fun kind => by cases kind <;> decide)

/-- Sort directions are carried. -/
theorem SortDirection.carries : h.Carries limit (write f) (read? f) (fun _ => True) :=
  .all_named (by decide) (by decide) (fun direction => by cases direction <;> decide)

/-- The places of nulls are carried. -/
theorem NullsOrder.carries : h.Carries limit (write f) (read? f) (fun _ => True) :=
  .all_named (by decide) (by decide) (fun nulls => by cases nulls <;> decide)

/-- The modes of window frames are carried. -/
theorem FrameMode.carries : h.Carries limit (write f) (read? f) (fun _ => True) :=
  .all_named (by decide) (by decide) (fun mode => by cases mode <;> decide)

/-- The place of nulls is not written as a missing value. -/
theorem NullsOrder.solid (nulls : NullsOrder) : f.Solid (nulls.write f) := by
  cases nulls with
  | first => exact .constant "First"
  | last => exact .constant "Last"

/-- A place of the nulls that need not be given. -/
theorem NullsOrder.carries_option :
    h.Carries limit (f.ofOption (write f)) (f.optionOf? (read? f)) (fun _ => True) :=
  ((NullsOrder.carries h limit).option solid).congr (by simp)

/-- The bound of a window frame is not written as a missing value. -/
theorem FrameBound.solid (bound : FrameBound) : f.Solid (bound.write f) := by
  cases bound with
  | currentRow => exact .constant _
  | preceding n => exact .wrapped _ _
  | following n => exact .wrapped _ _

/-- The distance of a bound, which is not there if the bound is the end of the rows. -/
theorem FrameBound.carries_distance :
    h.Carries limit (f.ofOption f.uint64) (f.optionOf? f.uint64?) (fun _ => True) :=
  ((Carries.uint64 h limit).option .uint64).congr (by simp)

/-- The bounds of window frames are carried. -/
theorem FrameBound.carries : h.Carries limit (write f) (read? f) (fun _ => True) where
  read_of_within {x bound} _ hx := by
    cases bound with
    | currentRow =>
      obtain ⟨contents, hvariant, hempty⟩ := h.holds_constant hx.2
      rw [read?, hvariant]
      exact if_pos hempty
    | preceding n =>
      obtain ⟨y, hvariant, hy⟩ := (hx.mono (Nat.le_succ limit)).wrapped
      rw [read?, hvariant]
      exact congrArg (Option.map preceding) ((carries_distance h limit).read_of_within trivial hy)
    | following n =>
      obtain ⟨y, hvariant, hy⟩ := (hx.mono (Nat.le_succ limit)).wrapped
      rw [read?, hvariant]
      exact congrArg (Option.map following) ((carries_distance h limit).read_of_within trivial hy)
  fits_of_read {x bound} hbound := by
    refine ⟨?_, trivial⟩
    unfold read? at hbound
    split at hbound
    · rename_i contents hvariant
      obtain ⟨hempty, heq⟩ := Option.ite_none_right_eq_some.mp hbound
      cases heq
      exact h.fits_constant hvariant hempty
    · rename_i y hvariant
      obtain ⟨n, hn, rfl⟩ := Option.map_eq_some_iff.mp hbound
      exact h.fits_wrapped hvariant ((carries_distance h limit).fits_of_read hn).1
    · rename_i y hvariant
      obtain ⟨n, hn, rfl⟩ := Option.map_eq_some_iff.mp hbound
      exact h.fits_wrapped hvariant ((carries_distance h limit).fits_of_read hn).1
    · cases hbound

/-- An end that need not be given. -/
theorem FrameBound.carries_option :
    h.Carries limit (f.ofOption (write f)) (f.optionOf? (read? f)) (fun _ => True) :=
  ((FrameBound.carries h limit).option solid).congr (by simp)

/-- Window frames are carried. -/
theorem Frame.carries : h.Carries limit (write f) (read? f) (fun _ => True) where
  read_of_within {x frame} _ hx := by
    obtain ⟨ys, hrecord, hys⟩ := hx.record (by simp)
    obtain _ | ⟨hmode, _ | ⟨hstart, _ | ⟨hstop, _ | _⟩⟩⟩ := hys
    exact read_bind hrecord <|
      read_bind ((FrameMode.carries h limit).read_of_within trivial hmode) <|
      read_bind ((FrameBound.carries h limit).read_of_within trivial hstart) <|
      read_bind ((FrameBound.carries_option h limit).read_of_within trivial hstop) rfl
  fits_of_read {x frame} hframe := by
    refine ⟨?_, trivial⟩
    obtain ⟨parts, hrecord, hframe⟩ := Option.bind_eq_some_iff.mp hframe
    split at hframe
    · simp only [Option.bind_eq_bind, Option.bind_eq_some_iff, Option.pure_def,
        Option.some.injEq] at hframe
      obtain ⟨mode, hmode, start, hstart, stop, hstop, rfl⟩ := hframe
      exact h.fits_record hrecord <|
        .cons ((FrameMode.carries h limit).required hmode).1 <|
        .cons ((FrameBound.carries h limit).required hstart).1 <|
        .cons ((FrameBound.carries_option h limit).optional rfl trivial hstop).1 .nil
    · cases hframe

/-- A frame that need not be given. -/
theorem Frame.carries_option :
    h.Carries limit (f.ofOption (write f)) (f.optionOf? (read? f)) (fun _ => True) :=
  ((Frame.carries h limit).option fun _ => .record _).congr (by simp)

/-- The types that have a name, which are all but the custom ones. -/
theorem SqlType.carries_names :
    h.Carries limit (f.ofNamed names) (f.named? names) (fun type => type ∈ names.map (·.2)) :=
  .named (by decide) (by decide)

/-- The kind of the custom types is not a name of the table. -/
theorem SqlType.named?_custom {x : δ} {contents : Option δ}
    (hx : f.variant? x = some ("Custom", contents)) : f.named? names x = none := by
  rw [Format.named?, Format.constant?, hx]
  simp only
  split <;> rfl

/-- A type that is written by its name is read back. -/
theorem SqlType.read?_of_mem {x : δ} {type : SqlType} (htype : type ∈ names.map (·.2))
    (hx : h.Within limit x (f.ofNamed names type)) : read? f x = some type := by
  have hnamed := (carries_names h limit).read_of_within htype hx
  unfold read?
  split
  · rename_i y hvariant
    rw [named?_custom hvariant] at hnamed
    cases hnamed
  · exact hnamed

/-- Types are carried. -/
theorem SqlType.carries : h.Carries limit (write f) (read? f) (fun _ => True) where
  read_of_within {x type} _ hx := by
    cases type with
    | custom name =>
      obtain ⟨y, hvariant, hy⟩ := (hx.mono (Nat.le_succ limit)).wrapped
      rw [read?, hvariant]
      exact congrArg (Option.map custom) (h.holds_text hy.2)
    | _ => exact read?_of_mem h limit (by decide) hx
  fits_of_read {x type} htype := by
    refine ⟨?_, trivial⟩
    unfold read? at htype
    split at htype
    · rename_i y hvariant
      obtain ⟨name, hname, rfl⟩ := Option.map_eq_some_iff.mp htype
      exact h.fits_wrapped hvariant (h.fits_text hname)
    · obtain ⟨hfits, hmem⟩ := (carries_names h limit).fits_of_read htype
      cases type with
      | custom name => exact absurd hmem (by simp [names])
      | _ => exact hfits

/-- Finite values are carried. -/
theorem Value.carries :
    h.Carries limit (write f) (read? f) (fun value => value.isFinite = true) where
  read_of_within {x value} hfinite hx := by
    cases value with
    | null =>
      obtain ⟨contents, hvariant, hempty⟩ := h.holds_constant hx.2
      rw [read?, hvariant]
      exact if_pos hempty
    | bool b =>
      obtain ⟨y, hvariant, hy⟩ := (hx.mono (Nat.le_succ limit)).wrapped
      rw [read?, hvariant]
      exact congrArg (Option.map bool) (h.holds_bool hy.2)
    | int n =>
      obtain ⟨y, hvariant, hy⟩ := (hx.mono (Nat.le_succ limit)).wrapped
      rw [read?, hvariant]
      exact congrArg (Option.map int) (h.holds_int64 hy.2)
    | float v =>
      obtain ⟨y, hvariant, hy⟩ := (hx.mono (Nat.le_succ limit)).wrapped
      rw [read?, hvariant]
      exact congrArg (Option.map float) (h.holds_binary64 hfinite hy.2)
    | text s =>
      obtain ⟨y, hvariant, hy⟩ := (hx.mono (Nat.le_succ limit)).wrapped
      rw [read?, hvariant]
      exact congrArg (Option.map text) (h.holds_text hy.2)
  fits_of_read {x value} hvalue := by
    unfold read? at hvalue
    split at hvalue
    case h_1 contents hvariant =>
      obtain ⟨hempty, heq⟩ := Option.ite_none_right_eq_some.mp hvalue
      cases heq
      exact ⟨h.fits_constant hvariant hempty, rfl⟩
    case h_2 y hvariant =>
      obtain ⟨b, hb, rfl⟩ := Option.map_eq_some_iff.mp hvalue
      exact ⟨h.fits_wrapped hvariant (h.fits_bool hb), rfl⟩
    case h_3 y hvariant =>
      obtain ⟨n, hn, rfl⟩ := Option.map_eq_some_iff.mp hvalue
      exact ⟨h.fits_wrapped hvariant (h.fits_int64 hn), rfl⟩
    case h_4 y hvariant =>
      obtain ⟨v, hv, rfl⟩ := Option.map_eq_some_iff.mp hvalue
      obtain ⟨hfinite, hfits⟩ := h.fits_binary64 hv
      exact ⟨h.fits_wrapped hvariant hfits, hfinite⟩
    case h_5 y hvariant =>
      obtain ⟨s, hs, rfl⟩ := Option.map_eq_some_iff.mp hvalue
      exact ⟨h.fits_wrapped hvariant (h.fits_text hs), rfl⟩
    case h_6 => cases hvalue

/-- Shapes of rows are carried. -/
theorem Shape.carries : h.Carries limit (write f) (read? f) (fun _ => True) where
  read_of_within {x shape} _ hx := by
    cases shape with
    | table name =>
      obtain ⟨y, hvariant, hy⟩ := (hx.mono (Nat.le_succ limit)).wrapped
      rw [read?, hvariant]
      exact congrArg (Option.map table) (h.holds_text hy.2)
    | row name fields =>
      obtain ⟨y, ys, hvariant, hparts, hys⟩ := (hx.mono (Nat.le_succ limit)).tagged (by simp)
      obtain _ | ⟨hname, _ | ⟨hfields, _ | _⟩⟩ := hys
      rw [read?, hvariant]
      exact read_bind hparts <|
        read_bind ((Carries.optionalText h limit).read_of_within trivial hname) <|
        read_bind ((Carries.texts h limit).read_of_within trivial hfields) rfl
    | unit =>
      obtain ⟨contents, hvariant, hempty⟩ := h.holds_constant hx.2
      rw [read?, hvariant]
      exact if_pos hempty
  fits_of_read {x shape} hshape := by
    refine ⟨?_, trivial⟩
    unfold read? at hshape
    split at hshape
    · rename_i y hvariant
      obtain ⟨name, hname, rfl⟩ := Option.map_eq_some_iff.mp hshape
      exact h.fits_wrapped hvariant (h.fits_text hname)
    · rename_i y hvariant
      obtain ⟨parts, hparts, hshape⟩ := Option.bind_eq_some_iff.mp hshape
      split at hshape
      · simp only [Option.bind_eq_bind, Option.bind_eq_some_iff, Option.pure_def,
          Option.some.injEq] at hshape
        obtain ⟨name, hname, fields, hfields, rfl⟩ := hshape
        exact h.fits_tagged hvariant hparts <|
          .cons ((Carries.optionalText h limit).optional rfl trivial hname).1 <|
          .cons ((Carries.texts h limit).required hfields).1 .nil
      · cases hshape
    · rename_i contents hvariant
      obtain ⟨hempty, heq⟩ := Option.ite_none_right_eq_some.mp hshape
      cases heq
      exact h.fits_constant hvariant hempty
    · cases hshape

end SqlAlgebra
