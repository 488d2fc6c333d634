import Mathlib.Data.List.Forall2

/-!
# Outcomes of fallible steps

How success runs through a sequence of steps, each of which gives a result or an error. Mostly only
the question whether there is a result is asked, so that the errors can be left out of sight; where
they matter, what the steps can end with is asked of both.
-/

namespace SqlAlgebra

variable {ε α β γ : Type}

/-- A sequence of two steps ends well exactly if both do. -/
theorem bind_eq_ok {x : Except ε α} {f : α → Except ε β} {b : β} :
    (x >>= f) = .ok b ↔ ∃ a, x = .ok a ∧ f a = .ok b := by
  cases x with
  | error e =>
    constructor
    · intro h
      cases h
    · rintro ⟨a, h, -⟩
      cases h
  | ok a =>
    constructor
    · intro h
      exact ⟨a, rfl, h⟩
    · rintro ⟨a', h, hf⟩
      cases h
      exact hf

/-- A step that does nothing ends with its value. -/
theorem pure_eq_ok {a b : α} : (pure a : Except ε α) = .ok b ↔ a = b := by
  constructor
  · intro h
    cases h
    rfl
  · intro h
    rw [h]
    rfl

/-- What follows a result goes on with it. -/
@[simp] theorem ok_bind (a : α) (f : α → Except ε β) : (Except.ok a >>= f) = f a := rfl

/-- Nothing follows an error. -/
@[simp] theorem error_bind (e : ε) (f : α → Except ε β) : (Except.error e >>= f) = .error e := rfl

/-- There is a result. -/
def Succeeds (x : Except ε α) : Prop := ∃ a, x = .ok a

/-- A result is a success. -/
@[simp] theorem succeeds_ok (a : α) : Succeeds (.ok a : Except ε α) := ⟨a, rfl⟩

/-- A step that does nothing succeeds. -/
@[simp] theorem succeeds_pure (a : α) : Succeeds (pure a : Except ε α) := ⟨a, rfl⟩

/-- An error is no success. -/
@[simp] theorem not_succeeds_error (e : ε) : ¬ Succeeds (.error e : Except ε α) := by
  rintro ⟨a, h⟩
  cases h

/-- Changing the result does not change whether there is one. -/
@[simp] theorem succeeds_map {x : Except ε α} {f : α → β} : Succeeds (f <$> x) ↔ Succeeds x := by
  cases x with
  | error e => exact iff_of_false (not_succeeds_error e) (not_succeeds_error e)
  | ok a => exact iff_of_true (succeeds_ok (f a)) (succeeds_ok a)

/-- A sequence succeeds if its first step does and the second does with what the first gives. -/
theorem succeeds_bind {x : Except ε α} {f : α → Except ε β} :
    Succeeds (x >>= f) ↔ ∃ a, x = .ok a ∧ Succeeds (f a) := by
  simp only [Succeeds, bind_eq_ok]
  constructor
  · rintro ⟨b, a, hx, hf⟩
    exact ⟨a, hx, b, hf⟩
  · rintro ⟨a, hx, b, hf⟩
    exact ⟨b, a, hx, hf⟩

/-- When the success of the second step does not depend on the result of the first, both are asked
for separately. -/
theorem succeeds_bind_iff {x : Except ε α} {f : α → Except ε β} {p : Prop}
    (hf : ∀ a, Succeeds (f a) ↔ p) : Succeeds (x >>= f) ↔ Succeeds x ∧ p := by
  rw [succeeds_bind]
  simp only [hf, exists_and_right]
  rfl

/-- To succeed is to have a result. -/
theorem exists_eq_ok {x : Except ε α} : (∃ a, x = .ok a) ↔ Succeeds x := Iff.rfl

/-- A result that is only changed at the end is asked for before the change. -/
theorem exists_bind_pure_eq_ok {x : Except ε α} {g : α → β} {P : β → Prop} :
    (∃ b, (x >>= fun a => pure (g a)) = .ok b ∧ P b) ↔ ∃ a, x = .ok a ∧ P (g a) := by
  simp only [bind_eq_ok, pure_eq_ok]
  constructor
  · rintro ⟨_, ⟨a, ha, rfl⟩, hP⟩
    exact ⟨a, ha, hP⟩
  · rintro ⟨a, ha, hP⟩
    exact ⟨g a, ⟨a, ha, rfl⟩, hP⟩

/-- A list of steps gives the list of their results. -/
theorem mapM_eq_ok {f : α → Except ε β} {as : List α} {bs : List β} :
    as.mapM f = .ok bs ↔ List.Forall₂ (fun a b => f a = .ok b) as bs := by
  induction as generalizing bs with
  | nil =>
    rw [List.mapM_nil, pure_eq_ok, List.forall₂_nil_left_iff]
    exact eq_comm
  | cons a as ih =>
    rw [List.mapM_cons, List.forall₂_cons_left_iff]
    simp only [bind_eq_ok, pure_eq_ok, ih]
    constructor
    · rintro ⟨b, hb, bs', hbs, rfl⟩
      exact ⟨b, bs', hb, hbs, rfl⟩
    · rintro ⟨b, bs', hb, hbs, rfl⟩
      exact ⟨b, hb, bs', hbs, rfl⟩

/-- A list is read item by item. -/
theorem mapM_eq_some {read : α → Option β} {as : List α} {bs : List β} :
    as.mapM read = some bs ↔ List.Forall₂ (fun a b => read a = some b) as bs := by
  induction as generalizing bs with
  | nil => cases bs <;> simp [List.mapM_nil]
  | cons a as ih =>
    rw [List.mapM_cons, List.forall₂_cons_left_iff]
    simp only [Option.bind_eq_bind, Option.bind_eq_some_iff, Option.pure_def, Option.some.injEq,
      ih]
    constructor
    · rintro ⟨b, hb, bs', hbs, rfl⟩
      exact ⟨b, bs', hb, hbs, rfl⟩
    · rintro ⟨b, bs', hb, hbs, rfl⟩
      exact ⟨b, hb, bs', hbs, rfl⟩

/-- A list of what is written is read as what was to be written. -/
theorem mapM_map_eq_some {read : β → Option α} {write : α → β} {as : List α}
    (h : ∀ a ∈ as, read (write a) = some a) : (as.map write).mapM read = some as := by
  rw [mapM_eq_some, List.forall₂_map_left_iff, List.forall₂_same]
  exact h

/-- Steps that agree on every item of a list agree on the list. -/
theorem mapM_congr {f g : α → Except ε β} {as : List α} (h : ∀ a ∈ as, f a = g a) :
    as.mapM f = as.mapM g := by
  induction as with
  | nil => rfl
  | cons a as ih =>
    rw [List.forall_mem_cons] at h
    rw [List.mapM_cons, List.mapM_cons, h.1, ih h.2]

/-- Where there are steps there are results. -/
theorem ne_nil_of_mapM {f : α → Except ε β} {as : List α} {bs : List β}
    (h : as.mapM f = .ok bs) (hne : as ≠ []) : bs ≠ [] := by
  intro hnil
  rw [mapM_eq_ok, hnil, List.forall₂_nil_right_iff] at h
  exact hne h

/-- A list of steps succeeds exactly if each of them does. -/
theorem succeeds_mapM {f : α → Except ε β} {as : List α} :
    Succeeds (as.mapM f) ↔ ∀ a ∈ as, Succeeds (f a) := by
  induction as with
  | nil => simp
  | cons a as ih =>
    rw [List.mapM_cons, List.forall_mem_cons, ← ih]
    apply succeeds_bind_iff
    intro b
    rw [succeeds_bind_iff (p := True) fun bs => by simp, and_true]

/-- A list of steps has results of some kind exactly if each of them has. -/
theorem exists_mapM_eq_ok {f : α → Except ε β} {P : β → Prop} {as : List α} :
    (∃ bs, as.mapM f = .ok bs ∧ ∀ b ∈ bs, P b) ↔ ∀ a ∈ as, ∃ b, f a = .ok b ∧ P b := by
  induction as with
  | nil => simp [pure_eq_ok]
  | cons a as ih =>
    rw [List.forall_mem_cons, ← ih]
    simp only [List.mapM_cons, bind_eq_ok, pure_eq_ok]
    constructor
    · rintro ⟨_, ⟨b, hb, bs, hbs, rfl⟩, hP⟩
      rw [List.forall_mem_cons] at hP
      exact ⟨⟨b, hb, hP.1⟩, bs, hbs, hP.2⟩
    · rintro ⟨⟨b, hb, hPb⟩, bs, hbs, hPbs⟩
      exact ⟨b :: bs, ⟨b, hb, bs, hbs, rfl⟩, List.forall_mem_cons.mpr ⟨hPb, hPbs⟩⟩

/-- The result, if there is one, has the property. -/
def Yields (P : α → Prop) (x : Except ε α) : Prop := ∀ a, x = .ok a → P a

section Yields

variable {P : α → Prop} {Q : β → Prop}

/-- A result yields what holds of it. -/
theorem yields_ok {a : α} (h : P a) : Yields P (.ok a : Except ε α) := by
  intro a' ha'
  cases ha'
  exact h

/-- A step that does nothing yields what holds of its value. -/
theorem yields_pure {a : α} (h : P a) : Yields P (pure a : Except ε α) := yields_ok h

/-- An error yields anything. -/
theorem yields_error (e : ε) : Yields P (.error e : Except ε α) := by
  intro a ha
  cases ha

/-- What the second step yields from what the first yields, the sequence yields. -/
theorem Yields.bind {x : Except ε α} {f : α → Except ε β} (hx : Yields P x)
    (hf : ∀ a, P a → Yields Q (f a)) : Yields Q (x >>= f) := by
  intro b hb
  obtain ⟨a, ha, hfa⟩ := bind_eq_ok.mp hb
  exact hf a (hx a ha) b hfa

/-- What the steps on all items yield holds of every result. -/
theorem yields_mapM {f : α → Except ε β} {as : List α} (h : ∀ a ∈ as, Yields Q (f a)) :
    Yields (fun bs => ∀ b ∈ bs, Q b) (as.mapM f) := by
  induction as with
  | nil => exact yields_pure (by simp)
  | cons a as ih =>
    rw [List.forall_mem_cons] at h
    rw [List.mapM_cons]
    exact h.1.bind fun b hb => (ih h.2).bind fun bs hbs =>
      yields_pure (List.forall_mem_cons.mpr ⟨hb, hbs⟩)

end Yields

/-- The result, if there is one, has the first property, and the error, if there is one, the
second. -/
def Ends (P : α → Prop) (E : ε → Prop) : Except ε α → Prop
  | .ok a => P a
  | .error e => E e

section Ends

variable {P : α → Prop} {Q : β → Prop} {E : ε → Prop}

/-- A result ends well if the property holds of it. -/
theorem ends_ok {a : α} (h : P a) : Ends P E (.ok a) := h

/-- A step that does nothing ends well if the property holds of its value. -/
theorem ends_pure {a : α} (h : P a) : Ends P E (pure a) := h

/-- An error ends well if it is one of those expected. -/
theorem ends_error {e : ε} (h : E e) : Ends P E (.error e : Except ε α) := h

/-- A sequence ends as its second step does, or with an expected error of the first. -/
theorem Ends.bind {x : Except ε α} {f : α → Except ε β} (hx : Ends P E x)
    (hf : ∀ a, P a → Ends Q E (f a)) : Ends Q E (x >>= f) := by
  cases x with
  | ok a => exact hf a hx
  | error e => exact hx

/-- A list of steps ends well if each of them does. -/
theorem ends_mapM {f : α → Except ε β} {as : List α} (h : ∀ a ∈ as, Ends Q E (f a)) :
    Ends (fun bs => ∀ b ∈ bs, Q b) E (as.mapM f) := by
  induction as with
  | nil => exact ends_pure (by simp)
  | cons a as ih =>
    rw [List.forall_mem_cons] at h
    rw [List.mapM_cons]
    exact h.1.bind fun b hb => (ih h.2).bind fun bs hbs =>
      ends_pure (List.forall_mem_cons.mpr ⟨hb, hbs⟩)

/-- What is known of the result may be weakened. -/
theorem Ends.imp {P' : α → Prop} {x : Except ε α} (h : Ends P E x) (hP : ∀ a, P a → P' a) :
    Ends P' E x := by
  cases x with
  | ok a => exact hP a h
  | error e => exact h

/-- What ends well yields what holds of its results. -/
theorem Ends.yields {x : Except ε α} (h : Ends P E x) : Yields P x := by
  intro a ha
  rw [ha] at h
  exact h

/-- The error with which a step ends is one of those expected. -/
theorem Ends.error_of_eq {x : Except ε α} {e : ε} (h : Ends P E x) (he : x = .error e) : E e := by
  rw [he] at h
  exact h

end Ends

end SqlAlgebra
