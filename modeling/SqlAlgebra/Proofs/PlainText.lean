import Mathlib.Data.List.Chain
import SqlAlgebra.Proofs.Lexing
import SqlAlgebra.Query.Tokens

/-!
# Text that is written as it stands

Keywords, signs and numbers are written without quotes. They hold no quotation mark, and however
they are put together they start no comment: those that have a dash or a slash in them end with
something else.
-/

namespace SqlAlgebra

namespace Lexeme

/-- No comment starts with the two lexemes. -/
def StartNoComment (x y : Lexeme) : Prop :=
  ¬ (x = plain '-' ∧ y = plain '-') ∧ ¬ (x = plain '/' ∧ y = plain '*')

instance : DecidableRel StartNoComment := fun _ _ => inferInstanceAs (Decidable (_ ∧ _))

/-- No comment starts in the lexemes, and none can start with the last of them. -/
def Quiet (lexemes : List Lexeme) : Prop :=
  lexemes.IsChain StartNoComment ∧ ∀ x ∈ lexemes.getLast?, x ≠ plain '-' ∧ x ≠ plain '/'

instance : DecidablePred Quiet := fun _ => inferInstanceAs (Decidable (_ ∧ _))

/-- Two quiet texts are quiet together. -/
theorem Quiet.append {xs ys : List Lexeme} (hxs : Quiet xs) (hys : Quiet ys) :
    Quiet (xs ++ ys) := by
  refine ⟨List.isChain_append.mpr ⟨hxs.1, hys.1, fun x hx y _ => ?_⟩, fun x hx => ?_⟩
  · have hlast := hxs.2 x hx
    exact ⟨fun h => hlast.1 h.1, fun h => hlast.2 h.1⟩
  · rw [List.getLast?_append] at hx
    cases hlast : ys.getLast? with
    | none => exact hxs.2 x (by simpa [hlast] using hx)
    | some y => exact hys.2 x (by simpa [hlast] using hx)

/-- No comment starts where neither of the characters stands that start one. -/
theorem quiet_of_forall_ne {xs : List Lexeme} (h : ∀ x ∈ xs, x ≠ plain '-' ∧ x ≠ plain '/') :
    Quiet xs := by
  refine ⟨?_, fun x hx => h x (List.mem_of_getLast? hx)⟩
  induction xs with
  | nil => exact List.isChain_nil
  | cons x xs ih =>
    obtain ⟨hx, hxs⟩ := List.forall_mem_cons.mp h
    exact List.isChain_cons.mpr
      ⟨fun y _ => ⟨fun h => hx.1 h.1, fun h => hx.2 h.1⟩, ih hxs⟩

/-- No two dashes stand together in a quiet text. -/
theorem Quiet.not_infix_dashes {xs : List Lexeme} (h : Quiet xs) :
    ¬ [plain '-', plain '-'] <:+: xs := by
  intro hdashes
  have hchain := List.IsChain.infix h.1 hdashes
  exact absurd hchain (by decide)

/-- No slash stands before a star in a quiet text. -/
theorem Quiet.not_infix_slash {xs : List Lexeme} (h : Quiet xs) :
    ¬ [plain '/', plain '*'] <:+: xs := by
  intro hslash
  have hchain := List.IsChain.infix h.1 hslash
  exact absurd hchain (by decide)

end Lexeme

namespace Text

/-- The characters that open or close a quotation in some profile. -/
def marks : List Char := ['\x27', '\x22', '\x60', '[', ']']

/-- A text that can be written as it stands: it has no quotation mark in it, and starts no
comment. -/
def IsPlain (s : List Char) : Prop := (∀ c ∈ s, c ∉ marks) ∧ Lexeme.Quiet (s.map .plain)

-- Only the characters of the text are asked; there are too many others to go through them all.
instance : DecidablePred IsPlain := fun s =>
  haveI : Decidable (∀ c ∈ s, c ∉ marks) := List.decidableBAll _ s
  inferInstanceAs (Decidable (_ ∧ _))

/-- Two plain texts are plain together. -/
theorem IsPlain.append {s t : List Char} (hs : IsPlain s) (ht : IsPlain t) : IsPlain (s ++ t) := by
  refine ⟨List.forall_mem_append.mpr ⟨hs.1, ht.1⟩, ?_⟩
  rw [List.map_append]
  exact hs.2.append ht.2

/-- A plain text that is not empty. -/
def IsKeyword (s : String) : Prop := IsPlain s.toList ∧ s ≠ ""

instance : DecidablePred IsKeyword := fun _ => inferInstanceAs (Decidable (_ ∧ _))

/-- A keyword that is followed by a plain text is one. -/
theorem IsKeyword.append {s t : String} (hs : IsKeyword s) (ht : IsPlain t.toList) :
    IsKeyword (s ++ t) := by
  refine ⟨?_, ?_⟩
  · rw [String.toList_append]
    exact hs.1.append ht
  · simp [hs.2]

/-- The character is no quotation mark and has no part in the start of a comment. -/
def Harmless (c : Char) : Prop := c ∉ '-' :: '/' :: marks

instance : DecidablePred Harmless := fun _ => inferInstanceAs (Decidable (_ ∉ _))

/-- A text of harmless characters is plain. -/
theorem isPlain_of_harmless {s : List Char} (h : ∀ c ∈ s, Harmless c) : IsPlain s := by
  refine ⟨fun c hc hmark => h c hc (by simp [hmark]), Lexeme.quiet_of_forall_ne fun x hx => ?_⟩
  obtain ⟨c, hc, rfl⟩ := List.mem_map.mp hx
  have hharmless := h c hc
  simp only [Harmless, List.mem_cons, not_or] at hharmless
  simp [hharmless.1, hharmless.2.1]

/-- A class of characters is harmless if it has none of those that are not. -/
theorem harmless_of_class (f : Char → Bool) (hf : ('-' :: '/' :: marks).any f = false) {c : Char}
    (hc : f c = true) : Harmless c := by
  intro hmem
  exact List.any_eq_false.mp hf c hmem hc

/-- Digits are harmless. -/
theorem harmless_of_isDigit {c : Char} (hc : c.isDigit = true) : Harmless c :=
  harmless_of_class Char.isDigit (by decide) hc

/-- A plain text before which a minus sign can stand. -/
structure IsUnsigned (s : List Char) : Prop where
  plain : IsPlain s
  head : s.head?.any (· != '-')

instance : DecidablePred IsUnsigned := fun _ =>
  decidable_of_iff (_ ∧ _) ⟨fun h => ⟨h.1, h.2⟩, fun h => ⟨h.plain, h.head⟩⟩

/-- A text of harmless characters that is not empty has no sign in front. -/
theorem isUnsigned_of_harmless {s : List Char} (hne : s ≠ []) (h : ∀ c ∈ s, Harmless c) :
    IsUnsigned s := by
  refine ⟨isPlain_of_harmless h, ?_⟩
  obtain ⟨c, s, rfl⟩ := List.exists_cons_of_ne_nil hne
  have hc : c ≠ '-' := by
    rintro rfl
    exact h _ List.mem_cons_self (by decide)
  simpa using hc

/-- A text without a sign in front has a first character. -/
theorem IsUnsigned.ne_nil {s : List Char} (hs : IsUnsigned s) : s ≠ [] := by
  rintro rfl
  exact absurd hs.head (by decide)

/-- What follows a text without a sign in front gives it none. -/
theorem IsUnsigned.append {s t : List Char} (hs : IsUnsigned s) (ht : IsPlain t) :
    IsUnsigned (s ++ t) := by
  refine ⟨hs.plain.append ht, ?_⟩
  rw [List.head?_append_of_ne_nil _ hs.ne_nil]
  exact hs.head

/-- One sign before a text that has none is plain. -/
theorem IsUnsigned.negate {s : List Char} (hs : IsUnsigned s) : IsPlain ('-' :: s) := by
  obtain ⟨c, s, rfl⟩ := List.exists_cons_of_ne_nil hs.ne_nil
  have hc : c ≠ '-' := by simpa using hs.head
  obtain ⟨hmarks, hchain, hlast⟩ := hs.plain
  refine ⟨List.forall_mem_cons.mpr ⟨by decide, hmarks⟩, ?_, ?_⟩
  · refine List.isChain_cons_cons.mpr ⟨?_, hchain⟩
    simp [Lexeme.StartNoComment, hc]
  · simpa using hlast

/-- The digits of a natural number have no sign in front. -/
theorem isUnsigned_repr (n : Nat) : IsUnsigned n.repr.toList := by
  rw [Nat.repr_eq_ofList_toDigits, String.toList_ofList]
  exact isUnsigned_of_harmless Nat.toDigits_ne_nil fun _ hc =>
    harmless_of_isDigit (Nat.isDigit_of_mem_toDigits (by decide) (by decide) hc)

/-- An integer is written as plain text. -/
theorem isPlain_toString_int (n : Int) : IsPlain (toString n).toList := by
  rw [Int.toString_eq_repr, Int.repr_eq_if]
  split
  · exact (isUnsigned_repr _).plain
  · rw [String.toList_append]
    exact (isUnsigned_repr _).negate

end Text

namespace Binary64

open Text

/-- Taking zeros away at the end leaves harmless characters. -/
theorem harmless_trimZeros {digits : List Char} (h : ∀ c ∈ digits, Harmless c) :
    ∀ c ∈ trimZeros digits, Harmless c := by
  intro c hc
  unfold trimZeros at hc
  split at hc
  · rw [List.mem_singleton.mp hc]
    decide
  · have hmem := (List.dropWhile_sublist _).subset (List.mem_reverse.mp hc)
    exact h c (List.mem_reverse.mp hmem)

/-- The positional form of harmless digits has no sign in front. -/
theorem isUnsigned_positional {digits : List Char} (leading : Int) (h : ∀ c ∈ digits, Harmless c) :
    IsUnsigned (positional digits leading) := by
  have hzeros (n : Nat) : ∀ c ∈ List.replicate n '0', Harmless c := fun c hc => by
    rw [List.eq_of_mem_replicate hc]
    decide
  have htake (n : Nat) : ∀ c ∈ digits.take n, Harmless c :=
    fun c hc => h c (List.mem_of_mem_take hc)
  have hdrop (n : Nat) : ∀ c ∈ digits.drop n, Harmless c :=
    fun c hc => h c (List.mem_of_mem_drop hc)
  have hpoint : Harmless '.' := by decide
  unfold positional
  split
  · refine isUnsigned_of_harmless (by simp) ?_
    simp only [List.forall_mem_cons, List.forall_mem_append]
    exact ⟨by decide, hpoint, hzeros _, h⟩
  · have hbefore : ∀ c ∈ digits.take (leading.toNat + 1) ++
        List.replicate (leading.toNat + 1 - digits.length) '0', Harmless c :=
      List.forall_mem_append.mpr ⟨htake _, hzeros _⟩
    dsimp only
    split
    · refine isUnsigned_of_harmless (by simp) (List.forall_mem_append.mpr ⟨hbefore, ?_⟩)
      exact List.forall_mem_cons.mpr ⟨hpoint, hzeros 1⟩
    · refine isUnsigned_of_harmless (by simp) (List.forall_mem_append.mpr ⟨hbefore, ?_⟩)
      exact List.forall_mem_cons.mpr ⟨hpoint, hdrop _⟩

/-- The scientific form of harmless digits has no sign in front. -/
theorem isUnsigned_scientific {digits : List Char} (leading : Int)
    (h : ∀ c ∈ digits, Harmless c) : IsUnsigned (scientific digits leading) := by
  have hpoint : Harmless '.' := by decide
  have hexponent : Harmless 'e' := by decide
  -- the mantissa and the mark of the exponent have no sign, so that the exponent may have one
  have hsplit (mantissa : List Char) (hmantissa : ∀ c ∈ mantissa, Harmless c) :
      IsUnsigned (mantissa ++ 'e' :: (toString leading).toList) := by
    rw [List.append_cons]
    refine IsUnsigned.append (isUnsigned_of_harmless (by simp) ?_) (isPlain_toString_int leading)
    exact List.forall_mem_append.mpr ⟨hmantissa, by simpa using hexponent⟩
  unfold scientific
  refine hsplit _ ?_
  split
  · simp
  · exact h
  · rw [List.forall_mem_cons] at h
    exact List.forall_mem_cons.mpr ⟨h.1, List.forall_mem_cons.mpr ⟨hpoint, h.2⟩⟩

/-- The magnitude of a float is written without a sign in front. -/
theorem isUnsigned_magnitudeText (x : Binary64) : IsUnsigned x.magnitudeText := by
  have hdigits : ∀ c ∈ trimZeros (Nat.toDigits 10 x.shortest.digits), Harmless c :=
    harmless_trimZeros fun c hc =>
      harmless_of_isDigit (Nat.isDigit_of_mem_toDigits (by decide) (by decide) hc)
  simp only [magnitudeText]
  split
  · exact isUnsigned_positional _ hdigits
  · exact isUnsigned_scientific _ hdigits

/-- A float is written as plain text. -/
theorem isPlain_text (x : Binary64) : IsPlain x.text.toList := by
  have hunsigned : IsUnsigned (if ¬ x.isFinite then "inf".toList
      else if x.significand = 0 then "0.0".toList else x.magnitudeText) := by
    split
    · decide
    · split
      · decide
      · exact x.isUnsigned_magnitudeText
  unfold text
  split
  · decide
  · rw [String.toList_ofList]
    split
    · exact hunsigned.negate
    · exact hunsigned.plain

end Binary64

section Spellings

open Text

/-- The bound of a window frame is written as plain text. -/
theorem FrameBound.isPlain_text (bound : FrameBound) : IsPlain bound.text.toList := by
  have hdistance (n : Option UInt64) : IsPlain (distanceText n).toList := by
    cases n with
    | none => decide
    | some n => exact (isUnsigned_repr _).plain
  cases bound with
  | currentRow => decide
  | preceding n =>
    rw [text, String.toList_append]
    exact (hdistance n).append (by decide)
  | following n =>
    rw [text, String.toList_append]
    exact (hdistance n).append (by decide)

/-- A window frame is written as plain text. -/
theorem Frame.isPlain_text (frame : Frame) : IsPlain frame.text.toList := by
  have hmode : IsPlain frame.mode.keyword.toList := by cases frame.mode <;> decide
  have hstart := frame.start.isPlain_text
  unfold text
  split
  · simp only [String.toList_append]
    exact (((hmode.append (by decide)).append hstart).append (by decide)).append
      (FrameBound.isPlain_text _)
  · simp only [String.toList_append]
    exact (hmode.append (by decide)).append hstart

/-- A parameter is written without a sign in front. -/
theorem PlaceholderStyle.isUnsigned_write (style : PlaceholderStyle) (ordinal : Nat) :
    IsUnsigned (style.write ordinal).toList := by
  have hnumbered (s : String) (hs : IsUnsigned s.toList) :
      IsUnsigned (s ++ toString ordinal).toList := by
    rw [String.toList_append]
    exact hs.append (isUnsigned_repr ordinal).plain
  cases style with
  | question =>
    change IsUnsigned "?".toList
    decide
  | dollar | numberedQuestion | colon | atP => exact hnumbered _ (by decide)

/-- A character of a name that needs no quotes: a letter, a digit, an underscore or a space. Outside
of ASCII, where most characters are letters, all are taken for one. -/
def Text.isWordChar (c : Char) : Bool := c.isAlphanum || c == '_' || c == ' ' || 128 ≤ c.toNat

/-- A name that needs no quotes. -/
def Text.IsWords (name : String) : Prop := ∀ c ∈ name.toList, isWordChar c

instance : DecidablePred Text.IsWords := fun _ => List.decidableBAll _ _

/-- A text that is made of words is plain. -/
theorem Text.IsWords.isPlain {name : String} (h : IsWords name) : IsPlain name.toList :=
  isPlain_of_harmless fun c hc => harmless_of_class isWordChar (by decide) (h c hc)

/-- What is written for an operator besides its operands is plain. -/
def OperatorSyntax.IsPlain : OperatorSyntax → Prop
  | between symbol => Text.IsKeyword (" " ++ symbol ++ " ")
  | call name => Text.IsPlain name.toList
  | upperBetween symbol => Text.IsKeyword (" " ++ symbol ++ " UPPER")

instance : DecidablePred OperatorSyntax.IsPlain
  | .between _ | .upperBetween _ => inferInstanceAs (Decidable (Text.IsKeyword _))
  | .call _ => inferInstanceAs (Decidable (Text.IsPlain _))

/-- What the dialect itself writes as it stands is plain. The name of a custom type is not its
own. -/
structure Dialect.SpellsPlainly (d : Dialect) : Prop where
  boolean : ∀ b, IsPlain (d.boolean b).toList
  operator : ∀ op entry, d.operator? op = some entry → entry.IsPlain
  typeName : ∀ type name, d.typeName? type = some name → type ≠ .custom name → IsPlain name.toList
  offset : ∀ clause, d.offsetWithoutLimit = some clause → IsPlain clause.toList

namespace Profile

/-- The built-in profiles. -/
def builtin : List Profile := [postgres, mysql, sqlite, ansi]

/-- The profile is a built-in one up to its name, its styles and its capabilities. -/
def IsRestyled (p : Profile) : Prop :=
  ∃ base ∈ builtin, p = { base with
    name := p.name
    quote := p.quote
    placeholder := p.placeholder
    booleans := p.booleans
    capabilities := p.capabilities }

instance : DecidablePred IsRestyled := fun _ => inferInstanceAs (Decidable (∃ _ ∈ _, _))

/-- However a built-in profile is restyled, what it writes as it stands is plain. -/
theorem IsRestyled.spellsPlainly {p : Profile} (hp : p.IsRestyled) : p.dialect.SpellsPlainly := by
  have hoperators : ∀ base ∈ builtin, ∀ op ∈ BinaryOperator.all,
      ∀ entry ∈ base.operators.spelling? op, entry.IsPlain := by decide
  have htypes : ∀ base ∈ builtin, ∀ entry ∈ base.types, IsPlain entry.2.toList := by decide
  have hoffset : ∀ base ∈ builtin, ∀ clause ∈ base.offsetWithoutLimit, IsPlain clause.toList := by
    decide
  obtain ⟨base, hbase, hp⟩ := hp
  rw [hp]
  refine ⟨fun b => ?_, fun op entry hentry => ?_, fun type name hname hcustom => ?_,
    fun clause hclause => hoffset base hbase clause hclause⟩
  · change IsPlain (p.booleans.write b).toList
    cases p.booleans <;> cases b <;> decide
  · exact hoperators base hbase op op.mem_all entry hentry
  · have hlookup : base.types.lookup type = some name := by
      cases type with
      | custom other => exact absurd (congrArg SqlType.custom (Option.some.inj hname)) hcustom
      | _ => exact hname
    obtain ⟨before, after, hsplit, -⟩ := List.lookup_eq_some_iff.mp hlookup
    exact htypes base hbase (type, name) (by simp [hsplit])

end Profile

end Spellings

end SqlAlgebra
