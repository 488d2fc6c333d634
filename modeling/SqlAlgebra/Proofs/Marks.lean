import SqlAlgebra.Proofs.Cutting
import SqlAlgebra.Proofs.PlainText

/-!
# Operators and commas

Which pieces of a text divide what stands around them: commas, and those with the word or the sign
of an operator among their words. Names and numbers do not. A name has one word, which is not that
of an operator, and a number has a digit in it, which no operator has.
-/

namespace SqlAlgebra

namespace Text

/-- The words and signs of operators. -/
def operatorWords : List (List Char) :=
  ["=", "<>", "!=", "<", "<=", ">", ">=", "+", "-", "*", "/", "%", "||", "~", "AND", "OR", "NOT",
    "IS", "IN", "BETWEEN", "LIKE", "ILIKE", "REGEXP"].map String.toList

/-- One of the words between the blanks of a text is that of an operator, in whatever case. -/
def hasOperator (s : String) : Bool :=
  (split ' ' s.toList).any fun word => operatorWords.contains (word.map Char.toUpper)

/-- A name that can stand without quotes before a bracket and be read as that of a function. -/
structure IsName (name : String) : Prop where
  words : IsWords name
  not_blank : ' ' ∉ name.toList
  ne_empty : name ≠ ""
  not_operator : hasOperator name = false

instance : DecidablePred IsName := fun _ =>
  decidable_of_iff (_ ∧ _ ∧ _ ∧ _)
    ⟨fun h => ⟨h.1, h.2.1, h.2.2.1, h.2.2.2⟩, fun h => ⟨h.words, h.not_blank, h.ne_empty,
      h.not_operator⟩⟩

/-- A text without the separator is one part. -/
theorem split_of_not_mem {separator : Char} {s : List Char} (h : separator ∉ s) :
    split separator s = [s] := by
  induction s with
  | nil => rfl
  | cons c s ih =>
    rw [List.mem_cons, not_or] at h
    rw [split, if_neg (Ne.symm h.1), ih h.2]

/-- A text without blanks that has a digit in it. -/
structure IsNumeral (s : List Char) : Prop where
  not_blank : ' ' ∉ s
  digit : ∃ c ∈ s, c.isDigit = true

/-- A digit has no upper case. -/
theorem toUpper_of_isDigit {c : Char} (hc : c.isDigit = true) : c.toUpper = c := by
  simp only [Char.isDigit, Bool.and_eq_true, decide_eq_true_eq, UInt32.le_iff_toNat_le] at hc
  unfold Char.toUpper
  split
  next hlower =>
    simp only [UInt32.le_iff_toNat_le] at hlower
    have hdigit : c.val.toNat ≤ 57 := hc.2
    have hletter : 97 ≤ c.val.toNat := hlower.1
    omega
  · rfl

/-- No operator has a digit in it. -/
theorem IsNumeral.hasOperator {s : List Char} (h : IsNumeral s) :
    hasOperator (String.ofList s) = false := by
  have hnone : ∀ word ∈ operatorWords, word.any Char.isDigit = false := by decide
  obtain ⟨c, hc, hdigit⟩ := h.digit
  rw [Text.hasOperator, String.toList_ofList, split_of_not_mem h.not_blank, List.any_cons,
    List.any_nil, Bool.or_false, List.contains_eq_mem, decide_eq_false_iff_not]
  intro hmem
  have hupper : c.toUpper ∈ s.map Char.toUpper := List.mem_map_of_mem hc
  have hno := List.any_eq_false.mp (hnone _ hmem) _ hupper
  rw [toUpper_of_isDigit hdigit] at hno
  exact hno hdigit

/-- A digit is no blank. -/
theorem ne_blank_of_isDigit {c : Char} (hc : c.isDigit = true) : c ≠ ' ' := by
  rintro rfl
  exact absurd hc (by decide)

/-- A numeral with other characters before it is one, if none of them is a blank. -/
theorem IsNumeral.append_left {s t : List Char} (hs : ' ' ∉ s) (ht : IsNumeral t) :
    IsNumeral (s ++ t) where
  not_blank := by
    rw [List.mem_append, not_or]
    exact ⟨hs, ht.not_blank⟩
  digit := by
    obtain ⟨c, hc, hdigit⟩ := ht.digit
    exact ⟨c, List.mem_append_right s hc, hdigit⟩

/-- There is no blank among digits. -/
theorem not_blank_of_digits {s : List Char} (h : ∀ c ∈ s, c.isDigit = true) : ' ' ∉ s :=
  fun hblank => ne_blank_of_isDigit (h ' ' hblank) rfl

/-- Digits are a numeral, if there is one. -/
theorem isNumeral_of_digits {s : List Char} (hne : s ≠ []) (h : ∀ c ∈ s, c.isDigit = true) :
    IsNumeral s where
  not_blank := not_blank_of_digits h
  digit := by
    obtain ⟨c, s, rfl⟩ := List.exists_cons_of_ne_nil hne
    exact ⟨c, List.mem_cons_self, h c List.mem_cons_self⟩

/-- The digits of a number are digits. -/
theorem isDigit_toDigits (n : Nat) : ∀ c ∈ Nat.toDigits 10 n, c.isDigit = true :=
  fun _ hc => Nat.isDigit_of_mem_toDigits (by decide) (by decide) hc

/-- A natural number is written as a numeral. -/
theorem isNumeral_repr (n : Nat) : IsNumeral n.repr.toList := by
  rw [Nat.repr_eq_ofList_toDigits, String.toList_ofList]
  exact isNumeral_of_digits Nat.toDigits_ne_nil (isDigit_toDigits n)

/-- An integer is written as a numeral. -/
theorem isNumeral_toString_int (n : Int) : IsNumeral (toString n).toList := by
  rw [Int.toString_eq_repr, Int.repr_eq_if]
  split
  · exact isNumeral_repr _
  · rw [String.toList_append]
    exact (isNumeral_repr _).append_left (by decide)

end Text

namespace Binary64

open Text

/-- Taking zeros away at the end leaves digits. -/
theorem isDigit_trimZeros {digits : List Char} (h : ∀ c ∈ digits, c.isDigit = true) :
    ∀ c ∈ trimZeros digits, c.isDigit = true := by
  intro c hc
  unfold trimZeros at hc
  split at hc
  · rw [List.mem_singleton.mp hc]
    decide
  · have hmem := (List.dropWhile_sublist _).subset (List.mem_reverse.mp hc)
    exact h c (List.mem_reverse.mp hmem)

/-- The positional form of digits is a numeral. -/
theorem isNumeral_positional {digits : List Char} (leading : Int)
    (h : ∀ c ∈ digits, c.isDigit = true) : IsNumeral (positional digits leading) := by
  have hzeros (n : Nat) : ' ' ∉ List.replicate n '0' := by simp [List.mem_replicate]
  have hdigits := not_blank_of_digits h
  unfold positional
  split
  · refine ⟨?_, '0', List.mem_cons_self, rfl⟩
    simp only [List.mem_cons, List.mem_append, not_or]
    exact ⟨by decide, by decide, hzeros _, hdigits⟩
  · have hbefore (n m : Nat) : ' ' ∉ digits.take n ++ List.replicate m '0' := by
      rw [List.mem_append, not_or]
      exact ⟨fun hmem => hdigits (List.mem_of_mem_take hmem), hzeros m⟩
    dsimp only
    split
    · exact IsNumeral.append_left (hbefore _ _) ⟨by decide, '0', by simp, rfl⟩
    next hafter =>
      have hrest := isNumeral_of_digits hafter fun c hc => h c (List.mem_of_mem_drop hc)
      have hpoint := hrest.append_left (s := ['.']) (by decide)
      exact hpoint.append_left (hbefore _ _)

/-- The scientific form of digits is a numeral. -/
theorem isNumeral_scientific {digits : List Char} (leading : Int)
    (h : ∀ c ∈ digits, c.isDigit = true) : IsNumeral (scientific digits leading) := by
  have hexponent := (isNumeral_toString_int leading).append_left (s := ['e']) (by decide)
  unfold scientific
  refine hexponent.append_left ?_
  split
  · simp
  · exact not_blank_of_digits h
  · rw [List.forall_mem_cons] at h
    simp only [List.mem_cons, not_or]
    exact ⟨(ne_blank_of_isDigit h.1).symm, by decide, not_blank_of_digits h.2⟩

/-- The text of a finite number is a numeral. -/
theorem isNumeral_text {x : Binary64} (hx : x.isFinite = true) : IsNumeral x.text.toList := by
  have hnumber : ¬ x.isNaN = true := by
    have hbiased : ¬ x.biased = 2047 := by simpa [isFinite] using hx
    simp [isNaN, hbiased]
  have hdigits := isDigit_trimZeros (isDigit_toDigits x.shortest.digits)
  have hmagnitude : IsNumeral x.magnitudeText := by
    simp only [magnitudeText]
    split
    · exact isNumeral_positional _ hdigits
    · exact isNumeral_scientific _ hdigits
  have hunsigned : IsNumeral (if ¬ x.isFinite then "inf".toList
      else if x.significand = 0 then "0.0".toList else x.magnitudeText) := by
    rw [if_neg (by simp [hx])]
    split
    · exact ⟨by decide, '0', by decide, rfl⟩
    · exact hmagnitude
  rw [text, if_neg hnumber, String.toList_ofList]
  by_cases hnegative : x.isNegative = true
  · rw [if_pos hnegative]
    exact hunsigned.append_left (s := ['-']) (by decide)
  · rw [if_neg hnegative]
    exact hunsigned

end Binary64

namespace Token

open Text

/-- The text that divides what stands around it here: a comma, or a text with an operator in it. A
star by itself is no operator. -/
def mark? : List Token → Option String
  | .piece (.text s) :: _ => if s = ", " ∨ (hasOperator s = true ∧ s ≠ "*") then some s else none
  | _ => none

/-- A text that nothing outside of its brackets divides. -/
def Undivided (ts : List Token) : Prop :=
  ∀ rest, cut mark? 0 (ts ++ rest) = (cut mark? 0 rest).prepend ts

/-- Nothing divides no tokens. -/
theorem undivided_nil : Undivided [] := fun _ => rfl

/-- A token that is neither a bracket nor a mark is undivided. -/
theorem undivided_atom {t : Token} (ht : t.isBracket = false) (hmark : mark? [t] = none) :
    Undivided [t] := by
  intro rest
  have hnone : mark? (t :: rest) = none := by
    cases t with
    | piece p => cases p <;> exact hmark
    | _ => rfl
  exact cut_atom ht hnone

/-- Balanced tokens in brackets are undivided. -/
theorem undivided_parens {ts : List Token} (hts : Balanced ts) : Undivided (parens ts) :=
  cut_parens hts 0

/-- Two undivided texts are undivided together. -/
theorem Undivided.append {ts us : List Token} (hts : Undivided ts) (hus : Undivided us) :
    Undivided (ts ++ us) := by
  intro rest
  rw [List.append_assoc, hts, hus, Cut.prepend_prepend]

/-- A token that is neither a bracket nor a mark may stand before an undivided text. -/
theorem Undivided.cons {t : Token} {ts : List Token} (ht : t.isBracket = false)
    (hmark : mark? [t] = none) (hts : Undivided ts) : Undivided (t :: ts) := by
  have happend := (undivided_atom ht hmark).append hts
  exact happend

/-- Where nothing divides a text, it is its own only part. -/
theorem Undivided.cut_eq {ts : List Token} (h : Undivided ts) : cut mark? 0 ts = ⟨ts, []⟩ := by
  have hcut := h []
  simpa [Cut.prepend] using hcut

/-- What is written in front of a mark is a part of its own. -/
theorem Undivided.cut_mark {ts : List Token} (h : Undivided ts) {s : String}
    (hs : mark? [text s] = some s) (rest : List Token) :
    cut mark? 0 (ts ++ text s :: rest) = ((cut mark? 0 rest).start s).prepend ts := by
  rw [h, cut_separator rfl]
  exact hs

/-- A name is no mark. -/
theorem mark?_name {name : String} (h : IsName name) : mark? [text name] = none := by
  have hcomma : name ≠ ", " := by
    rintro rfl
    exact absurd h.not_blank (by decide)
  simp [mark?, text, hcomma, h.not_operator]

/-- A numeral is no mark. -/
theorem mark?_numeral {s : String} (h : IsNumeral s.toList) : mark? [text s] = none := by
  have hcomma : s ≠ ", " := by
    rintro rfl
    exact absurd h.not_blank (by decide)
  have hoperator := h.hasOperator
  rw [String.ofList_toList] at hoperator
  simp [mark?, text, hcomma, hoperator]

end Token

end SqlAlgebra
