import Mathlib.Data.List.Basic
import SqlAlgebra.Toml.Reading
import SqlAlgebra.Toml.Writing

/-!
# Reading written documents

A document that was written is read back section by section. Readers are given what was written and
whatever comes behind it, and stop where the second begins.
-/

namespace SqlAlgebra.Toml

section Strings

/-- A control character is read back from its four digits. -/
theorem codePoint?_control : ∀ n < 128, n < 0x20 ∨ n = 0x7f →
    codePoint? ['0', '0', Nat.digitChar (n / 16), (Nat.digitChar (n % 16)).toUpper] =
      some (.ofNat n) := by
  decide

/-- A character is read back from however it is written. -/
theorem basicText_escapeChar (fuel : Nat) (c : Char) (cs : List Char) :
    basicText (fuel + 1) (escapeChar c ++ cs) = onto c (basicText fuel cs) := by
  unfold escapeChar
  split
  case h_8 hquote hslash =>
    split
    · rename_i hcontrol
      simp only [Bool.or_eq_true, decide_eq_true_eq, beq_iff_eq] at hcontrol
      have hpoint := codePoint?_control c.toNat (by omega) hcontrol
      rw [Char.ofNat_toNat] at hpoint
      simp [basicText, escaped, hpoint]
    · rename_i hplain
      have hplain : isPlain c = true := by
        simp only [isPlain]
        simp at hplain ⊢
        omega
      simp [basicText, hplain]
  all_goals simp [basicText, escaped, escape?]

/-- A text between quotes is read back from its escaped form. -/
theorem basicText_escaped (s rest : List Char) {fuel : Nat} (h : s.length < fuel) :
    basicText fuel (s.flatMap escapeChar ++ '\x22' :: rest) = some (s, rest) := by
  induction s generalizing fuel with
  | nil =>
    obtain ⟨fuel, rfl⟩ := Nat.exists_eq_succ_of_ne_zero (Nat.ne_of_gt h)
    rfl
  | cons c s ih =>
    obtain ⟨fuel, rfl⟩ := Nat.exists_eq_succ_of_ne_zero (Nat.ne_of_gt (Nat.zero_lt_of_lt h))
    rw [List.flatMap_cons, List.append_assoc, basicText_escapeChar, ih (Nat.lt_of_succ_lt_succ h)]
    rfl

/-- The escaped form of a character does not start with a quote. -/
theorem exists_escapeChar_eq (c : Char) : ∃ x xs, escapeChar c = x :: xs ∧ x ≠ '\x22' := by
  unfold escapeChar
  split
  case h_8 hquote hslash =>
    split
    · exact ⟨_, _, rfl, by decide⟩
    · exact ⟨_, _, rfl, hquote⟩
  all_goals exact ⟨_, _, rfl, by decide⟩

/-- Escaping a text makes it no shorter. -/
theorem length_le_flatMap_escapeChar (s : List Char) :
    s.length ≤ (s.flatMap escapeChar).length := by
  induction s with
  | nil => exact Nat.le_refl _
  | cons c s ih =>
    obtain ⟨x, xs, hc, -⟩ := exists_escapeChar_eq c
    simp only [List.flatMap_cons, List.length_append, hc, List.length_cons]
    omega

/-- Behind a word that is written between quotes there is no other quote. -/
theorem string_escaped (s : List Char) {rest : List Char} (hrest : rest.head? ≠ some '\x22') :
    string ('\x22' :: (s.flatMap escapeChar ++ '\x22' :: rest)) = some (s, rest) := by
  have hlength : s.length < (s.flatMap escapeChar ++ '\x22' :: rest).length + 1 := by
    have hle := length_le_flatMap_escapeChar s
    rw [List.length_append]
    omega
  have hline : lineString ('\x22' :: (s.flatMap escapeChar ++ '\x22' :: rest)) =
      some (s, rest) := by
    rw [lineString, basicText_escaped s rest hlength]
  rw [← hline]
  cases s with
  | nil =>
    cases rest with
    | nil => rfl
    | cons c rest =>
      have hc : c ≠ '\x22' := by simpa using hrest
      simp [string, hc]
  | cons c s =>
    obtain ⟨x, xs, hc, hx⟩ := exists_escapeChar_eq c
    simp [string, hc, hx]

/-- A quoted word is its escaped form between quotes. -/
theorem toList_quotedWord (s : String) :
    (quotedWord s).toList = '\x22' :: (s.toList.flatMap escapeChar ++ ['\x22']) := by
  rw [quotedWord, String.toList_ofList]

/-- A quoted word is read back as a text. -/
theorem scalar_quotedWord (s : String) {rest : List Char} (hrest : rest.head? ≠ some '\x22') :
    scalar ((quotedWord s).toList ++ rest) = some (.text s, rest) := by
  rw [toList_quotedWord, List.cons_append, List.append_assoc, List.singleton_append, scalar,
    string_escaped s.toList hrest]
  simp only [Option.map_some, String.ofList_toList]

end Strings

section Numbers

variable {rest : List Char}

/-- Decimal digits have the value that they have in the library. -/
theorem ofDigits_eq_ofDigitChars {ds : List Char} (h : ∀ c ∈ ds, c.isDigit = true) :
    ofDigits 10 ds = Nat.ofDigitChars 10 ds 0 := by
  rw [ofDigits, Nat.ofDigitChars_eq_foldl]
  refine List.foldl_ext _ _ _ fun acc c hc => ?_
  simp [Text.hexDigit?, h c hc]

/-- The value of the digits of a number is the number. -/
theorem ofDigits_toDigits (n : Nat) : ofDigits 10 (Nat.toDigits 10 n) = n := by
  rw [ofDigits_eq_ofDigitChars fun c => Nat.isDigit_of_mem_toDigits (by decide) (by decide),
    Nat.ofDigitChars_ten_toDigits]

/-- A number has at least one digit. -/
theorem exists_toDigits_eq (n : Nat) :
    ∃ c cs, Nat.toDigits 10 n = c :: cs ∧ ∀ x ∈ c :: cs, x.isDigit = true := by
  have hne : Nat.toDigits 10 n ≠ [] := Nat.toDigits_ne_nil
  obtain ⟨c, cs, hcs⟩ := List.exists_cons_of_ne_nil hne
  refine ⟨c, cs, hcs, fun x hx => ?_⟩
  rw [← hcs] at hx
  exact Nat.isDigit_of_mem_toDigits (by decide) (by decide) hx

/-- A digit is no other character. -/
theorem ne_of_isDigit {c x : Char} (hc : c.isDigit = true) (hx : x.isDigit = false) : c ≠ x := by
  rintro rfl
  rw [hc] at hx
  cases hx

/-- Only the number zero is written with a zero in front. -/
theorem head?_toDigits {n : Nat} (hn : n ≠ 0) : (Nat.toDigits 10 n).head? ≠ some '0' := by
  induction n using Nat.strongRecOn with
  | ind n ih =>
    by_cases hlt : n < 10
    · simp [Nat.toDigits_of_lt_base hlt, Nat.digitChar_eq_zero, hn]
    · have hdiv : n / 10 ≠ 0 := by omega
      have hhead := ih (n / 10) (by omega) hdiv
      rw [Nat.toDigits_of_base_le (by decide) (by omega)]
      obtain ⟨c, cs, hcs, -⟩ := exists_toDigits_eq (n / 10)
      simpa [hcs] using hhead

/-- Digits are read up to the end of the line. -/
theorem moreDigits_append {ds : List Char} (h : ∀ c ∈ ds, c.isDigit = true) :
    moreDigits Char.isDigit (ds ++ '\n' :: rest) = (ds, '\n' :: rest) := by
  induction ds with
  | nil =>
    cases rest <;> simp [moreDigits, Char.isDigit]
  | cons c ds ih =>
    rw [List.forall_mem_cons] at h
    have hne : c ≠ '_' := ne_of_isDigit h.1 rfl
    have hmore := ih h.2
    cases hds : ds ++ '\n' :: rest with
    | nil => simp at hds
    | cons d ds' =>
      rw [hds] at hmore
      simp [moreDigits, h.1, hds, hne, hmore]

/-- One or more digits are read up to the end of the line. -/
theorem digits_append {c : Char} {ds : List Char} (h : ∀ x ∈ c :: ds, x.isDigit = true) :
    digits Char.isDigit (c :: ds ++ '\n' :: rest) = some (c :: ds, '\n' :: rest) := by
  rw [List.forall_mem_cons] at h
  simp [digits, h.1, moreDigits_append h.2]

/-- The digits of a number are read up to the end of the line. -/
theorem whole_toDigits (n : Nat) :
    whole (Nat.toDigits 10 n ++ '\n' :: rest) = some (Nat.toDigits 10 n, '\n' :: rest) := by
  by_cases hn : n = 0
  · subst hn
    rfl
  · have hhead := head?_toDigits hn
    obtain ⟨c, cs, hcs, hdigits⟩ := exists_toDigits_eq n
    rw [hcs] at hhead ⊢
    have hc : c ≠ '0' := by simpa using hhead
    rw [← digits_append hdigits]
    simp [whole, hc]

/-- A natural number that is not too large is accepted. -/
theorem integerOf_nat {n : Nat} (hn : (n : Int) ≤ Int64.maxValue.toInt) :
    integerOf n = some (.int n) := by
  have hmin : Int64.minValue.toInt ≤ n := by
    have hneg : Int64.minValue.toInt ≤ 0 := by decide
    omega
  rw [integerOf, if_pos ⟨hmin, hn⟩]

/-- The digits of a number that is not too large are read as this number. -/
theorem decimal_toDigits {n : Nat} (hn : (n : Int) ≤ Int64.maxValue.toInt) :
    decimal (Nat.toDigits 10 n ++ '\n' :: rest) = some (.int n, '\n' :: rest) := by
  have hwhole : whole (Nat.toDigits 10 n ++ '\n' :: rest) = _ := whole_toDigits n
  have hof := ofDigits_toDigits n
  obtain ⟨c, cs, hcs, hdigits⟩ := exists_toDigits_eq n
  have hc (x : Char) (hx : x.isDigit = false) : c ≠ x :=
    ne_of_isDigit (hdigits c List.mem_cons_self) hx
  have hsign : sign (c :: (cs ++ '\n' :: rest)) = (false, c :: (cs ++ '\n' :: rest)) := by
    simp [sign, hc '-' rfl, hc '+' rfl]
  rw [hcs] at hof
  rw [hcs, List.cons_append] at hwhole ⊢
  simp [decimal, hsign, hwhole, hc 'i' rfl, hc 'n' rfl, goesOn, hof, integerOf_nat hn]

/-- Digits are read as a decimal number, not as one of another base. -/
theorem number_toDigits {n : Nat} (hn : (n : Int) ≤ Int64.maxValue.toInt) :
    number (Nat.toDigits 10 n ++ '\n' :: rest) = some (.int n, '\n' :: rest) := by
  rw [← decimal_toDigits hn]
  by_cases hzero : n = 0
  · subst hzero
    rfl
  · have hhead := head?_toDigits hzero
    obtain ⟨c, cs, hcs, -⟩ := exists_toDigits_eq n
    rw [hcs] at hhead ⊢
    have hc : c ≠ '0' := by simpa using hhead
    simp [number, hc]

/-- Among digits and the end of their line, digits leave digits behind. -/
theorem fixedDigits_append {width m : Nat} {ds cs : List Char} (h : ∀ c ∈ ds, c.isDigit = true)
    (hread : fixedDigits width (ds ++ '\n' :: rest) = some (m, cs)) :
    ∃ ds', cs = ds' ++ '\n' :: rest ∧ ∀ c ∈ ds', c.isDigit = true := by
  unfold fixedDigits at hread
  dsimp only at hread
  split at hread
  · rename_i hdigits
    have hwidth : width ≤ ds.length := by
      by_contra hlt
      obtain ⟨k, hk⟩ : ∃ k, width - ds.length = k + 1 := ⟨width - ds.length - 1, by omega⟩
      have hall := hdigits.2
      rw [List.take_append, hk, List.take_succ_cons, List.all_append, List.all_cons] at hall
      simp at hall
    cases hread
    refine ⟨ds.drop width, List.drop_append_of_le_length hwidth, fun c hc => h c ?_⟩
    exact List.mem_of_mem_drop hc
  · cases hread

/-- In digits at the end of a line, no other character is found. -/
theorem expect_append {x : Char} {ds : List Char} (h : ∀ c ∈ ds, c.isDigit = true)
    (hx : x.isDigit = false) (hline : '\n' ≠ x) : expect x (ds ++ '\n' :: rest) = none := by
  cases ds with
  | nil => simp [expect, hline]
  | cons c ds =>
    have hc : c ≠ x := ne_of_isDigit (h c List.mem_cons_self) hx
    simp [expect, hc]

/-- Digits up to the end of a line are neither a date nor a time. -/
theorem moment_append {ds : List Char} (h : ∀ c ∈ ds, c.isDigit = true) :
    moment (ds ++ '\n' :: rest) = none := by
  have hnext {width m : Nat} {cs : List Char} (x : Char) (hx : x.isDigit = false)
      (hline : '\n' ≠ x) (hread : fixedDigits width (ds ++ '\n' :: rest) = some (m, cs)) :
      expect x cs = none := by
    obtain ⟨ds', rfl, hds'⟩ := fixedDigits_append h hread
    exact expect_append hds' hx hline
  have hdate : date? (ds ++ '\n' :: rest) = none := by
    cases hread : fixedDigits 4 (ds ++ '\n' :: rest) with
    | none => simp [date?, hread]
    | some read => simp [date?, hread, hnext '-' rfl (by decide) hread]
  have hclock : clock? (ds ++ '\n' :: rest) = none := by
    cases hread : fixedDigits 2 (ds ++ '\n' :: rest) with
    | none => simp [clock?, hread]
    | some read => simp [clock?, hread, hnext ':' rfl (by decide) hread]
  simp [moment, hdate, time?, hclock]

/-- A count is read back as a number. -/
theorem scalar_count {n : Nat} (hn : (n : Int) ≤ Int64.maxValue.toInt) :
    scalar ((Entry.count n).text.toList ++ '\n' :: rest) = some (.int n, '\n' :: rest) := by
  have htext : (Entry.count n).text.toList = Nat.toDigits 10 n := by
    rw [Entry.text, Nat.toString_eq_ofList_toDigits, String.toList_ofList]
  have hnumber : number (Nat.toDigits 10 n ++ '\n' :: rest) = _ := number_toDigits hn
  obtain ⟨c, cs, hcs, hdigits⟩ := exists_toDigits_eq n
  have hmoment : moment (c :: cs ++ '\n' :: rest) = none := moment_append hdigits
  have hc (x : Char) (hx : x.isDigit = false) : c ≠ x :=
    ne_of_isDigit (hdigits c List.mem_cons_self) hx
  rw [hcs] at hnumber
  rw [htext, hcs, ← hnumber]
  rw [List.cons_append] at hmoment ⊢
  simp [scalar, hc 't' rfl, hc 'f' rfl, hc '\x22' rfl, hc '\x27' rfl, hmoment]

end Numbers

section Values

variable {fuel room : Nat} {rest : List Char}

/-- The integers among the entries fit into 64 bits with a sign. -/
def Entry.Fits : Entry → Prop
  | .count n => (n : Int) ≤ Int64.maxValue.toInt
  | _ => True

/-- What starts neither an array nor an inline table is read as a scalar. -/
theorem value_of_scalar {cs : List Char} (harray : cs.head? ≠ some '[')
    (htable : cs.head? ≠ some '\x7b') : value (fuel + 1) room cs = scalar cs := by
  unfold value
  split
  · contradiction
  · exact absurd rfl harray
  · exact absurd rfl htable
  · simp_all

/-- A quoted word starts with a quote. -/
theorem head?_quotedWord (s : String) {c : Char} (hc : '\x22' ≠ c) :
    ((quotedWord s).toList ++ rest).head? ≠ some c := by
  rw [toList_quotedWord]
  simpa using hc

/-- A quoted word is read back as a value. -/
theorem value_quotedWord (s : String) (hrest : rest.head? ≠ some '\x22') :
    value (fuel + 1) room ((quotedWord s).toList ++ rest) = some (.text s, rest) := by
  rw [value_of_scalar (head?_quotedWord s (by decide)) (head?_quotedWord s (by decide)),
    scalar_quotedWord s hrest]

/-- There is no layout before a quoted word. -/
theorem skipLayout_quotedWord (s : String) :
    skipLayout false ((quotedWord s).toList ++ rest) = (quotedWord s).toList ++ rest := by
  rw [toList_quotedWord]
  rfl

/-- An item before the closing bracket is the last. -/
theorem arrayItems_last {item : Json} {cs behind : List Char} (hopen : cs.head? ≠ some ']')
    (hitem : value fuel room cs = some (item, behind))
    (hclose : skipLayout false behind = ']' :: rest) :
    arrayItems (fuel + 1) room cs = some ([item], rest) := by
  cases cs with
  | nil => simp [arrayItems, hitem, hclose]
  | cons c cs =>
    have hopen : c ≠ ']' := by simpa using hopen
    simp [arrayItems, hopen, hitem, hclose]

/-- An item before a comma is followed by the others. -/
theorem arrayItems_more {item : Json} {items : List Json} {cs behind next : List Char}
    (hopen : cs.head? ≠ some ']') (hitem : value fuel room cs = some (item, behind))
    (hcomma : skipLayout false behind = ',' :: next)
    (hitems : arrayItems fuel room (skipLayout false next) = some (items, rest)) :
    arrayItems (fuel + 1) room cs = some (item :: items, rest) := by
  cases cs with
  | nil => simp [arrayItems, hitem, hcomma, hitems]
  | cons c cs =>
    have hopen : c ≠ ']' := by simpa using hopen
    simp [arrayItems, hopen, hitem, hcomma, hitems]

/-- The lines of a list, each with a word, up to the bracket that closes it. -/
def wordLines (ss : List String) (rest : List Char) : List Char :=
  ss.flatMap (fun s => ("    " ++ quotedWord s ++ ",\n").toList) ++ ']' :: rest

/-- Behind the layout of a line of an array stands its word. -/
theorem skipLayout_wordLines_cons (s : String) (ss : List String) :
    skipLayout false (wordLines (s :: ss) rest) =
      (quotedWord s).toList ++ ',' :: '\n' :: wordLines ss rest := by
  rw [← skipLayout_quotedWord]
  simp [wordLines, skipLayout, isBlank]

/-- Words on lines of their own are read back as the items of an array. -/
theorem arrayItems_wordLines (ss : List String) (h : ss.length < fuel) :
    arrayItems fuel room (skipLayout false (wordLines ss rest)) = some (ss.map .text, rest) := by
  induction ss generalizing fuel with
  | nil =>
    obtain ⟨fuel, rfl⟩ := Nat.exists_eq_succ_of_ne_zero (Nat.ne_of_gt h)
    rfl
  | cons s ss ih =>
    rw [List.length_cons] at h
    obtain ⟨fuel, rfl⟩ : ∃ k, fuel = k + 2 := ⟨fuel - 2, by omega⟩
    rw [skipLayout_wordLines_cons]
    exact arrayItems_more (head?_quotedWord s (by decide)) (value_quotedWord s (by simp)) rfl
      (ih (by omega))

/-- Two or more words are written on lines of their own. -/
theorem toList_words_lines (s s' : String) (ss : List String) :
    (Entry.words (s :: s' :: ss)).text.toList ++ rest =
      '[' :: '\n' :: wordLines (s :: s' :: ss) rest := by
  simp [Entry.text, wordLines, String.toList_join, List.flatMap_map]

/-- Each word takes at least one character. -/
theorem length_le_wordLines (ss : List String) : ss.length ≤ (wordLines ss rest).length := by
  induction ss with
  | nil => exact Nat.zero_le _
  | cons s ss ih =>
    simp only [wordLines, List.flatMap_cons, List.length_append, String.toList_append,
      List.length_cons] at ih ⊢
    have hline : "    ".toList.length = 4 := rfl
    omega

/-- A list of words is read back. -/
theorem value_words (ss : List String) (hfuel : (Entry.words ss).text.toList.length + 3 ≤ fuel) :
    value fuel (room + 1) ((Entry.words ss).text.toList ++ rest) =
      some ((Entry.words ss).toJson, rest) := by
  obtain ⟨fuel, rfl⟩ : ∃ k, fuel = k + 3 := ⟨fuel - 3, by omega⟩
  rcases ss with _ | ⟨s, _ | ⟨s', ss⟩⟩
  · have htext : (Entry.words []).text.toList ++ rest = '[' :: ']' :: rest := by
      simp [Entry.text]
    rw [htext]
    rfl
  · have htext : (Entry.words [s]).text.toList ++ rest =
        '[' :: ((quotedWord s).toList ++ ']' :: rest) := by
      simp [Entry.text]
    have hitems : arrayItems (fuel + 2) room ((quotedWord s).toList ++ ']' :: rest) =
        some ([.text s], rest) :=
      arrayItems_last (head?_quotedWord s (by decide)) (value_quotedWord s (by simp)) rfl
    rw [htext, value, skipLayout_quotedWord, hitems]
    rfl
  · have htext : (Entry.words (s :: s' :: ss)).text.toList =
        '[' :: '\n' :: wordLines (s :: s' :: ss) [] := by
      rw [← toList_words_lines, List.append_nil]
    have hlines : (s :: s' :: ss).length ≤ (wordLines (s :: s' :: ss) []).length :=
      length_le_wordLines _
    have hlength : (s :: s' :: ss).length < fuel + 2 := by
      rw [htext, List.length_cons, List.length_cons] at hfuel
      omega
    rw [toList_words_lines, value, skipLayout, arrayItems_wordLines _ hlength]
    rfl

/-- The value of an entry is read up to the end of its line. -/
theorem value_entry {entry : Entry} (hfits : entry.Fits)
    (hfuel : entry.text.toList.length + 3 ≤ fuel) :
    value fuel (room + 1) (entry.text.toList ++ '\n' :: rest) =
      some (entry.toJson, '\n' :: rest) := by
  cases entry with
  | words ss => exact value_words ss hfuel
  | flag b =>
    obtain ⟨fuel, rfl⟩ : ∃ k, fuel = k + 3 := ⟨fuel - 3, by omega⟩
    cases b <;> rfl
  | word s =>
    obtain ⟨fuel, rfl⟩ : ∃ k, fuel = k + 3 := ⟨fuel - 3, by omega⟩
    exact value_quotedWord s (by simp)
  | count n =>
    obtain ⟨fuel, rfl⟩ : ∃ k, fuel = k + 3 := ⟨fuel - 3, by omega⟩
    have hhead (c : Char) (hc : c.isDigit = false) :
        ((Entry.count n).text.toList ++ '\n' :: rest).head? ≠ some c := by
      obtain ⟨x, xs, hxs, hdigits⟩ := exists_toDigits_eq n
      rw [Entry.text, Nat.toString_eq_ofList_toDigits, String.toList_ofList, hxs]
      simpa using ne_of_isDigit (hdigits x List.mem_cons_self) hc
    rw [value_of_scalar (hhead '[' rfl) (hhead '\x7b' rfl), scalar_count hfits]
    rfl

end Values

section Lines

variable {rest : List Char}

/-- The key can be written as it is. -/
def IsBare (key : String) : Prop := key.toList ≠ [] ∧ key.toList.all isBareKey = true

instance (key : String) : Decidable (IsBare key) := inferInstanceAs (Decidable (_ ∧ _))

/-- Every character of a bare key may stand in one. -/
theorem IsBare.forall_mem {name : String} (h : IsBare name) :
    ∀ c ∈ name.toList, isBareKey c = true :=
  List.all_eq_true.mp h.2

/-- A bare key has a first character. -/
theorem IsBare.exists_cons {name : String} (h : IsBare name) :
    ∃ c cs, name.toList = c :: cs ∧ isBareKey c = true := by
  obtain ⟨c, cs, hcs⟩ := List.exists_cons_of_ne_nil h.1
  exact ⟨c, cs, hcs, h.forall_mem c (hcs ▸ List.mem_cons_self)⟩

/-- What may stand in a bare key is no other character. -/
theorem ne_of_isBareKey {c x : Char} (hc : isBareKey c = true) (hx : isBareKey x = false) :
    c ≠ x := by
  rintro rfl
  rw [hc] at hx
  cases hx

/-- A bare key is read up to a character that may not stand in one. -/
theorem IsBare.key {name : String} (h : IsBare name) {c : Char} (hc : isBareKey c = false) :
    key (name.toList ++ c :: rest) = some (name, c :: rest) := by
  have htake : (name.toList ++ c :: rest).takeWhile isBareKey = name.toList := by
    rw [List.takeWhile_append_of_pos h.forall_mem, List.takeWhile_cons_of_neg (by simp [hc]),
      List.append_nil]
  have hdrop : (name.toList ++ c :: rest).dropWhile isBareKey = c :: rest := by
    rw [List.dropWhile_append_of_pos h.forall_mem, List.dropWhile_cons_of_neg (by simp [hc])]
  unfold Toml.key
  rw [htake, hdrop]
  split
  · rename_i hnil
    exact absurd hnil h.1
  · rw [String.ofList_toList]

/-- There is no blank before a bare key. -/
theorem IsBare.skipBlanks {name : String} (h : IsBare name) :
    skipBlanks (name.toList ++ rest) = name.toList ++ rest := by
  obtain ⟨c, cs, hcs, hc⟩ := h.exists_cons
  have hblank : isBlank c = false := by
    simp [isBlank, ne_of_isBareKey hc (rfl : isBareKey ' ' = false),
      ne_of_isBareKey hc (rfl : isBareKey '\t' = false)]
  rw [hcs]
  simp [Toml.skipBlanks, hblank]

/-- A bare key is a path of one key, unless a dot follows. -/
theorem IsBare.keyPath {name : String} (h : IsBare name) {c : Char} (hc : isBareKey c = false)
    (hdot : (Toml.skipBlanks (c :: rest)).head? ≠ some '.') :
    keyPath (name.toList ++ c :: rest) = some ([name], Toml.skipBlanks (c :: rest)) := by
  have hdotted (fuel : Nat) : dottedKeys (fuel + 1) (name.toList ++ c :: rest) =
      some ([name], Toml.skipBlanks (c :: rest)) := by
    simp only [dottedKeys, h.skipBlanks, h.key hc, Option.bind_eq_bind, Option.bind_some]
    split
    · rename_i behind heq
      simp [heq] at hdot
    · rfl
  simp [Toml.keyPath, hdotted, maxDepth]

/-- A key in brackets is read as the heading of a table. -/
theorem statement_table {name : String} (h : IsBare name) :
    statement ('[' :: (name.toList ++ ']' :: rest)) = some (.heading (.table [name]), rest) := by
  have hpath : keyPath (name.toList ++ ']' :: rest) = some ([name], ']' :: rest) :=
    h.keyPath rfl (by simp [skipBlanks, isBlank])
  obtain ⟨c, cs, hcs, hc⟩ := h.exists_cons
  have hbracket : c ≠ '[' := ne_of_isBareKey hc rfl
  rw [hcs, List.cons_append] at hpath ⊢
  simp [statement, hbracket, hpath, expect]

/-- A key in double brackets is read as the heading of an element. -/
theorem statement_element {name : String} (h : IsBare name) :
    statement ('[' :: '[' :: (name.toList ++ ']' :: ']' :: rest)) =
      some (.heading (.element [name]), rest) := by
  have hpath : keyPath (name.toList ++ ']' :: ']' :: rest) = some ([name], ']' :: ']' :: rest) :=
    h.keyPath rfl (by simp [skipBlanks, isBlank])
  simp [statement, hpath, expect]

/-- There is no blank before the text of an entry. -/
theorem skipBlanks_entry (entry : Entry) :
    skipBlanks (entry.text.toList ++ rest) = entry.text.toList ++ rest := by
  cases entry with
  | flag b => cases b <;> rfl
  | word s =>
    rw [Entry.text, toList_quotedWord]
    rfl
  | words ss =>
    rcases ss with _ | ⟨s, _ | ⟨s', ss⟩⟩
    · simp [Entry.text, skipBlanks, isBlank]
    · simp [Entry.text, skipBlanks, isBlank]
    · rw [toList_words_lines]
      rfl
  | count n =>
    obtain ⟨c, cs, hcs, hdigits⟩ := exists_toDigits_eq n
    have hblank : isBlank c = false := by
      have hc := hdigits c List.mem_cons_self
      simp [isBlank, ne_of_isDigit hc (rfl : ' '.isDigit = false),
        ne_of_isDigit hc (rfl : '\t'.isDigit = false)]
    rw [Entry.text, Nat.toString_eq_ofList_toDigits, String.toList_ofList, hcs]
    simp [skipBlanks, hblank]

/-- A key with its entry is read back as a line. -/
theorem statement_entry {name : String} (h : IsBare name) {entry : Entry} (hfits : entry.Fits) :
    statement (name.toList ++ ' ' :: '=' :: ' ' :: (entry.text.toList ++ '\n' :: rest)) =
      some (.entry [name] entry.toJson, '\n' :: rest) := by
  have hpath : keyPath (name.toList ++ ' ' :: '=' :: ' ' :: (entry.text.toList ++ '\n' :: rest)) =
      some ([name], '=' :: ' ' :: (entry.text.toList ++ '\n' :: rest)) :=
    h.keyPath rfl (by simp [skipBlanks, isBlank])
  have hblank : skipBlanks (' ' :: (entry.text.toList ++ '\n' :: rest)) =
      entry.text.toList ++ '\n' :: rest := skipBlanks_entry entry
  have hvalue {fuel : Nat} (hfuel : entry.text.toList.length + 3 ≤ fuel) :
      value fuel maxDepth (entry.text.toList ++ '\n' :: rest) =
        some (entry.toJson, '\n' :: rest) := by
    have hroom : maxDepth = 78 + 1 := rfl
    rw [hroom, value_entry hfits hfuel]
  have hbracket (cs : List Char) : name.toList ++ ' ' :: '=' :: ' ' ::
      (entry.text.toList ++ '\n' :: rest) ≠ '[' :: cs := by
    obtain ⟨c, cs, hcs, hc⟩ := h.exists_cons
    simp [hcs, ne_of_isBareKey hc (rfl : isBareKey '[' = false)]
  unfold statement
  split
  · rename_i heq
    exact absurd heq (hbracket _)
  · rename_i heq
    exact absurd heq (hbracket _)
  · simp only [hpath, expect, hblank, Option.bind_eq_bind, Option.bind_some, if_true]
    rw [hvalue (by simp; omega)]
    rfl

/-- A text says the statements of its lines, however much fuel there is beyond its length. -/
def Says (cs : List Char) (said : List Statement) : Prop :=
  ∀ fuel, cs.length < fuel → statements fuel cs = some said

/-- An empty text says nothing. -/
theorem says_nil : Says [] [] := by
  intro fuel hfuel
  obtain ⟨fuel, rfl⟩ := Nat.exists_eq_succ_of_ne_zero (Nat.ne_of_gt hfuel)
  rfl

/-- An empty line says nothing. -/
theorem Says.emptyLine {said : List Statement} (h : Says rest said) : Says ('\n' :: rest) said := by
  intro fuel hfuel
  obtain ⟨fuel, rfl⟩ : ∃ k, fuel = k + 1 := ⟨fuel - 1, by omega⟩
  have hrest := h fuel (by simpa using hfuel)
  cases rest with
  | nil =>
    obtain rfl : said = [] := by
      have hnil := h 1 (by simp)
      cases hnil
      rfl
    rfl
  | cons c cs => exact hrest

/-- A line that starts with the character says something. -/
def startsLine (c : Char) : Bool := !isBlank c && c != '#' && c != '\n' && c != '\r'

/-- A line that starts with a bare key says something. -/
theorem startsLine_of_isBareKey {c : Char} (hc : isBareKey c = true) : startsLine c = true := by
  have hne (x : Char) (hx : isBareKey x = false) : c ≠ x := ne_of_isBareKey hc hx
  simp [startsLine, isBlank, hne ' ' rfl, hne '\t' rfl, hne '#' rfl, hne '\n' rfl, hne '\r' rfl]

/-- A line that says something comes before what the text behind it says. -/
theorem Says.line {c : Char} {line : List Char} {first : Statement} {said : List Statement}
    (hstarts : startsLine c = true)
    (hline : statement (c :: line ++ '\n' :: rest) = some (first, '\n' :: rest))
    (h : Says rest said) : Says (c :: line ++ '\n' :: rest) (first :: said) := by
  intro fuel hfuel
  obtain ⟨fuel, rfl⟩ : ∃ k, fuel = k + 1 := ⟨fuel - 1, by omega⟩
  have hrest := h fuel (by simp at hfuel; omega)
  simp only [startsLine, Bool.and_eq_true, Bool.not_eq_true', bne_iff_ne] at hstarts
  obtain ⟨⟨⟨hblank, hcomment⟩, hnew⟩, hreturn⟩ := hstarts
  have hend : lineEnd? (c :: line ++ '\n' :: rest) = none := by
    simp [lineEnd?, skipBlanks, hblank, skipComment, hcomment, newline?, hnew, hreturn]
  have hskip : skipBlanks (c :: line ++ '\n' :: rest) = c :: line ++ '\n' :: rest := by
    simp [skipBlanks, hblank]
  have hbehind : lineEnd? ('\n' :: rest) = some rest := rfl
  rw [statements, hend]
  simp only [hskip, hline, hbehind, Option.bind_eq_bind, Option.bind_some, hrest]
  rfl

/-- A text that is read does not start with the mark that is skipped. -/
theorem Says.skipMark {cs : List Char} {said : List Statement} (h : Says cs said) :
    skipMark cs = cs := by
  unfold Toml.skipMark
  split
  · rename_i cs
    have hnone : statements (cs.length + 2) ('\uFEFF' :: cs) = none := by
      simp [statements, lineEnd?, skipBlanks, isBlank, skipComment, newline?, statement, keyPath,
        dottedKeys, key, isBareKey, lineString]
    have hsome := h (cs.length + 2) (by simp)
    rw [hnone] at hsome
    cases hsome
  · rfl

end Lines

section Documents

/-- The path is a single key that can be written as it is. -/
def IsSimple (path : List String) : Prop := ∃ name, path = [name] ∧ IsBare name

/-- The heading can be written and read. -/
def Heading.Simple : Heading → Prop
  | top => True
  | table path | element path => IsSimple path

/-- The section can be written and read. -/
structure Section.Simple (part : Section Entry) : Prop where
  heading : part.heading.Simple
  entries : ∀ x ∈ part.entries, IsSimple x.1 ∧ x.2.Fits

/-- The section with the trees of its entries. -/
def Section.trees (part : Section Entry) : Section Json :=
  ⟨part.heading, part.entries.map fun x => (x.1, x.2.toJson)⟩

/-- What the line of a heading says. -/
def Heading.said : Heading → List Statement
  | top => []
  | table path => [.heading (.table path)]
  | element path => [.heading (.element path)]

/-- What the lines of a section say. -/
def Section.said (part : Section Entry) : List Statement :=
  part.heading.said ++ part.trees.entries.map fun x => .entry x.1 x.2

variable {rest : List Char} {said : List Statement}

/-- The line of an entry says the entry. -/
theorem Says.entryLine {path : List String} {entry : Entry} (hpath : IsSimple path)
    (hfits : entry.Fits) (h : Says rest said) :
    Says ((Toml.entryLine path entry).toList ++ rest) (.entry path entry.toJson :: said) := by
  obtain ⟨name, rfl, hname⟩ := hpath
  have htext : (Toml.entryLine [name] entry).toList ++ rest =
      name.toList ++ ' ' :: '=' :: ' ' :: (entry.text.toList ++ '\n' :: rest) := by
    simp [Toml.entryLine, dottedKey]
  have hstatement : statement ((Toml.entryLine [name] entry).toList ++ rest) =
      some (.entry [name] entry.toJson, '\n' :: rest) := by
    rw [htext]
    exact statement_entry hname hfits
  obtain ⟨c, cs, hcs, hc⟩ := hname.exists_cons
  have hline : (Toml.entryLine [name] entry).toList ++ rest =
      c :: (cs ++ ' ' :: '=' :: ' ' :: entry.text.toList) ++ '\n' :: rest := by
    simp [htext, hcs]
  rw [hline] at hstatement ⊢
  exact h.line (startsLine_of_isBareKey hc) hstatement

/-- The lines of entries say the entries. -/
theorem Says.entryLines {entries : List (List String × Entry)}
    (hentries : ∀ x ∈ entries, IsSimple x.1 ∧ x.2.Fits) (h : Says rest said) :
    Says ((String.join (entries.map fun x => Toml.entryLine x.1 x.2)).toList ++ rest)
      ((entries.map fun x => .entry x.1 x.2.toJson) ++ said) := by
  induction entries with
  | nil => exact h
  | cons x entries ih =>
    rw [List.forall_mem_cons] at hentries
    rw [List.map_cons, List.map_cons, String.join_cons, String.toList_append, List.append_assoc]
    exact (ih hentries.2).entryLine hentries.1.1 hentries.1.2

/-- The line of a heading says the heading. -/
theorem Says.headingLine {heading : Heading} (hheading : heading.Simple) (h : Says rest said) :
    Says (heading.text.toList ++ rest) (heading.said ++ said) := by
  cases heading with
  | top => exact h
  | table path =>
    obtain ⟨name, rfl, hname⟩ := hheading
    have hline : (Heading.table [name]).text.toList ++ rest =
        '[' :: (name.toList ++ [']']) ++ '\n' :: rest := by
      simp [Heading.text, dottedKey]
    rw [hline]
    refine h.line rfl ?_
    rw [List.cons_append, List.append_assoc]
    exact statement_table hname
  | element path =>
    obtain ⟨name, rfl, hname⟩ := hheading
    have hline : (Heading.element [name]).text.toList ++ rest =
        '[' :: '[' :: (name.toList ++ [']', ']']) ++ '\n' :: rest := by
      simp [Heading.text, dottedKey]
    rw [hline]
    refine h.line rfl ?_
    rw [List.cons_append, List.cons_append, List.append_assoc]
    exact statement_element hname

/-- What is written for a section is read as its lines say. -/
theorem Says.sectionText {part : Section Entry} (hpart : part.Simple) (h : Says rest said) :
    Says (part.text.toList ++ rest) (part.said ++ said) := by
  have hlines := (h.entryLines hpart.entries).headingLine hpart.heading
  rw [Section.text, String.toList_append, List.append_assoc, Section.said, Section.trees,
    List.map_map, List.append_assoc]
  exact hlines

/-- A text that is written from simple sections says what the sections do. -/
theorem says_write {parts : List (Section Entry)} (h : ∀ part ∈ parts, part.Simple) :
    Says (write parts).toList (parts.flatMap Section.said) := by
  rw [write, String.toList_intercalate]
  induction parts with
  | nil => exact says_nil
  | cons part parts ih =>
    rw [List.forall_mem_cons] at h
    cases parts with
    | nil => simpa using says_nil.sectionText h.1
    | cons next parts =>
      have hnext := (ih h.2).emptyLine.sectionText h.1
      simpa [List.intercalate_cons_cons] using hnext

/-- Entries without a heading after them are one section. -/
theorem sections_entries (heading : Heading) (entries : List (List String × Json)) :
    sections heading (entries.map fun x => .entry x.1 x.2) = [⟨heading, entries⟩] := by
  induction entries with
  | nil => rfl
  | cons x entries ih => rw [List.map_cons, sections, ih]

/-- A heading ends a section and starts the next. -/
theorem sections_entries_heading (heading next : Heading) (entries : List (List String × Json))
    (said : List Statement) :
    sections heading ((entries.map fun x => .entry x.1 x.2) ++ .heading next :: said) =
      ⟨heading, entries⟩ :: sections next said := by
  induction entries with
  | nil => rfl
  | cons x entries ih => rw [List.map_cons, List.cons_append, sections, ih]

/-- Sections with headings are found again behind entries without one. -/
theorem sections_said (heading : Heading) (entries : List (List String × Json))
    {parts : List (Section Entry)} (h : ∀ part ∈ parts, part.heading ≠ .top) :
    sections heading ((entries.map fun x => .entry x.1 x.2) ++ parts.flatMap Section.said) =
      ⟨heading, entries⟩ :: parts.map Section.trees := by
  induction parts generalizing heading entries with
  | nil => rw [List.flatMap_nil, List.append_nil, sections_entries, List.map_nil]
  | cons part parts ih =>
    rw [List.forall_mem_cons] at h
    have hsaid : part.heading.said = [.heading part.heading] := by
      cases hheading : part.heading with
      | top => exact absurd hheading h.1
      | table path | element path => rfl
    rw [List.flatMap_cons, Section.said, hsaid, List.append_assoc, List.singleton_append,
      sections_entries_heading, ih _ _ h.2, List.map_cons]
    rfl

/-- An empty section above all headings adds nothing. -/
theorem assemble_top (parts : List (Section Json)) :
    assemble (⟨.top, []⟩ :: parts) = assemble parts := rfl

/-- **Written documents are read back.** A document, of which only the first section may be without
a heading, is read as what its sections make. -/
theorem read_write {parts : List (Section Entry)} (hsimple : ∀ part ∈ parts, part.Simple)
    (htop : ∀ part ∈ parts.tail, part.heading ≠ .top) :
    read (write parts) = assemble (parts.map Section.trees) := by
  have hsays := says_write hsimple
  have hread : read (write parts) = assemble (sections .top (parts.flatMap Section.said)) := by
    simp only [read, hsays.skipMark, hsays _ (Nat.lt_succ_self _), Option.bind_eq_bind,
      Option.bind_some]
  rw [hread]
  cases parts with
  | nil => rfl
  | cons part parts =>
    rw [List.tail_cons] at htop
    by_cases hheading : part.heading = .top
    · have hsaid : part.said = part.trees.entries.map fun x => .entry x.1 x.2 := by
        rw [Section.said, hheading]
        rfl
      rw [List.flatMap_cons, hsaid, sections_said _ _ htop, ← hheading]
      rfl
    · -- Before the first heading there are no entries.
      have hall : ∀ p ∈ part :: parts, p.heading ≠ .top :=
        List.forall_mem_cons.mpr ⟨hheading, htop⟩
      have hsections := sections_said .top [] hall
      rw [List.map_nil, List.nil_append] at hsections
      rw [hsections, assemble_top]

end Documents

end SqlAlgebra.Toml
