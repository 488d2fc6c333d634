import SqlAlgebra.Proofs.Lexing

/-!
# Quoted texts end where they end

A reader that is given a quoted identifier or a string literal, and anything behind it, finds the
end of it by itself, unless what is behind continues it: a name goes on after a dot, and a quotation
after another closing mark. It gives back what was quoted, so no two names and no two texts are
quoted alike.
-/

namespace SqlAlgebra

/-- A text is split as lists are. -/
theorem Text.split_eq_splitOn (separator : Char) (s : List Char) :
    split separator s = s.splitOn separator := by
  induction s with
  | nil => rfl
  | cons c s ih =>
    have hne : split separator s ≠ [] := ih ▸ List.splitOn_ne_nil _ _
    obtain ⟨part, parts, hsplit⟩ := List.exists_cons_of_ne_nil hne
    rw [List.splitOn, List.splitOnP_cons_eq_if_modifyHead, ← List.splitOn, ← ih, split, hsplit]
    by_cases hc : c = separator <;> simp [hc]

namespace Quotation

variable {m : Quotation}

/-- A character that is doubled is written twice between the marks. -/
theorem body_cons_of_mem {c : Char} (hc : c ∈ m.doubled) (s : List Char) :
    m.body (c :: s) = c :: c :: m.body s := by
  simp [body, hc]

/-- A character that is not doubled is written once between the marks. -/
theorem body_cons_of_notMem {c : Char} (hc : c ∉ m.doubled) (s : List Char) :
    m.body (c :: s) = c :: m.body s := by
  simp [body, hc]

/-- What is read as a quoted text is one, up to a closing mark that is not doubled. -/
theorem eq_body_of_read {cs s rest : List Char} (h : m.read cs = some (s, rest)) :
    cs = m.body s ++ m.right :: rest ∧ rest.head? ≠ some m.right := by
  fun_induction read m cs generalizing s rest with
  | case1 | case3 | case7 => contradiction
  | case2 =>
    cases h
    exact ⟨rfl, by simp⟩
  | case4 c c' tail hc ih =>
    obtain ⟨⟨s', rest'⟩, hread, heq⟩ := Option.map_eq_some_iff.mp h
    cases heq
    obtain ⟨htail, hrest⟩ := ih hread
    exact ⟨by rw [body_cons_of_notMem hc, htail]; rfl, hrest⟩
  | case5 c tail hc ih =>
    obtain ⟨⟨s', rest'⟩, hread, heq⟩ := Option.map_eq_some_iff.mp h
    cases heq
    obtain ⟨htail, hrest⟩ := ih hread
    exact ⟨by rw [body_cons_of_mem (not_not.mp hc), htail]; rfl, hrest⟩
  | case6 c' tail hc hne =>
    cases h
    exact ⟨rfl, fun h => hne (Option.some.inj h)⟩

/-- A text is read exactly if it is written up to a right mark that no other one follows. -/
theorem read_eq_some_iff {cs s rest : List Char} :
    m.read cs = some (s, rest) ↔
      cs = m.body s ++ m.right :: rest ∧ rest.head? ≠ some m.right := by
  refine ⟨eq_body_of_read, ?_⟩
  rintro ⟨rfl, hrest⟩
  exact m.read_body s hrest

end Quotation

namespace QuoteStyle

variable {style : QuoteStyle}

/-- The quoted parts at the front of a text, as long as there are dots between them, and the rest
behind them. -/
def readName (style : QuoteStyle) : List Char → Option (List (List Char) × List Char)
  | [] => none
  | c :: cs =>
    if c = style.quotation.left then
      match _ : style.quotation.read cs with
      | none => none
      | some (part, rest) =>
        if rest.head? = some '.' then
          (style.readName rest.tail).map fun (parts, rest) => (part :: parts, rest)
        else some ([part], rest)
    else none
termination_by cs => cs.length
decreasing_by
  have hlength := Quotation.length_of_read _ ‹_›
  rw [List.length_tail, List.length_cons]
  omega

/-- A dot closes no quotation. -/
theorem right_ne_dot (style : QuoteStyle) : style.right ≠ '.' := by
  cases style <;> decide

/-- A quoted part is read back, and after a dot another part is looked for. -/
theorem readName_write (part : List Char) {rest : List Char}
    (hright : rest.head? ≠ some style.right) :
    style.readName (style.quotation.write part ++ rest) =
      if rest.head? = some '.' then
        (style.readName rest.tail).map fun (parts, rest) => (part :: parts, rest)
      else some ([part], rest) := by
  have hread := style.quotation.read_body part hright
  rw [Quotation.write, List.cons_append, List.append_assoc, readName, if_pos rfl]
  split <;> simp_all

/-- Parts with dots between them are read up to the last one. -/
theorem readName_intercalate {parts : List (List Char)} (hparts : parts ≠ []) {rest : List Char}
    (hdot : rest.head? ≠ some '.') (hright : rest.head? ≠ some style.right) :
    style.readName (['.'].intercalate (parts.map style.quotation.write) ++ rest) =
      some (parts, rest) := by
  induction parts with
  | nil => contradiction
  | cons part parts ih =>
    cases parts with
    | nil =>
      rw [List.map_singleton, List.intercalate_singleton, readName_write part hright, if_neg hdot]
    | cons part' parts =>
      have hnext (tail : List Char) : ('.' :: tail).head? ≠ some style.right := by
        simpa using style.right_ne_dot.symm
      rw [List.map_cons, List.map_cons, List.intercalate_cons_cons, ← List.map_cons,
        List.append_assoc, List.append_assoc, List.singleton_append, readName_write part (hnext _),
        if_pos List.head?_cons, List.tail_cons, ih (List.cons_ne_nil _ _)]
      rfl

/-- What is read as a name is one: quoted parts with dots between them, and no more of them
follow. -/
theorem eq_intercalate_of_readName {cs rest : List Char} {parts : List (List Char)}
    (h : style.readName cs = some (parts, rest)) :
    parts ≠ [] ∧ cs = ['.'].intercalate (parts.map style.quotation.write) ++ rest ∧
      rest.head? ≠ some '.' ∧ rest.head? ≠ some style.right := by
  fun_induction readName style cs generalizing parts rest with
  | case1 | case2 | case5 => contradiction
  | case3 cs part rest' hread hdot ih =>
    obtain ⟨⟨parts', rest''⟩, hparts, heq⟩ := Option.map_eq_some_iff.mp h
    cases heq
    obtain ⟨hne, htail, hends⟩ := ih hparts
    obtain ⟨hcs, -⟩ := Quotation.eq_body_of_read hread
    obtain ⟨part', parts, rfl⟩ := List.exists_cons_of_ne_nil hne
    refine ⟨List.cons_ne_nil _ _, ?_, hends⟩
    rw [← List.cons_head?_tail hdot, htail] at hcs
    rw [List.map_cons, List.map_cons, List.intercalate_cons_cons, ← List.map_cons,
      Quotation.write, hcs]
    simp
  | case4 cs part rest' hread hdot =>
    cases h
    obtain ⟨hcs, hright⟩ := Quotation.eq_body_of_read hread
    refine ⟨List.cons_ne_nil _ _, ?_, hdot, hright⟩
    rw [List.map_singleton, List.intercalate_singleton, Quotation.write, hcs]
    simp

/-- A name is quoted part by part, with the dots between its parts left outside. -/
theorem toList_quote (style : QuoteStyle) (name : String) :
    (style.quote name).toList =
      ['.'].intercalate ((name.toList.splitOn '.').map style.quotation.write) := by
  rw [quote, String.toList_ofList, Text.split_eq_splitOn, funext style.quotePart_eq]

/-- The parts of a name are read exactly where the name is written. -/
theorem readName_eq_some_iff (style : QuoteStyle) (name : String) {cs rest : List Char} :
    style.readName cs = some (name.toList.splitOn '.', rest) ↔
      cs = (style.quote name).toList ++ rest ∧
        rest.head? ≠ some '.' ∧ rest.head? ≠ some style.right := by
  rw [toList_quote]
  refine ⟨fun h => (eq_intercalate_of_readName h).2, ?_⟩
  rintro ⟨rfl, hdot, hright⟩
  exact readName_intercalate (List.splitOn_ne_nil _ _) hdot hright

/-- The parts between the dots make up the name, so what is read tells names apart. -/
theorem injective_quote (style : QuoteStyle) : Function.Injective style.quote := by
  intro name name' h
  have hread (name : String) : style.readName (style.quote name).toList =
      some (name.toList.splitOn '.', []) := by
    rw [readName_eq_some_iff]
    simp
  have hsplit : name.toList.splitOn '.' = name'.toList.splitOn '.' := by
    have hname := hread name
    rw [h, hread name'] at hname
    simpa using hname.symm
  have hjoin (name : String) : ['.'].intercalate (name.toList.splitOn '.') = name.toList :=
    List.intercalate_splitOn '.'
  rw [← String.toList_inj, ← hjoin name, hsplit, hjoin]

end QuoteStyle

namespace Profile

/-- The text of the string literal at the front of a text, and the rest behind it. -/
def readLiteral (p : Profile) : List Char → Option (List Char × List Char)
  | [] => none
  | c :: cs => if c = p.quotation.left then p.quotation.read cs else none

/-- A text is read exactly where it is written as a literal. -/
theorem readLiteral_eq_some_iff (p : Profile) (s : String) {cs rest : List Char} :
    p.readLiteral cs = some (s.toList, rest) ↔
      cs = (p.stringLiteral s).toList ++ rest ∧ rest.head? ≠ some '\x27' := by
  rw [toList_stringLiteral, Quotation.write]
  cases cs with
  | nil => simp [readLiteral]
  | cons c cs =>
    by_cases hc : c = p.quotation.left
    · rw [readLiteral, if_pos hc, Quotation.read_eq_some_iff, hc]
      simp [Profile.quotation]
    · simp [readLiteral, hc]

end Profile

/-- The reader finds the parts of a name and a rest exactly if the name is quoted there and the rest
does not continue it, and the same holds of texts in string literals. So whatever else stands
behind them, it stops at their end, and names that differ are quoted differently. -/
theorem read_iff_quoted :
    (∀ (style : QuoteStyle) (name : String) (cs rest : List Char),
      style.readName cs = some (name.toList.splitOn '.', rest) ↔
        cs = (style.quote name).toList ++ rest ∧
          rest.head? ≠ some '.' ∧ rest.head? ≠ some style.right) ∧
    (∀ style : QuoteStyle, Function.Injective style.quote) ∧
    ∀ (p : Profile) (s : String) (cs rest : List Char),
      p.readLiteral cs = some (s.toList, rest) ↔
        cs = (p.stringLiteral s).toList ++ rest ∧ rest.head? ≠ some '\x27' :=
  ⟨fun style name _ _ => style.readName_eq_some_iff name, QuoteStyle.injective_quote,
    fun p s _ _ => p.readLiteral_eq_some_iff s⟩

end SqlAlgebra
