import Mathlib.Data.List.Chain
import SqlAlgebra.Dialect.Profile

/-!
# Reading a statement back

A lexer that knows string literals, quoted identifiers and single characters, and nothing else of
SQL. It is told how a profile quotes, and reads the text of a plan back into the lexemes of its
pieces, provided that the pieces are separated: no two quoted ones touch, and what is written as it
stands has no quotation mark in it and starts no comment.
-/

namespace SqlAlgebra

/-- What the lexer finds: a string literal or a quoted identifier, read, or a character. -/
inductive Lexeme where
  | string (s : List Char)
  | ident (s : List Char)
  | plain (c : Char)
deriving DecidableEq

namespace Lexeme

/-- The text of a string. -/
def string? : Lexeme → Option (List Char)
  | string s => some s
  | _ => none

/-- The text of a part of a name. -/
def ident? : Lexeme → Option (List Char)
  | ident s => some s
  | _ => none

/-- The lexemes of what is written as it stands. -/
def ofText (s : String) : List Lexeme := s.toList.map plain

/-- The lexemes of an identifier: its parts, and the dots between them. -/
def ofName (name : String) : List Lexeme :=
  [plain '.'].intercalate ((Text.split '.' name.toList).map fun part => [ident part])

end Lexeme

/-- A way to quote: the marks around a text, and the characters that are written twice in it. -/
structure Quotation where
  left : Char
  right : Char
  doubled : List Char
  /-- A single right mark can only be the end. -/
  right_mem : right ∈ doubled

namespace Quotation

/-- A text between the marks. -/
def body (m : Quotation) (s : List Char) : List Char :=
  s.flatMap fun c => if c ∈ m.doubled then [c, c] else [c]

/-- A text between the marks, and the marks. -/
def write (m : Quotation) (s : List Char) : List Char := m.left :: (m.body s ++ [m.right])

/-- What is written up to the right mark, and the rest behind it. There is nothing to read if the
right mark is missing, or another character stands alone that is to be written twice. -/
def read (m : Quotation) : List Char → Option (List Char × List Char)
  | [] => none
  | [c] => if c = m.right then some ([], []) else none
  | c :: c' :: rest =>
    if c ∉ m.doubled then (m.read (c' :: rest)).map fun (s, rest) => (c :: s, rest)
    else if c' = c then (m.read rest).map fun (s, rest) => (c :: s, rest)
    else if c = m.right then some ([], c' :: rest)
    else none

/-- Reading a quoted text uses up some of the characters. -/
theorem length_of_read (m : Quotation) {cs s rest : List Char} (h : m.read cs = some (s, rest)) :
    rest.length < cs.length := by
  fun_induction read m cs generalizing s rest with
  | case1 | case3 | case7 => contradiction
  | case2 => simp_all
  | case4 c c' tail _ ih =>
    obtain ⟨⟨s', rest'⟩, hread, heq⟩ := Option.map_eq_some_iff.mp h
    have hlength := ih hread
    grind
  | case5 c tail _ ih =>
    obtain ⟨⟨s', rest'⟩, hread, heq⟩ := Option.map_eq_some_iff.mp h
    have hlength := ih hread
    grind
  | case6 => grind

/-- What is quoted is read, up to the end of it, unless it goes on with another right mark. -/
theorem read_body (m : Quotation) (s : List Char) {rest : List Char}
    (hrest : rest.head? ≠ some m.right) :
    m.read (m.body s ++ m.right :: rest) = some (s, rest) := by
  induction s with
  | nil =>
    cases rest with
    | nil => simp [body, read]
    | cons c rest =>
      have hc : c ≠ m.right := by simpa using hrest
      simp [body, read, m.right_mem, hc]
  | cons c s ih =>
    have hbody : m.body (c :: s) = (if c ∈ m.doubled then [c, c] else [c]) ++ m.body s := rfl
    by_cases hc : c ∈ m.doubled
    · simp [hbody, hc, read, ih]
    -- the reader looks one character ahead, so there has to be one, if only the right mark
    · obtain ⟨c', tail, htail⟩ : ∃ c' tail, m.body s ++ m.right :: rest = c' :: tail :=
        List.exists_cons_of_ne_nil (by simp)
      rw [htail] at ih
      simp [hbody, hc, htail, read, ih]

end Quotation

/-- How identifiers are quoted, a part between dots at a time. -/
def QuoteStyle.quotation (style : QuoteStyle) : Quotation where
  left := style.left
  right := style.right
  doubled := [style.right]
  right_mem := List.mem_singleton_self _

/-- How string literals are quoted. -/
def Profile.quotation (p : Profile) : Quotation where
  left := '\x27'
  right := '\x27'
  doubled := '\x27' :: if p.backslashEscapes then ['\x5c'] else []
  right_mem := List.mem_cons_self

/-- Doubling a character writes it twice wherever it stands. -/
theorem Text.double_eq (c : Char) (s : List Char) :
    Text.double c s = s.flatMap fun x => if x = c then [x, x] else [x] := by
  refine List.flatMap_congr fun x _ => ?_
  by_cases hx : x = c <;> simp [hx]

/-- A part of a name is written in the quotation of its style. -/
theorem QuoteStyle.quotePart_eq (style : QuoteStyle) (part : List Char) :
    style.quotePart part = style.quotation.write part := by
  simp [quotePart, Text.quoted, Text.double_eq, Quotation.write, Quotation.body, quotation]

/-- A string is written in the quotation for strings. -/
theorem Profile.toList_stringLiteral (p : Profile) (s : String) :
    (p.stringLiteral s).toList = p.quotation.write s.toList := by
  have hbody : (if p.backslashEscapes then Text.double '\x5c' (Text.double '\x27' s.toList)
      else Text.double '\x27' s.toList) = p.quotation.body s.toList := by
    cases hescapes : p.backslashEscapes with
    | false => simp [Text.double_eq, Quotation.body, quotation, hescapes]
    | true =>
      simp only [if_true, Text.double_eq, List.flatMap_assoc, Quotation.body]
      refine List.flatMap_congr fun c _ => ?_
      by_cases hc : c = '\x27' <;> simp [quotation, hescapes, hc]
  rw [stringLiteral, String.toList_ofList, hbody]
  rfl

/-- The lexemes of a text, if it is one that a lexer can read to its end. -/
def Profile.lex (p : Profile) : List Char → Option (List Lexeme)
  | [] => some []
  | c :: rest =>
    if c = p.quotation.left then
      match _ : p.quotation.read rest with
      | none => none
      | some (s, rest') => (p.lex rest').map (.string s :: ·)
    else if c = p.quote.quotation.left then
      match _ : p.quote.quotation.read rest with
      | none => none
      | some (s, rest') => (p.lex rest').map (.ident s :: ·)
    else (p.lex rest).map (.plain c :: ·)
termination_by cs => cs.length
decreasing_by
  · exact Nat.lt_succ_of_lt (Quotation.length_of_read _ ‹_›)
  · exact Nat.lt_succ_of_lt (Quotation.length_of_read _ ‹_›)
  · exact Nat.lt_succ_self _

section Reading

variable (p : Profile)

/-- What opens a name is not what opens a string. -/
theorem Profile.quotation_left_ne : p.quote.quotation.left ≠ p.quotation.left := by
  cases hquote : p.quote <;> simp [quotation, QuoteStyle.quotation, QuoteStyle.left]

/-- Characters that open no quotation are read as themselves. -/
theorem Profile.lex_plain {s : List Char} (rest : List Char)
    (hs : ∀ c ∈ s, c ≠ p.quotation.left ∧ c ≠ p.quote.quotation.left) :
    p.lex (s ++ rest) = (p.lex rest).map (s.map .plain ++ ·) := by
  induction s with
  | nil => simp
  | cons c s ih =>
    obtain ⟨⟨hstring, hident⟩, hs⟩ := List.forall_mem_cons.mp hs
    rw [List.cons_append, lex, if_neg hstring, if_neg hident, ih hs, Option.map_map]
    rfl

/-- A string literal is read as what it quotes. -/
theorem Profile.lex_string (s : List Char) {rest : List Char} (hrest : rest.head? ≠ some '\x27') :
    p.lex (p.quotation.write s ++ rest) = (p.lex rest).map (.string s :: ·) := by
  have hread := p.quotation.read_body s hrest
  rw [Quotation.write, List.cons_append, List.append_assoc, lex, if_pos rfl]
  split
  · simp_all
  · simp_all

/-- A quoted part of an identifier is read as what it quotes. -/
theorem Profile.lex_ident (part : List Char) {rest : List Char}
    (hrest : rest.head? ≠ some p.quote.right) :
    p.lex (p.quote.quotation.write part ++ rest) = (p.lex rest).map (.ident part :: ·) := by
  have hread := p.quote.quotation.read_body part hrest
  rw [Quotation.write, List.cons_append, List.append_assoc, lex, if_neg p.quotation_left_ne,
    if_pos rfl]
  split
  · simp_all
  · simp_all

/-- A dot is read as itself. -/
theorem Profile.lex_dot (rest : List Char) :
    p.lex ('.' :: rest) = (p.lex rest).map (.plain '.' :: ·) := by
  refine p.lex_plain (s := ['.']) rest ?_
  cases hquote : p.quote <;> simp [quotation, QuoteStyle.quotation, QuoteStyle.left]

/-- A quoted name is read as its parts with dots between them. -/
theorem Profile.lex_parts (parts : List (List Char)) {rest : List Char}
    (hrest : rest.head? ≠ some p.quote.right) :
    p.lex (['.'].intercalate (parts.map p.quote.quotePart) ++ rest) =
      (p.lex rest).map
        ([Lexeme.plain '.'].intercalate (parts.map fun part => [.ident part]) ++ ·) := by
  induction parts with
  | nil => simp
  | cons part parts ih =>
    cases parts with
    | nil =>
      simp only [List.map_cons, List.map_nil, List.intercalate_singleton, p.quote.quotePart_eq]
      rw [p.lex_ident part hrest]
      rfl
    | cons part' parts =>
      have hdot (tail : List Char) : ('.' :: tail).head? ≠ some p.quote.right := by
        cases hquote : p.quote <;> simp [QuoteStyle.right]
      simp only [List.map_cons, List.intercalate_cons_cons, List.append_assoc,
        List.cons_append, List.nil_append] at ih ⊢
      rw [p.quote.quotePart_eq, p.lex_ident part (hdot _), p.lex_dot, ih, Option.map_map,
        Option.map_map]
      rfl

/-- An identifier is read as its parts. -/
theorem Profile.lex_name (name : String) {rest : List Char}
    (hrest : rest.head? ≠ some p.quote.right) :
    p.lex ((p.quote.quote name).toList ++ rest) =
      (p.lex rest).map (Lexeme.ofName name ++ ·) := by
  rw [QuoteStyle.quote, String.toList_ofList]
  exact p.lex_parts _ hrest

end Reading

end SqlAlgebra
