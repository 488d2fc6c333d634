import SqlAlgebra.Plan
import SqlAlgebra.Proofs.PlainText

/-!
# Separated pieces

Pieces are separated if what they write as it stands is plain, and something stands between any two
of them that are quoted. The text of a plan with separated pieces is read back as the lexemes of the
pieces. Lists of tokens are put together so that their pieces stay separated.
-/

namespace SqlAlgebra

/-- What holds of the parts and is kept when two are joined by the separator, holds of all of them
with separators between them. -/
theorem intercalate_induction {α : Type} {P : List α → Prop} {separator : List α} (hnil : P [])
    (hjoin : ∀ {xs ys}, P xs → P ys → P (xs ++ separator ++ ys)) {parts : List (List α)}
    (hparts : ∀ part ∈ parts, P part) : P (separator.intercalate parts) := by
  induction parts with
  | nil => exact hnil
  | cons part parts ih =>
    obtain ⟨hpart, hparts⟩ := List.forall_mem_cons.mp hparts
    cases parts with
    | nil => rwa [List.intercalate_singleton]
    | cons part' parts =>
      rw [List.intercalate_cons_cons]
      exact hjoin hpart (ih hparts)

namespace Lexeme

/-- No comment starts in a name. -/
theorem quiet_ofName (name : String) : Quiet (ofName name) := by
  refine intercalate_induction (by decide) (fun hxs hys => (hxs.append (by decide)).append hys) ?_
  intro part hpart
  obtain ⟨part, -, rfl⟩ := List.mem_map.mp hpart
  exact quiet_of_forall_ne (by simp)

/-- A text that is written as it stands has no string in it. -/
theorem filterMap_string?_ofText (s : String) : (ofText s).filterMap string? = [] := by
  simp [ofText, List.filterMap_map, string?]

/-- A text that is written as it stands has no quoted name in it. -/
theorem filterMap_ident?_ofText (s : String) : (ofText s).filterMap ident? = [] := by
  simp [ofText, List.filterMap_map, ident?]

/-- A name has no string in it. -/
theorem filterMap_string?_ofName (name : String) : (ofName name).filterMap string? = [] := by
  refine intercalate_induction (P := fun xs => xs.filterMap string? = []) rfl (fun hxs hys => ?_) ?_
  · rw [List.filterMap_append, List.filterMap_append, hxs, hys]
    rfl
  · intro part hpart
    obtain ⟨part, -, rfl⟩ := List.mem_map.mp hpart
    rfl

/-- The quoted parts of a name are what stands between its dots. -/
theorem filterMap_ident?_ofName (name : String) :
    (ofName name).filterMap ident? = Text.split '.' name.toList := by
  unfold ofName
  induction Text.split '.' name.toList with
  | nil => rfl
  | cons part parts ih =>
    cases parts with
    | nil => rfl
    | cons part' parts =>
      simp only [List.map_cons, List.intercalate_cons_cons, List.filterMap_append] at ih ⊢
      rw [ih]
      rfl

end Lexeme

namespace Piece

/-- The lexemes of a piece, a slot having the number `n`. -/
def lexemesAt (placeholder : Nat → String) (n : Nat) : Piece → List Lexeme
  | text s => Lexeme.ofText s
  | ident name => Lexeme.ofName name
  | literal s => [.string s.toList]
  | slot _ => Lexeme.ofText (placeholder n)
  | leftParen => Lexeme.ofText "("
  | rightParen => Lexeme.ofText ")"

/-- The number of the next slot behind a piece, `n` being that of the next one before it. -/
def slotAfter (n : Nat) : Piece → Nat
  | slot _ => n + 1
  | _ => n

/-- The lexemes of pieces, their slots being numbered from `n` on. -/
def lexemes (placeholder : Nat → String) (n : Nat) : List Piece → List Lexeme
  | [] => []
  | x :: ps => x.lexemesAt placeholder n ++ lexemes placeholder (x.slotAfter n) ps

/-- The text of a literal. -/
def literal? : Piece → Option String
  | literal s => some s
  | _ => none

/-- The name that a piece is. -/
def ident? : Piece → Option String
  | ident name => some name
  | _ => none

/-- The string literals among the lexemes are the constant texts among the pieces. -/
theorem filterMap_string?_lexemes (placeholder : Nat → String) (n : Nat) (ps : List Piece) :
    (lexemes placeholder n ps).filterMap Lexeme.string? =
      (ps.filterMap literal?).map String.toList := by
  induction ps generalizing n with
  | nil => rfl
  | cons x ps ih =>
    rw [lexemes, List.filterMap_append, ih, List.filterMap_cons]
    cases x with
    | literal s => rfl
    | ident name => rw [lexemesAt, Lexeme.filterMap_string?_ofName]; rfl
    | text | slot | leftParen | rightParen => rw [lexemesAt, Lexeme.filterMap_string?_ofText]; rfl

/-- The quoted identifiers among the lexemes are the parts of the identifiers among the pieces. -/
theorem filterMap_ident?_lexemes (placeholder : Nat → String) (n : Nat) (ps : List Piece) :
    (lexemes placeholder n ps).filterMap Lexeme.ident? =
      (ps.filterMap ident?).flatMap fun name => Text.split '.' name.toList := by
  induction ps generalizing n with
  | nil => rfl
  | cons x ps ih =>
    rw [lexemes, List.filterMap_append, ih, List.filterMap_cons]
    cases x with
    | literal s => rfl
    | ident name => rw [lexemesAt, Lexeme.filterMap_ident?_ofName]; rfl
    | text | slot | leftParen | rightParen => rw [lexemesAt, Lexeme.filterMap_ident?_ofText]; rfl

/-- The piece is written between quotation marks. -/
def isQuoted : Piece → Bool
  | ident _ | literal _ => true
  | _ => false

/-- The piece may follow a quoted one: it is not quoted itself, and it is not empty. -/
def separates : Piece → Bool
  | text s => s ≠ ""
  | ident _ | literal _ => false
  | slot _ | leftParen | rightParen => true

/-- What is written as it stands is plain. -/
def IsPlain : Piece → Prop
  | text s => Text.IsPlain s.toList
  | _ => True

/-- What is written as it stands is plain, and no two quoted pieces touch. -/
structure Separated (ps : List Piece) : Prop where
  plain : ∀ x ∈ ps, x.IsPlain
  apart : ps.IsChain fun x y => x.isQuoted → y.separates

/-- No pieces are separated. -/
theorem separated_nil : Separated [] where
  plain := by simp
  apart := List.isChain_nil

/-- A plain piece stands before separated ones, if it is not quoted or they start with one that may
follow a quoted one. -/
theorem Separated.cons {x : Piece} {ps : List Piece} (hx : x.IsPlain) (hps : Separated ps)
    (hhead : x.isQuoted → ∀ y ∈ ps.head?, y.separates) : Separated (x :: ps) where
  plain := List.forall_mem_cons.mpr ⟨hx, hps.plain⟩
  apart := List.isChain_cons.mpr ⟨fun y hy hquoted => hhead hquoted y hy, hps.apart⟩

/-- Separated pieces stand before others that start with one that may follow a quoted one. -/
theorem Separated.append {ps qs : List Piece} (hps : Separated ps) (hqs : Separated qs)
    (hhead : ∀ y ∈ qs.head?, y.separates) : Separated (ps ++ qs) where
  plain := List.forall_mem_append.mpr ⟨hps.plain, hqs.plain⟩
  apart := List.isChain_append.mpr ⟨hps.apart, hqs.apart, fun _ _ y hy _ => hhead y hy⟩

section Reading

variable (p : Profile)

/-- The characters of a piece, a slot having the number `n`. -/
def charsAt (n : Nat) : Piece → List Char
  | text s => s.toList
  | ident name => (p.quote.quote name).toList
  | literal s => (p.stringLiteral s).toList
  | slot _ => (p.placeholder.write n).toList
  | leftParen => "(".toList
  | rightParen => ")".toList

/-- The characters of pieces, their slots being numbered from `n` on. -/
def chars (n : Nat) : List Piece → List Char
  | [] => []
  | x :: ps => x.charsAt p n ++ chars (x.slotAfter n) ps

/-- The text of the segments has the characters of the pieces. -/
theorem chars_eq_write (n : Nat) (ps : List Piece) :
    (Segment.write p.placeholder.write n (ps.map (segment p.dialect))).flatMap String.toList =
      chars p n ps := by
  induction ps generalizing n with
  | nil => rfl
  | cons x ps ih =>
    rw [chars, ← ih]
    cases x <;> rfl

/-- The text of a plan has the characters of the pieces of its tokens. -/
theorem sql_ofTokens (ts : List Token) :
    (Plan.ofTokens p.dialect ts).sql.toList = chars p 1 (Token.pieces false ts) := by
  rw [← chars_eq_write, Plan.ofTokens, Plan.ofSegments, String.toList_join]
  rfl

/-- What is written as it stands has the lexemes of its characters, and starts no comment. -/
theorem exists_isPlain_of_not_isQuoted {x : Piece} (n : Nat) (hplain : x.IsPlain)
    (hx : x.isQuoted = false) : ∃ s : String, Text.IsPlain s.toList ∧
      x.charsAt p n = s.toList ∧ x.lexemesAt p.placeholder.write n = Lexeme.ofText s := by
  cases x with
  | ident | literal => contradiction
  | text s => exact ⟨s, hplain, rfl, rfl⟩
  | slot => exact ⟨_, (p.placeholder.isUnsigned_write n).plain, rfl, rfl⟩
  | leftParen => exact ⟨"(", by decide, rfl, rfl⟩
  | rightParen => exact ⟨")", by decide, rfl, rfl⟩

/-- A piece that separates has a first character. -/
theorem charsAt_ne_nil {x : Piece} (n : Nat) (hx : x.separates) : x.charsAt p n ≠ [] := by
  cases x with
  | ident | literal => contradiction
  | text s => simpa [charsAt, separates] using hx
  | slot => exact (p.placeholder.isUnsigned_write n).ne_nil
  | leftParen | rightParen => exact List.cons_ne_nil _ _

/-- A piece that may follow a quoted one is not quoted itself. -/
theorem isQuoted_of_separates {x : Piece} (hx : x.separates) : x.isQuoted = false := by
  cases x <;> first | rfl | contradiction

/-- Where pieces may follow a quoted one, their text does not start with a quotation mark. -/
theorem head_chars {n : Nat} {ps : List Piece} (hplain : ∀ x ∈ ps, x.IsPlain)
    (hhead : ∀ x ∈ ps.head?, x.separates) : ∀ c ∈ (chars p n ps).head?, c ∉ Text.marks := by
  cases ps with
  | nil => simp [chars]
  | cons x ps =>
    have hx := hhead x rfl
    obtain ⟨s, hs, hchars, -⟩ := exists_isPlain_of_not_isQuoted p n (hplain x List.mem_cons_self)
      (isQuoted_of_separates hx)
    have hne := charsAt_ne_nil p n hx
    rw [hchars] at hne
    intro c hc
    rw [chars, hchars, List.head?_append_of_ne_nil _ hne] at hc
    exact hs.1 c (List.mem_of_head? hc)

/-- A piece is read as its lexemes if no quotation mark follows where it is quoted. -/
theorem lex_charsAt {x : Piece} (n : Nat) {rest : List Char} (hplain : x.IsPlain)
    (hrest : x.isQuoted → ∀ c ∈ rest.head?, c ∉ Text.marks) :
    p.lex (x.charsAt p n ++ rest) =
      (p.lex rest).map (x.lexemesAt p.placeholder.write n ++ ·) := by
  cases hx : x.isQuoted with
  | false =>
    obtain ⟨s, hs, hchars, hlexemes⟩ := exists_isPlain_of_not_isQuoted p n hplain hx
    have hleft : p.quote.left ∈ Text.marks := by cases p.quote <;> decide
    rw [hchars, hlexemes]
    refine p.lex_plain rest fun c hc => ⟨?_, ?_⟩
    · exact (ne_of_mem_of_not_mem List.mem_cons_self (hs.1 c hc)).symm
    · exact (ne_of_mem_of_not_mem hleft (hs.1 c hc)).symm
  | true =>
    have hnot (c : Char) (hc : c ∈ Text.marks) : rest.head? ≠ some c := fun h => hrest hx c h hc
    cases x with
    | ident name => exact p.lex_name name (hnot _ (by cases p.quote <;> decide))
    | literal s =>
      rw [charsAt, p.toList_stringLiteral]
      exact p.lex_string s.toList (hnot _ (by decide))
    | text | slot | leftParen | rightParen => contradiction

/-- The text of separated pieces is read as their lexemes. -/
theorem lex_chars (n : Nat) {ps : List Piece} (h : Separated ps) :
    p.lex (chars p n ps) = some (lexemes p.placeholder.write n ps) := by
  obtain ⟨hplain, hchain⟩ := h
  induction ps generalizing n with
  | nil => rw [chars, Profile.lex, lexemes]
  | cons x ps ih =>
    obtain ⟨hx, hps⟩ := List.forall_mem_cons.mp hplain
    obtain ⟨hhead, hchain⟩ := List.isChain_cons.mp hchain
    -- what follows matters to a quoted piece only, whose end it could put off
    have hrest (hquoted : x.isQuoted) : ∀ c ∈ (chars p (x.slotAfter n) ps).head?, c ∉ Text.marks :=
      head_chars p hps fun y hy => hhead y hy hquoted
    rw [chars, lexemes, lex_charsAt p n hx hrest, ih _ hps hchain]
    rfl

/-- Plain pieces start no comment. -/
theorem quiet_lexemes (n : Nat) {ps : List Piece} (hplain : ∀ x ∈ ps, x.IsPlain) :
    Lexeme.Quiet (lexemes p.placeholder.write n ps) := by
  induction ps generalizing n with
  | nil => exact Lexeme.quiet_of_forall_ne (by simp [lexemes])
  | cons x ps ih =>
    obtain ⟨hx, hps⟩ := List.forall_mem_cons.mp hplain
    rw [lexemes]
    refine Lexeme.Quiet.append ?_ (ih _ hps)
    cases hquoted : x.isQuoted with
    | false =>
      obtain ⟨s, hs, -, hlexemes⟩ := exists_isPlain_of_not_isQuoted p n hx hquoted
      rw [hlexemes]
      exact hs.2
    | true =>
      cases x with
      | ident name => exact Lexeme.quiet_ofName name
      | literal s => exact Lexeme.quiet_of_forall_ne (by simp [lexemesAt])
      | text | slot | leftParen | rightParen => contradiction

end Reading

end Piece

namespace Token

/-- How proposed columns are spelled behind tokens. -/
def asValuesAfter : Bool → List Token → Bool
  | asValues, [] => asValues
  | asValues, .piece _ :: ts | asValues, .proposed _ :: ts => asValuesAfter asValues ts
  | _, .proposedAsValues on :: ts => asValuesAfter on ts

/-- The pieces of two texts are those of the first and then those of the second, in the mode that
the first leaves. -/
theorem pieces_append (asValues : Bool) (ts us : List Token) :
    pieces asValues (ts ++ us) = pieces asValues ts ++ pieces (asValuesAfter asValues ts) us := by
  induction ts generalizing asValues with
  | nil => rfl
  | cons t ts ih =>
    cases t <;> simp [pieces, asValuesAfter, ih]

/-- The pieces of the tokens are separated, however proposed columns are spelled. -/
def Separated (ts : List Token) : Prop := ∀ asValues, Piece.Separated (pieces asValues ts)

/-- Separated tokens that may follow a quoted piece. -/
structure IsClause (ts : List Token) : Prop where
  separated : Separated ts
  head : ∀ asValues, ∀ x ∈ (pieces asValues ts).head?, x.separates

/-- No tokens may follow anything. -/
theorem isClause_nil : IsClause [] where
  separated _ := Piece.separated_nil
  head := by simp [pieces]

/-- One plain piece is separated. -/
theorem separated_piece {x : Piece} (hx : x.IsPlain) : Separated [.piece x] :=
  fun _ => .cons hx Piece.separated_nil (by simp [pieces])

/-- Separated tokens may be followed by a clause. -/
theorem Separated.append {ts us : List Token} (hts : Separated ts) (hus : IsClause us) :
    Separated (ts ++ us) := by
  intro asValues
  rw [pieces_append]
  exact (hts _).append (hus.separated _) (hus.head _)

/-- Two clauses are a clause together. -/
theorem IsClause.append {ts us : List Token} (hts : IsClause ts) (hus : IsClause us) :
    IsClause (ts ++ us) where
  separated := hts.separated.append hus
  head asValues x hx := by
    rw [pieces_append, List.head?_append] at hx
    cases hhead : (pieces asValues ts).head? with
    | none => exact hus.head _ x (by simpa [hhead] using hx)
    | some y => exact hts.head asValues x (by simpa [hhead] using hx)

/-- A plain text can stand before separated tokens. -/
theorem Separated.text_cons {s : String} {ts : List Token} (hs : Text.IsPlain s.toList)
    (hts : Separated ts) : Separated (text s :: ts) :=
  fun asValues => .cons hs (hts asValues) (by simp [Piece.isQuoted])

/-- A keyword before separated tokens makes a clause. -/
theorem Separated.clause {s : String} {ts : List Token} (hs : Text.IsKeyword s)
    (hts : Separated ts) : IsClause (text s :: ts) where
  separated := hts.text_cons hs.1
  head _ x hx := by
    cases hx
    simpa [Piece.separates] using hs.2

/-- A keyword may follow anything. -/
theorem isClause_text {s : String} (hs : Text.IsKeyword s) : IsClause [text s] :=
  isClause_nil.separated.clause hs

/-- Two lists of separated tokens can be joined by a keyword. -/
theorem Separated.join {s : String} {ts us : List Token} (hts : Separated ts)
    (hs : Text.IsKeyword s) (hus : Separated us) : Separated (ts ++ [text s] ++ us) := by
  rw [List.append_assoc]
  exact hts.append (hus.clause hs)

/-- Separated tokens in brackets may follow anything. -/
theorem Separated.parens {ts : List Token} (hts : Separated ts) : IsClause (parens ts) := by
  have hright : IsClause [rightParen] :=
    ⟨separated_piece trivial, by simp [rightParen, pieces, Piece.separates]⟩
  have hinside := hts.append hright
  exact ⟨fun asValues => .cons trivial (hinside asValues) (by simp [Piece.isQuoted]),
    by simp [Token.parens, leftParen, pieces, Piece.separates]⟩

/-- A name may be followed by a clause. -/
theorem IsClause.ident_cons {ts : List Token} (hts : IsClause ts) (name : String) :
    Separated (ident name :: ts) :=
  fun asValues => .cons trivial (hts.separated asValues) fun _ => hts.head asValues

/-- One name is separated. -/
theorem separated_ident (name : String) : Separated [ident name] := separated_piece trivial

/-- A proposed column is separated in both spellings. -/
theorem separated_proposed (name : String) : Separated [.proposed name] := by
  intro asValues
  cases asValues with
  | true =>
    exact ((separated_ident name).parens.separated.text_cons (s := "VALUES") (by decide)) true
  | false =>
    exact ((separated_ident name).clause (s := ".") (by decide)).ident_cons _ false

/-- A column is separated, with or without a qualifier. -/
theorem separated_column (owner : Option String) (name : String) :
    Separated (Token.column owner name) := by
  cases owner with
  | none => exact separated_ident name
  | some owner =>
    by_cases howner : owner = Expr.proposedTable
    · rw [Token.column, if_pos howner]
      exact separated_proposed name
    · rw [Token.column, if_neg howner]
      exact ((separated_ident name).clause (by decide)).ident_cons owner

/-- Separated parts with a keyword between them are separated. -/
theorem separated_intercalate {s : String} (hs : Text.IsKeyword s) {parts : List (List Token)}
    (hparts : ∀ part ∈ parts, Separated part) : Separated ([text s].intercalate parts) :=
  intercalate_induction isClause_nil.separated (fun hxs hys => hxs.join hs hys) hparts

/-- Separated parts with commas between them are separated. -/
theorem separated_commas {parts : List (List Token)} (hparts : ∀ part ∈ parts, Separated part) :
    Separated (commas parts) :=
  separated_intercalate (by decide) hparts

/-- A list of columns in brackets may follow anything. -/
theorem isClause_columnList (names : List String) : IsClause (columnList names) := by
  unfold columnList
  split
  · exact isClause_nil
  · refine Separated.clause (by decide) (Separated.parens (separated_commas ?_)).separated
    intro part hpart
    obtain ⟨name, -, rfl⟩ := List.mem_map.mp hpart
    exact separated_ident name

/-- A switch in the spelling of proposed columns writes nothing. -/
theorem Separated.switch {ts : List Token} (hts : Separated ts) (on off : Bool) :
    Separated (.proposedAsValues on :: (ts ++ [.proposedAsValues off])) := by
  intro asValues
  rw [pieces, pieces_append]
  simpa [pieces] using hts on

end Token

end SqlAlgebra
