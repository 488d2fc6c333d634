import SqlAlgebra.Token

/-!
# Cutting tokens outside of brackets

Tokens in which all brackets are matched, and the cutting of a token list at the separators that
stand outside of brackets. Whatever stands in matched brackets stays in one piece, so to know where
a text is cut one only has to look at its outermost level.
-/

namespace SqlAlgebra

namespace Token

/-- The token opens or closes a bracket. -/
def isBracket : Token → Bool
  | .piece .leftParen | .piece .rightParen => true
  | _ => false

/-- Every bracket is closed, and nothing is closed that was not opened. -/
inductive Balanced : List Token → Prop where
  | nil : Balanced []
  | atom {t : Token} (ht : t.isBracket = false) : Balanced [t]
  | append {ts us : List Token} (hts : Balanced ts) (hus : Balanced us) : Balanced (ts ++ us)
  | parens {ts : List Token} (hts : Balanced ts) : Balanced (parens ts)

namespace Balanced

/-- A token that is no bracket may stand before balanced ones. -/
theorem cons {t : Token} {ts : List Token} (ht : t.isBracket = false) (hts : Balanced ts) :
    Balanced (t :: ts) := by
  have happend := (Balanced.atom ht).append hts
  exact happend

/-- Two texts with words between them. -/
theorem join {ts us : List Token} (hts : Balanced ts) (s : String) (hus : Balanced us) :
    Balanced (ts ++ [text s] ++ us) :=
  (hts.append (.atom rfl)).append hus

/-- Balanced parts with a balanced separator between them are balanced. -/
theorem intercalate {sep : List Token} (hsep : Balanced sep) :
    ∀ {parts : List (List Token)}, (∀ part ∈ parts, Balanced part) →
      Balanced (sep.intercalate parts)
  | [], _ => .nil
  | [part], h => by
    rw [List.intercalate_singleton]
    exact h part (List.mem_singleton_self part)
  | part :: part' :: parts, h => by
    rw [List.forall_mem_cons] at h
    rw [List.intercalate_cons_cons]
    exact (h.1.append hsep).append (Balanced.intercalate hsep h.2)

/-- Balanced parts with commas between them are balanced. -/
theorem commas {parts : List (List Token)} (h : ∀ part ∈ parts, Balanced part) :
    Balanced (commas parts) :=
  Balanced.intercalate (.atom rfl) h

end Balanced

/-- How many brackets are open behind a token, if `depth` are before it. -/
def nest (depth : Nat) : Token → Nat
  | .piece .leftParen => depth + 1
  | .piece .rightParen => depth - 1
  | _ => depth

/-- What a text is cut into: a first part, and the others with the separators before them. -/
structure Cut (σ : Type) where
  first : List Token
  rest : List (σ × List Token)
deriving DecidableEq

namespace Cut

variable {σ : Type}

/-- The parts with tokens put in front of the first. -/
def prepend (ts : List Token) (c : Cut σ) : Cut σ := { c with first := ts ++ c.first }

/-- The parts with an empty one and a separator put in front of them. -/
def start (s : σ) (c : Cut σ) : Cut σ := ⟨[], (s, c.first) :: c.rest⟩

/-- Tokens may be put in front of the first part in two groups. -/
@[simp] theorem prepend_prepend (ts us : List Token) (c : Cut σ) :
    (c.prepend us).prepend ts = c.prepend (ts ++ us) := by
  simp [prepend]

end Cut

section Cutting

variable {σ : Type} {sep : List Token → Option σ}

/-- The parts of a text between its separators, with `depth` brackets open before it. Whether a
token is a separator may depend on what comes behind it. Inside of brackets it never is. -/
def cut (sep : List Token → Option σ) : Nat → List Token → Cut σ
  | _, [] => ⟨[], []⟩
  | depth, t :: ts =>
    match if depth = 0 ∧ t.isBracket = false then sep (t :: ts) else none with
    | some s => (cut sep 0 ts).start s
    | none => (cut sep (t.nest depth) ts).prepend [t]

/-- No tokens are one empty part. -/
@[simp] theorem cut_nil (depth : Nat) : cut sep depth [] = ⟨[], []⟩ := rfl

/-- A separator outside of brackets ends a part. -/
theorem cut_separator {t : Token} {ts : List Token} {s : σ} (ht : t.isBracket = false)
    (hsep : sep (t :: ts) = some s) : cut sep 0 (t :: ts) = (cut sep 0 ts).start s := by
  simp [cut, ht, hsep]

/-- A token that is no bracket opens and closes none. -/
theorem nest_of_not_isBracket {t : Token} (ht : t.isBracket = false) (depth : Nat) :
    t.nest depth = depth := by
  unfold nest
  split
  · cases ht
  · cases ht
  · rfl

/-- A token outside of brackets that is no separator belongs to the part that follows. -/
theorem cut_atom {t : Token} {ts : List Token} (ht : t.isBracket = false)
    (hsep : sep (t :: ts) = none) : cut sep 0 (t :: ts) = (cut sep 0 ts).prepend [t] := by
  simp [cut, ht, hsep, nest_of_not_isBracket ht]

/-- An opening bracket belongs to its part and opens one level. -/
theorem cut_leftParen (depth : Nat) (ts : List Token) :
    cut sep depth (leftParen :: ts) = (cut sep (depth + 1) ts).prepend [leftParen] := by
  simp [cut, leftParen, isBracket, nest]

/-- A closing bracket belongs to its part and closes one level. -/
theorem cut_rightParen (depth : Nat) (ts : List Token) :
    cut sep (depth + 1) (rightParen :: ts) = (cut sep depth ts).prepend [rightParen] := by
  simp [cut, nest, rightParen]

/-- What is passed over inside of brackets is passed over together with them. -/
theorem cut_parens_of_inside {ts : List Token} {depth : Nat}
    (h : ∀ rest, cut sep (depth + 1) (ts ++ rest) = (cut sep (depth + 1) rest).prepend ts)
    (rest : List Token) :
    cut sep depth (parens ts ++ rest) = (cut sep depth rest).prepend (parens ts) := by
  have hopened : parens ts ++ rest = leftParen :: (ts ++ rightParen :: rest) := by
    simp [parens]
  rw [hopened, cut_leftParen, h, cut_rightParen, Cut.prepend_prepend, Cut.prepend_prepend]
  simp [parens]

/-- Inside of brackets, a text whose own brackets are matched is passed over. -/
theorem cut_balanced {ts : List Token} (h : Balanced ts) (depth : Nat) (rest : List Token) :
    cut sep (depth + 1) (ts ++ rest) = (cut sep (depth + 1) rest).prepend ts := by
  induction h generalizing depth rest with
  | nil => rfl
  | atom ht => simp [cut, nest_of_not_isBracket ht]
  | append _ _ ihts ihus => rw [List.append_assoc, ihts, ihus, Cut.prepend_prepend]
  | parens _ ih => exact cut_parens_of_inside (ih (depth + 1)) rest

/-- A text between brackets is passed over at any depth. -/
theorem cut_parens {ts : List Token} (h : Balanced ts) (depth : Nat) (rest : List Token) :
    cut sep depth (parens ts ++ rest) = (cut sep depth rest).prepend (parens ts) :=
  cut_parens_of_inside (cut_balanced h depth) rest

end Cutting

end Token

end SqlAlgebra
