import SqlAlgebra.Proofs.Separation

/-!
# Tokens with the same text

Different lists of tokens can be written as the same text. The words between two parts of it may be
one token in one list and several in the other.
-/

namespace SqlAlgebra

/-- Adjoining texts can as well be one. -/
theorem Plan.ofSegments_glue (placeholder : Nat → String) (before after : List Segment)
    (s t : String) :
    Plan.ofSegments placeholder (before ++ .text s :: .text t :: after) =
      Plan.ofSegments placeholder (before ++ .text (s ++ t) :: after) := by
  have hwrite (next : Nat) :
      String.join (Segment.write placeholder next (before ++ .text s :: .text t :: after)) =
        String.join (Segment.write placeholder next (before ++ .text (s ++ t) :: after)) := by
    induction before generalizing next with
    | nil => simp [Segment.write, String.join_cons, String.append_assoc]
    | cons segment before ih =>
      cases segment <;> simp [Segment.write, String.join_cons, ih]
  have hslots : (before ++ .text s :: .text t :: after).filterMap Segment.slotName? =
      (before ++ .text (s ++ t) :: after).filterMap Segment.slotName? := by
    rw [List.filterMap_append, List.filterMap_append]
    rfl
  rw [Plan.ofSegments, Plan.ofSegments, hwrite, hslots]

namespace Token

/-- Whatever stands around them, the tokens give the same plan. -/
def SameText (d : Dialect) (ts us : List Token) : Prop :=
  ∀ before after, Plan.ofTokens d (before ++ ts ++ after) = Plan.ofTokens d (before ++ us ++ after)

variable {d : Dialect} {ts us vs : List Token}

/-- Tokens have the text that they have. -/
theorem SameText.refl (d : Dialect) (ts : List Token) : SameText d ts ts := fun _ _ => rfl

/-- Having the same text goes both ways. -/
theorem SameText.symm (h : SameText d ts us) : SameText d us ts :=
  fun before after => (h before after).symm

/-- What has the text of tokens with the text of others has the text of those. -/
theorem SameText.trans (h : SameText d ts us) (h' : SameText d us vs) : SameText d ts vs :=
  fun before after => (h before after).trans (h' before after)

/-- Texts that are the same part by part are the same. -/
theorem SameText.append {ts' us' : List Token} (h : SameText d ts us) (h' : SameText d ts' us') :
    SameText d (ts ++ ts') (us ++ us') := by
  intro before after
  have hleft := h before (ts' ++ after)
  have hright := h' (before ++ us) after
  simp only [List.append_assoc] at hleft hright ⊢
  exact hleft.trans hright

/-- Two pieces that are written alike can stand for one another. -/
theorem sameText_piece {p p' : Piece} (h : p.segment d = p'.segment d) :
    SameText d [piece p] [piece p'] := by
  intro before after
  simp [Plan.ofTokens, pieces_append, pieces, h]

/-- A text can be cut anywhere. -/
theorem sameText_glue (d : Dialect) (s t : String) :
    SameText d [text (s ++ t)] [text s, text t] := by
  intro before after
  simp only [Plan.ofTokens, List.append_assoc, pieces_append, List.map_append]
  exact (Plan.ofSegments_glue d.placeholder _ _ s t).symm

/-- Two parts have one comma between them. -/
theorem commas_pair (part part' : List Token) :
    commas [part, part'] = part ++ [text ", "] ++ part' := by
  rw [commas, List.intercalate_cons_cons, List.intercalate_singleton]

/-- Two lists of parts have a comma between them, if both have a part. -/
theorem commas_append : ∀ {parts parts' : List (List Token)}, parts ≠ [] → parts' ≠ [] →
    commas (parts ++ parts') = commas parts ++ text ", " :: commas parts'
  | [], _, h, _ => absurd rfl h
  | [part], part' :: parts', _, _ => by
    simp [commas, List.intercalate_cons_cons]
  | part :: next :: parts, parts', _, h' => by
    have hrest := commas_append (List.cons_ne_nil next parts) h'
    simp only [commas, List.cons_append, List.intercalate_cons_cons, List.append_assoc] at hrest ⊢
    rw [hrest]

/-- Lists of parts that have the same text have the same text together. -/
theorem SameText.commas_append {ps qs ps' qs' : List (List Token)} (hps : ps ≠ []) (hqs : qs ≠ [])
    (hps' : ps' ≠ []) (hqs' : qs' ≠ []) (h : SameText d (commas ps) (commas qs))
    (h' : SameText d (commas ps') (commas qs')) :
    SameText d (commas (ps ++ ps')) (commas (qs ++ qs')) := by
  rw [Token.commas_append hps hps', Token.commas_append hqs hqs']
  exact h.append ((SameText.refl d [text ", "]).append h')

end Token

end SqlAlgebra
