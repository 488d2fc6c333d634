import SqlAlgebra.Proofs.Agreement

/-!
# Parameter places are numbered from left to right

A plan is made from a list of segments that knows nothing of how parameters are written. The place
that comes `i`-th in the text is written with the number `i`, and the names of the parameters are
those of the places in the same order.
-/

namespace SqlAlgebra

namespace Segment

/-- The segment is the place of a parameter. -/
def isSlot (s : Segment) : Bool := s.slotName?.isSome

/-- A segment as text, where a parameter has the given number. -/
def textAt (placeholder : Nat → String) (number : Nat) : Segment → String
  | text s => s
  | slot _ => placeholder number

/-- Writing numbers each place by how many come before it. -/
theorem write_eq_mapIdx (placeholder : Nat → String) (next : Nat) (segments : List Segment) :
    write placeholder next segments = segments.mapIdx fun k segment =>
      segment.textAt placeholder (next + (segments.take k).countP isSlot) := by
  induction segments generalizing next with
  | nil => rfl
  | cons segment rest ih =>
    rw [List.mapIdx_cons]
    cases segment with
    | text s =>
      rw [write, ih next]
      simp [textAt, isSlot, slotName?]
    | slot name =>
      have hcount (k : Nat) : next + ((slot name :: rest).take (k + 1)).countP isSlot =
          next + 1 + (rest.take k).countP isSlot := by
        rw [List.take_succ_cons, List.countP_cons_of_pos rfl]
        omega
      rw [write, ih (next + 1)]
      simp only [hcount]
      rfl

end Segment

/-- The plan that segments make when the `i`-th parameter place, counted from one, is written as
`placeholder i`. -/
def Plan.numbered (placeholder : Nat → String) (segments : List Segment) : Plan where
  sql := String.join <| segments.mapIdx fun k segment =>
    segment.textAt placeholder ((segments.take k).countP Segment.isSlot + 1)
  params := segments.filterMap Segment.slotName?

/-- Counting parameters on the way gives the plan that is numbered afterwards. -/
theorem Plan.ofSegments_eq_numbered (placeholder : Nat → String) (segments : List Segment) :
    Plan.ofSegments placeholder segments = Plan.numbered placeholder segments := by
  simp only [Plan.ofSegments, Plan.numbered, Segment.write_eq_mapIdx, Nat.add_comm]

/-- The dialect with another way to write parameters, and another identity for plan caches. -/
def Dialect.withPlaceholder (d : Dialect) (placeholder : Nat → String)
    (fingerprint : Fingerprint) : Dialect :=
  { d with placeholder := placeholder, fingerprint := fingerprint }

example (d : Dialect) : d.withPlaceholder d.placeholder d.fingerprint = d := rfl

/-- The segments of a list of tokens. -/
def Token.segments (d : Dialect) (ts : List Token) : List Segment :=
  (Token.pieces false ts).map (Piece.segment d)

section Placeholder

variable (d : Dialect) (placeholder : Nat → String) (fingerprint : Fingerprint)

/-- A dialect that only writes parameters in another way spells all else alike. -/
theorem Dialect.withPlaceholder_spellsLike :
    (d.withPlaceholder placeholder fingerprint).SpellsLike d :=
  ⟨rfl, rfl, rfl, rfl, rfl, rfl, rfl, rfl, rfl, rfl, rfl, rfl⟩

/-- Dialects that only differ in how they write parameters agree on every node. -/
theorem Node.agrees_withPlaceholder (n : Node) :
    n.Agrees (d.withPlaceholder placeholder fingerprint) d :=
  ⟨fun _ _ => rfl, fun _ _ => rfl⟩

/-- The plan in such a dialect is that of the same segments, numbered in another way. -/
theorem Plan.ofTokens_withPlaceholder (ts : List Token) :
    Plan.ofTokens (d.withPlaceholder placeholder fingerprint) ts =
      Plan.numbered placeholder (Token.segments d ts) := by
  have hsegment : Piece.segment (d.withPlaceholder placeholder fingerprint) = Piece.segment d := by
    funext p
    cases p <;> rfl
  rw [Plan.ofTokens, hsegment, Plan.ofSegments_eq_numbered]
  rfl

end Placeholder

/-- For every query and every command there is one list of segments, or one error, that is behind
its outcomes in the given dialect and in all that differ from it only in how parameters are
written. -/
theorem compile_eq_numbered (d : Dialect) :
    (∀ q : Query, ∃ outcome : Except CompileError (List Segment), ∀ placeholder fingerprint,
      q.compile (d.withPlaceholder placeholder fingerprint) =
        outcome.map (Plan.numbered placeholder)) ∧
    (∀ c : Command, ∃ outcome : Except CompileError (List Segment), ∀ placeholder fingerprint,
      c.compile (d.withPlaceholder placeholder fingerprint) =
        outcome.map (Plan.numbered placeholder)) := by
  have hplan (rendered : Rendered) (placeholder : Nat → String) (fingerprint : Fingerprint) :
      (do return Plan.ofTokens (d.withPlaceholder placeholder fingerprint) (← rendered)) =
        (rendered.map (Token.segments d)).map (Plan.numbered placeholder) := by
    cases rendered with
    | error _ => rfl
    | ok ts =>
      rw [ok_bind, Plan.ofTokens_withPlaceholder]
      rfl
  constructor
  · intro q
    refine ⟨(q.render d).map (Token.segments d), fun placeholder fingerprint => ?_⟩
    rw [Query.compile, Query.render_congr (d.withPlaceholder_spellsLike placeholder fingerprint)
      fun n _ => n.agrees_withPlaceholder d placeholder fingerprint]
    exact hplan (q.render d) placeholder fingerprint
  · intro c
    refine ⟨(c.render d).map (Token.segments d), fun placeholder fingerprint => ?_⟩
    rw [Command.compile, Command.render_congr (d.withPlaceholder_spellsLike placeholder fingerprint)
      rfl fun n => n.agrees_withPlaceholder d placeholder fingerprint]
    exact hplan (c.render d) placeholder fingerprint

end SqlAlgebra
