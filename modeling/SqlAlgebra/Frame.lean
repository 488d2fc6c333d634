/-!
# Window frames

The frame of a window call: the rows around the current one over which the call is taken.
-/

namespace SqlAlgebra

/-- What the bounds of a frame count. -/
inductive FrameMode where
  | rows | range | groups
deriving DecidableEq

namespace FrameMode

def keyword : FrameMode → String
  | rows => "ROWS"
  | range => "RANGE"
  | groups => "GROUPS"

end FrameMode

/-- One end of a frame. A missing distance means that the end is unbounded. -/
inductive FrameBound where
  | currentRow
  | preceding (distance : Option UInt64)
  | following (distance : Option UInt64)
deriving DecidableEq

namespace FrameBound

/-- The distance of a bound, in words. -/
def distanceText : Option UInt64 → String
  | none => "UNBOUNDED"
  | some n => toString n.toNat

def text : FrameBound → String
  | currentRow => "CURRENT ROW"
  | preceding n => distanceText n ++ " PRECEDING"
  | following n => distanceText n ++ " FOLLOWING"

end FrameBound

/-- A frame, from `start` to `stop`, or with `start` alone when no end is given. -/
structure Frame where
  mode : FrameMode
  start : FrameBound
  stop : Option FrameBound
deriving DecidableEq

namespace Frame

/-- The frame clause, such as `ROWS BETWEEN 1 PRECEDING AND CURRENT ROW`. -/
def text (frame : Frame) : String :=
  match frame.stop with
  | some stop => frame.mode.keyword ++ " BETWEEN " ++ frame.start.text ++ " AND " ++ stop.text
  | none => frame.mode.keyword ++ " " ++ frame.start.text

end Frame

end SqlAlgebra
