import SqlAlgebra.Format.Basic
import SqlAlgebra.Frame
import SqlAlgebra.Operator
import SqlAlgebra.SqlType
import SqlAlgebra.Value

/-!
# Stored values

How operators, types, constants and frames are stored. For what is one of finitely many, a table
gives the names.
-/

namespace SqlAlgebra

variable {ω δ : Type} (f : Format ω δ)

namespace BinaryOperator

/-- The names of operators in stored form. -/
def names : List (String × BinaryOperator) :=
  [("Eq", eq), ("NotEq", notEq), ("Lt", lt), ("LtEq", ltEq), ("Gt", gt), ("GtEq", gtEq),
    ("And", and), ("Or", or), ("Plus", plus), ("Minus", minus), ("Multiply", multiply),
    ("Divide", divide), ("Modulo", modulo), ("Like", like), ("NotLike", notLike),
    ("ILike", iLike), ("NotILike", notILike), ("Concat", concat), ("RegexMatch", regexMatch)]

def write : BinaryOperator → ω := f.ofNamed names

def read? : δ → Option BinaryOperator := f.named? names

end BinaryOperator

namespace UnaryOperator

def names : List (String × UnaryOperator) :=
  [("Not", not), ("Minus", minus), ("IsNull", isNull), ("IsNotNull", isNotNull)]

def write : UnaryOperator → ω := f.ofNamed names

def read? : δ → Option UnaryOperator := f.named? names

end UnaryOperator

namespace SetOperator

def names : List (String × SetOperator) :=
  [("Union", union), ("Intersect", intersect), ("Except", except)]

def write : SetOperator → ω := f.ofNamed names

def read? : δ → Option SetOperator := f.named? names

end SetOperator

namespace JoinKind

def names : List (String × JoinKind) :=
  [("Inner", inner), ("Left", left), ("Right", right), ("Full", full), ("Cross", cross)]

def write : JoinKind → ω := f.ofNamed names

def read? : δ → Option JoinKind := f.named? names

end JoinKind

namespace SortDirection

def names : List (String × SortDirection) := [("Asc", asc), ("Desc", desc)]

def write : SortDirection → ω := f.ofNamed names

def read? : δ → Option SortDirection := f.named? names

end SortDirection

namespace NullsOrder

def names : List (String × NullsOrder) := [("First", first), ("Last", last)]

def write : NullsOrder → ω := f.ofNamed names

def read? : δ → Option NullsOrder := f.named? names

end NullsOrder

namespace FrameMode

def names : List (String × FrameMode) := [("Rows", rows), ("Range", range), ("Groups", groups)]

def write : FrameMode → ω := f.ofNamed names

def read? : δ → Option FrameMode := f.named? names

end FrameMode

namespace FrameBound

def write : FrameBound → ω
  | currentRow => f.constant "CurrentRow"
  | preceding n => f.wrapped "Preceding" (f.ofOption f.uint64 n)
  | following n => f.wrapped "Following" (f.ofOption f.uint64 n)

def read? (x : δ) : Option FrameBound :=
  match f.variant? x with
  | some ("CurrentRow", contents) => if f.isEmpty contents then some currentRow else none
  | some ("Preceding", some n) => (f.optionOf? f.uint64? n).map preceding
  | some ("Following", some n) => (f.optionOf? f.uint64? n).map following
  | _ => none

end FrameBound

namespace Frame

def write (frame : Frame) : ω :=
  f.record [("mode", frame.mode.write f), ("start", frame.start.write f),
    ("end", f.ofOption (FrameBound.write f) frame.stop)]

def read? (x : δ) : Option Frame := do
  let [mode, start, stop] ← f.record? ["mode", "start", "end"] x | none
  let mode ← Format.required (FrameMode.read? f) mode
  let start ← Format.required (FrameBound.read? f) start
  let stop ← f.optional (FrameBound.read? f) stop
  return ⟨mode, start, stop⟩

end Frame

namespace SqlType

/-- The names of the types other than the custom ones. -/
def names : List (String × SqlType) :=
  [("Boolean", boolean), ("Integer", integer), ("BigInt", bigInt), ("Real", real),
    ("Double", double), ("Text", text), ("Bytes", bytes), ("Date", date),
    ("Timestamp", timestamp), ("Uuid", uuid), ("Json", json)]

def write : SqlType → ω
  | custom name => f.wrapped "Custom" (f.text name)
  | type => f.ofNamed names type

def read? (x : δ) : Option SqlType :=
  match f.variant? x with
  | some ("Custom", some name) => (f.text? name).map custom
  | _ => f.named? names x

end SqlType

namespace Value

def write : Value → ω
  | null => f.constant "Null"
  | bool b => f.wrapped "Bool" (f.bool b)
  | int n => f.wrapped "Int" (f.int64 n)
  | float x => f.wrapped "Float" (f.binary64 x)
  | text s => f.wrapped "Text" (f.text s)

def read? (x : δ) : Option Value :=
  match f.variant? x with
  | some ("Null", contents) => if f.isEmpty contents then some null else none
  | some ("Bool", some b) => (f.bool? b).map bool
  | some ("Int", some n) => (f.int64? n).map int
  | some ("Float", some x) => (f.binary64? x).map float
  | some ("Text", some s) => (f.text? s).map text
  | _ => none

end Value

end SqlAlgebra
