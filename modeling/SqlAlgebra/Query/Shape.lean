import SqlAlgebra.Query.Describe

/-!
# Shapes of queries

Which rows a query yields. A projection declares a shape and every other stage keeps that of its
source; a set operation has the shape of its left side, and a WITH that of its main query.
-/

namespace SqlAlgebra

/-- The row that a list of items makes: one field for each item. -/
def Shape.ofItems (name : Option String) (items : List SelectItem) : Shape :=
  .row name (items.map SelectItem.outputName)

/-- The shape of the rows of a query. -/
def Query.shape : Query → Shape
  | .table name => .table name
  | .insertInto .. | .update .. | .deleteFrom .. => .unit
  | .setOperation _ _ left _ => left.shape
  | .withCtes _ _ main => main.shape
  | .step _ (.select shape _) => shape
  | .step _ (.returning shape _) => shape
  | .step source _ => source.shape

end SqlAlgebra
