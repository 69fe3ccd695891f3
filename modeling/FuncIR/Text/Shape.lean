/-!
# Shapes of data

A `Shape` is data as a printer sees it: numbers, texts, lists and records. A `Dialect` says how these are
spelled, and `Shape.render` lays a shape out with one item or field a line, the inner ones indented.
-/

namespace FuncIR.Text

/-- The name of a field, and the key under which JSON has it. -/
structure FieldLabel where
  name : String
  key : String
  deriving DecidableEq, Repr

/-- A record has one value for each of its labels. -/
inductive Shape where
  | number (value : Nat)
  | text (value : String)
  | list (items : List Shape)
  | record (name : String) (labels : List FieldLabel) (values : List Shape)

structure Dialect where
  /-- What each level of nesting puts in front of a line. -/
  indent : String
  /-- Whether a comma also follows the last item of a list or record. -/
  closingComma : Bool
  text : String → String
  /-- The line that opens a record of a given name. -/
  openRecord : String → String
  label : FieldLabel → String

namespace Dialect

/-- The lines of an item, followed by a comma: `more` says whether another item comes after it. -/
def withComma (dialect : Dialect) (more : Bool) : List String → List String
  | [] => []
  | [line] => [if more || dialect.closingComma then line ++ "," else line]
  | line :: lines => line :: dialect.withComma more lines

/-- The lines of all items, divided by commas and indented by one level. -/
def inner (dialect : Dialect) : List (List String) → List String
  | [] => []
  | item :: items =>
    (dialect.withComma (!items.isEmpty) item).map (dialect.indent ++ ·) ++ dialect.inner items

/-- The lines of a field: its label stands on the first line of its value. -/
def field (dialect : Dialect) (label : FieldLabel) : List String → List String
  | [] => []
  | line :: lines => (dialect.label label ++ ": " ++ line) :: lines

end Dialect

namespace Shape

mutual

/-- The lines of a shape. A list without items takes one line. -/
def lines (dialect : Dialect) : Shape → List String
  | .number value => [toString value]
  | .text value => [dialect.text value]
  | .list [] => ["[]"]
  | .list (item :: items) => "[" :: dialect.inner (linesOfAll dialect (item :: items)) ++ ["]"]
  | .record name labels values =>
    dialect.openRecord name ::
      dialect.inner (List.zipWith dialect.field labels (linesOfAll dialect values)) ++ ["\x7d"]

def linesOfAll (dialect : Dialect) : List Shape → List (List String)
  | [] => []
  | shape :: shapes => lines dialect shape :: linesOfAll dialect shapes

end

/-- The lines of a shape as one text, without a line feed at its end. -/
def render (dialect : Dialect) (shape : Shape) : String :=
  String.intercalate "\n" (shape.lines dialect)

end Shape

end FuncIR.Text
