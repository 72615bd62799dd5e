import MathMarkup.Tex.Node

/-!
# Rows and cells of an environment

The parts of an environment are split into rows by the row mark and into cells by
the cell mark. Layout is dropped, except for the line break that ends a comment.
-/

namespace MathMarkup.Tex.Grid

/-- The mark that ends a row. -/
def isRowMark : Node → Bool
  | .leaf .control "\\\\" => true
  | _ => false

/-- The mark that ends a cell. -/
def isCellMark : Node → Bool
  | .leaf .control "&" => true
  | _ => false

/-- The parts of a cell as one node. An empty cell is a group without parts, unlike
an empty formula. -/
def cell : List Node → Node
  | [] => .ordgroup "" []
  | parts => .group parts

/-- The cell has nothing in it. -/
def isEmptyCell : Node → Bool
  | .ordgroup _ [] => true
  | _ => false

/-- The part is layout that means nothing after the given parts of the cell. -/
def isIgnored (parts : List Node) : Node → Bool
  | .leaf .whitespace _ => true
  | .leaf .newline _ =>
    match parts.getLast? with
    | some (.leaf .comment _) => false
    | _ => true
  | _ => false

/-- A grid under construction: the finished rows, the finished cells of the row at
hand and the parts of the cell at hand. -/
structure Draft where
  rows : List (List Node) := []
  row : List Node := []
  parts : List Node := []

namespace Draft

/-- Ends the cell at hand. -/
def endCell (draft : Draft) : Draft :=
  { draft with row := draft.row ++ [cell draft.parts], parts := [] }

/-- Ends the row at hand, with its last cell. -/
def endRow (draft : Draft) : Draft :=
  { rows := draft.rows ++ [draft.endCell.row] }

/-- Takes in the next part. -/
def add (draft : Draft) (part : Node) : Draft :=
  if isIgnored draft.parts part then draft
  else if isRowMark part then draft.endRow
  else if isCellMark part then draft.endCell
  else { draft with parts := draft.parts ++ [part] }

/-- The finished grid. A row mark at the very end does not open a row of its own. -/
def finish (draft : Draft) : List (List Node) :=
  match draft.rows, draft.endCell.row with
  | _ :: _, [only] => if isEmptyCell only then draft.rows else draft.endRow.rows
  | _, _ => draft.endRow.rows

end Draft

/-- The grid of the parts of an environment. -/
def ofParts (parts : List Node) : List (List Node) :=
  (parts.foldl Draft.add {}).finish

end MathMarkup.Tex.Grid
