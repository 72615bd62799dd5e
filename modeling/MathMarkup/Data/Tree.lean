import MathMarkup.Data.Checked

/-!
# Trees in data

A tree is written as objects inside objects. A field of such an object can hold a
node, a list of nodes or rows of nodes; which of them it has to be depends on the
tag beside it. So each field is read in all three ways before the tag is looked at,
and the recursion follows the data.
-/

namespace MathMarkup.Data.Tree

/-- A field of a node, with what it gives as a node, as nodes and as rows of nodes. -/
structure Field (α : Type) where
  value : Value
  node : Checked α
  nodes : Checked (List α)
  rows : Checked (List (List α))

/-- The fields of a node. -/
abbrev Record (α : Type) := List (String × Field α)

mutual

/-- The node that a value stands for, given how a node is put together from its fields. -/
def readNode {α : Type} (assemble : Record α → Checked α) : Value → Checked α
  | .object fields => assemble (readFields assemble fields)
  | _ => .fault .notNode

/-- The fields of a node with all their readings. -/
def readFields {α : Type} (assemble : Record α → Checked α) :
    List (String × Value) → Record α
  | [] => []
  | (name, value) :: rest =>
    (name, { value
             node := readNode assemble value
             nodes := readNodes assemble value
             rows := readRows assemble value }) :: readFields assemble rest

/-- The nodes that a list stands for. -/
def readNodes {α : Type} (assemble : Record α → Checked α) : Value → Checked (List α)
  | .list items => readNodesFrom assemble 0 items
  | _ => .fault .notList

/-- The nodes that the items of a list stand for, from the given position on. -/
def readNodesFrom {α : Type} (assemble : Record α → Checked α) :
    Nat → List Value → Checked (List α)
  | _, [] => .ok []
  | position, item :: rest =>
    (Checked.both ((readNode assemble item).under (.index position))
      (readNodesFrom assemble (position + 1) rest)).map fun (node, nodes) => node :: nodes

/-- The rows of nodes that a list of lists stands for. -/
def readRows {α : Type} (assemble : Record α → Checked α) : Value → Checked (List (List α))
  | .list items => readRowsFrom assemble 0 items
  | _ => .fault .notList

/-- The rows that the items of a list stand for, from the given position on. -/
def readRowsFrom {α : Type} (assemble : Record α → Checked α) :
    Nat → List Value → Checked (List (List α))
  | _, [] => .ok []
  | position, item :: rest =>
    (Checked.both ((readNodes assemble item).under (.index position))
      (readRowsFrom assemble (position + 1) rest)).map fun (row, rows) => row :: rows

end

namespace Record

variable {α : Type} (record : Record α)

/-- The field of the given name. -/
def field? (name : String) : Option (Field α) :=
  record.lookup name

/-- The text of a node; without a default it has to be there. -/
def content (default : Option String) : Checked String :=
  let checked := (record.field? "content").map fun field => Checked.string field.value
  match default with
  | some value => Checked.optional "content" value checked
  | none => Checked.required "content" checked

/-- A node that has to be there. -/
def requiredNode (name : String) : Checked α :=
  Checked.required name ((record.field? name).map (·.node))

/-- A node that may be absent or null. -/
def optionalNode (name : String) : Checked (Option α) :=
  Checked.optional name none <| (record.field? name).map fun field =>
    match field.value with
    | .null => .ok none
    | _ => field.node.map some

/-- The arguments of a node, which have to be there. -/
def requiredArguments : Checked (List α) :=
  Checked.required "args" ((record.field? "args").map (·.nodes))

/-- The arguments of a node, none by default. -/
def optionalArguments : Checked (List α) :=
  Checked.optional "args" [] ((record.field? "args").map (·.nodes))

/-- The rows of a node, none by default. -/
def rows : Checked (List (List α)) :=
  Checked.optional "data" [] ((record.field? "data").map (·.rows))

/-- Puts a node together by its tag. The tag is a step of the path to its fields. -/
def byTag (rule? : String → Option (Checked α)) : Checked α :=
  match record.field? "type" with
  | none => .fault .noTag
  | some tag =>
    match tag.value with
    | .str word =>
      match rule? word with
      | some checked => checked.under (.key word)
      | none => .fault .unknownTag
    | _ => .fault .unknownTag

end Record

/-- One argument. -/
def oneArgument {α : Type} (subject : String) : List α → Checked α
  | [argument] => .ok argument
  | arguments => .fault (.arity subject 1 arguments.length)

/-- Two arguments. -/
def twoArguments {α : Type} (subject : String) : List α → Checked (α × α)
  | [first, second] => .ok (first, second)
  | arguments => .fault (.arity subject 2 arguments.length)

/-- Three arguments. -/
def threeArguments {α : Type} (subject : String) : List α → Checked (α × α × α)
  | [first, second, third] => .ok (first, second, third)
  | arguments => .fault (.arity subject 3 arguments.length)

end MathMarkup.Data.Tree
