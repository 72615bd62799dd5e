import MathMarkup.Data.Tree
import MathMarkup.Typst.Node

/-!
# Typst trees as data

`Node.toValue` writes a tree with all its fields and `Node.ofValue` reads one, where
fields that have a default may be absent and unknown fields are passed over.
-/

namespace MathMarkup.Typst

open Data
open Data.Tree

/-- The text of a leaf that does not give one. -/
def LeafKind.defaultContent? : LeafKind → Option String
  | .newline => some "\n"
  | .softSpace => some ""
  | .empty => some ""
  | _ => none

/-- The call that a value names. -/
def GridCall.ofValue : Value → Checked GridCall
  | .str name =>
    match GridCall.ofWord? name with
    | some call => .ok call
    | none => .fault .unknownWord
  | _ => .fault .unknownWord

namespace Node

/-- Puts a Typst node together from its fields. -/
def assemble (record : Record Node) : Checked Node :=
  record.byTag fun word =>
    match LeafKind.ofWord? word with
    | some kind => some ((record.content kind.defaultContent?).map (.leaf kind))
    | none =>
      match word with
      | "group" => some <|
        (Checked.both (record.content (some "")) record.optionalArguments).map
          fun (content, args) => .group content args
      | "supsub" => some <|
        (Checked.both (record.content (some "")) <| Checked.both (record.requiredNode "base") <|
          Checked.both (record.optionalNode "sup") (record.optionalNode "sub")).map
          fun (content, base, sup, sub) => .supsub content base sup sub
      | "unaryFunc" => some do
        let (content, args) ← Checked.both (record.content none) record.requiredArguments
        let arg ← oneArgument content args
        return .unaryFunc content arg
      | "binaryFunc" => some do
        let (content, args) ← Checked.both (record.content none) record.requiredArguments
        let (first, second) ← twoArguments content args
        return .binaryFunc content first second
      | "align" => some <|
        (Checked.both (record.content (some "")) record.rows).map
          fun (content, rows) => .align content rows
      | "matrix" => some <|
        (Checked.both
          (Checked.optional "content" .mat
            ((record.field? "content").map fun field => GridCall.ofValue field.value)) <|
          Checked.both
            (Checked.optional "delim" none
              ((record.field? "delim").map fun field => Checked.stringOrNull field.value))
            record.rows).map
          fun (call, delimiter, rows) => .matrix call delimiter rows
      | _ => none

/-- The tree that a value stands for. -/
def ofValue (value : Value) : Checked Node :=
  readNode assemble value

mutual

/-- The tree as a value, with all its fields. -/
def toValue : Node → Value
  | leaf kind content => .object [("type", .str kind.word), ("content", .str content)]
  | group content args =>
    .object [("type", .str "group"), ("content", .str content), ("args", .list (toValues args))]
  | supsub content base sup sub =>
    .object [("type", .str "supsub"), ("content", .str content), ("base", base.toValue),
      ("sup", toOptionalValue sup), ("sub", toOptionalValue sub)]
  | unaryFunc name arg =>
    .object [("type", .str "unaryFunc"), ("content", .str name), ("args", .list [arg.toValue])]
  | binaryFunc name first second =>
    .object [("type", .str "binaryFunc"), ("content", .str name),
      ("args", .list [first.toValue, second.toValue])]
  | align content rows =>
    .object [("type", .str "align"), ("content", .str content), ("data", .list (toRowValues rows))]
  | matrix call delimiter rows =>
    .object [("type", .str "matrix"), ("content", .str call.word),
      ("delim", .ofOptionalString delimiter), ("data", .list (toRowValues rows))]

/-- A tree as a value, or null. -/
def toOptionalValue : Option Node → Value
  | none => .null
  | some node => node.toValue

/-- Trees as values. -/
def toValues : List Node → List Value
  | [] => []
  | node :: rest => node.toValue :: toValues rest

/-- Rows of trees as values. -/
def toRowValues : List (List Node) → List Value
  | [] => []
  | row :: rest => .list (toValues row) :: toRowValues rest

end

end Node
end MathMarkup.Typst
