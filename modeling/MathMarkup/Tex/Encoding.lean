import MathMarkup.Data.Tree
import MathMarkup.Tex.Node
import MathMarkup.Tex.Token

/-!
# TeX trees and tokens as data

`Node.toValue` writes a tree with all its fields and `Node.ofValue` reads one, where
fields that have a default may be absent and unknown fields are passed over.
-/

namespace MathMarkup.Tex

open Data
open Data.Tree

/-- The text of a leaf that does not give one. -/
def LeafKind.defaultContent? : LeafKind → Option String
  | .whitespace => some " "
  | .newline => some "\n"
  | .empty => some ""
  | _ => none

namespace Node

/-- Puts a TeX node together from its fields. -/
def assemble (record : Record Node) : Checked Node :=
  record.byTag fun word =>
    match LeafKind.ofWord? word with
    | some kind => some ((record.content kind.defaultContent?).map (.leaf kind))
    | none =>
      match word with
      | "ordgroup" => some <|
        (Checked.both (record.content (some "")) record.optionalArguments).map
          fun (content, args) => .ordgroup content args
      | "supsub" => some <|
        (Checked.both (record.content (some "")) <| Checked.both (record.requiredNode "base") <|
          Checked.both (record.optionalNode "sup") (record.optionalNode "sub")).map
          fun (content, base, sup, sub) => .supsub content base sup sub
      | "unaryFunc" => some do
        let (content, args, index) ← Checked.both (record.content none) <|
          Checked.both record.requiredArguments (record.optionalNode "data")
        let arg ← oneArgument content args
        return .unaryFunc content arg index
      | "binaryFunc" => some do
        let (content, args) ← Checked.both (record.content none) record.requiredArguments
        let (first, second) ← twoArguments content args
        return .binaryFunc content first second
      | "leftright" => some do
        let (content, args) ← Checked.both (record.content (some "")) record.requiredArguments
        let (opening, body, closing) ← threeArguments "leftright" args
        return .leftright content opening body closing
      | "beginend" => some <|
        (Checked.both (record.content none) record.rows).map
          fun (name, rows) => .beginend name rows
      | _ => none

/-- The tree that a value stands for. -/
def ofValue (value : Value) : Checked Node :=
  readNode assemble value

mutual

/-- The tree as a value, with all its fields. -/
def toValue : Node → Value
  | leaf kind content => .object [("type", .str kind.word), ("content", .str content)]
  | ordgroup content args =>
    .object [("type", .str "ordgroup"), ("content", .str content), ("args", .list (toValues args))]
  | supsub content base sup sub =>
    .object [("type", .str "supsub"), ("content", .str content), ("base", base.toValue),
      ("sup", toOptionalValue sup), ("sub", toOptionalValue sub)]
  | unaryFunc command arg index =>
    .object [("type", .str "unaryFunc"), ("content", .str command), ("args", .list [arg.toValue]),
      ("data", toOptionalValue index)]
  | binaryFunc command first second =>
    .object [("type", .str "binaryFunc"), ("content", .str command),
      ("args", .list [first.toValue, second.toValue])]
  | leftright content opening body closing =>
    .object [("type", .str "leftright"), ("content", .str content),
      ("args", .list [opening.toValue, body.toValue, closing.toValue])]
  | beginend name rows =>
    .object [("type", .str "beginend"), ("content", .str name), ("data", .list (toRowValues rows))]

/-- A tree as a value, or null. -/
def toOptionalValue : Option Node → Value
  | none => .null
  | some node => node.toValue

/-- Trees as values. -/
def toValues : List Node → List Value
  | [] => []
  | node :: rest => node.toValue :: toValues rest

/-- Rows of trees as values. -/
def toRowValues : List (List Node) → List Value
  | [] => []
  | row :: rest => .list (toValues row) :: toRowValues rest

end

end Node

namespace Token

/-- The token that a value stands for. -/
def ofValue : Value → Checked Token
  | .object fields =>
    (Checked.both
      (Checked.required "type" ((fields.lookup "type").map fun
        | .str word =>
          match TokenKind.ofWord? word with
          | some kind => .ok kind
          | none => .fault .unknownWord
        | _ => .fault .unknownWord))
      (Checked.required "value" ((fields.lookup "value").map Checked.string))).map
      fun (kind, value) => ⟨kind, value⟩
  | _ => .fault .notRecord

/-- The token as a value. -/
def toValue (token : Token) : Value :=
  .object [("type", .str token.kind.word), ("value", .str token.value)]

end Token
end MathMarkup.Tex
