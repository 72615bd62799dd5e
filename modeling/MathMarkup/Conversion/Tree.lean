import MathMarkup.Conversion.ConvertError
import MathMarkup.Conversion.Spelling
import MathMarkup.Tex.Node
import MathMarkup.Typst.Node

/-!
# Conversion of trees

`convert` maps a TeX tree to the Typst tree with the same meaning, part by part and
from left to right. A command that is not known is an error, or is passed through
and noted. `convertAgain` does the same for a tree that is already Typst, as far as
the two languages share its kinds of nodes.
-/

namespace MathMarkup.Conversion

/-- What a conversion is free to choose. -/
structure Settings where
  /-- Commands that are not known are passed through. -/
  passUnknown : Bool := false
  /-- An operator that Typst has a symbol for is written as that symbol. -/
  preferIntrinsic : Bool := true
  /-- The spelling of the symbols. -/
  symbols : Symbol.Table := Symbol.standard

/-- A conversion fails at a node, and notes the commands that it passes through. -/
abbrev Converter (Source : Type) := EStateM (ConvertError Source) (List String)

/-- Operators that Typst has a symbol for. -/
def intrinsicOperators : List String := ["dim", "id", "im", "mod", "Pr", "sech", "csch"]

/-- Pairs of delimiters that grow with what is between them. -/
def growingPairs : List String :=
  ["()", "[]", "\\\x7b\\\x7d", "\\lfloor\\rfloor", "\\lceil\\rceil"]

/-- The delimiters of the matrix environments. -/
def matrixDelimiters : List (String × String) :=
  [("matrix", "#none"), ("smallmatrix", "#none"), ("array", "#none"), ("pmatrix", "\"(\""),
   ("bmatrix", "\"[\""), ("Bmatrix", "\"\x7b\""), ("vmatrix", "\"|\""), ("Vmatrix", "\"||\"")]

section Parts

variable {Source : Type} (settings : Settings)

/-- A command that is not known. -/
def unknownMacro (command : String) (node : Source) : Converter Source Typst.Node := do
  if settings.passUnknown then
    modify (· ++ [command])
    return .leaf .unknown (spell settings.symbols command)
  else
    throw (.unknownMacro command node)

/-- A control token: a line break or a thin space. -/
def controlToken (content : String) (node : Source) : Converter Source Typst.Node :=
  match content with
  | "\\\\" => return .symbol "\\"
  | "\\," => return .symbol "thin"
  | _ => throw (.unknownControl content node)

/-- A leaf. -/
def leaf (kind : Tex.LeafKind) (content : String) (node : Source) :
    Converter Source Typst.Node :=
  match kind with
  | .empty | .whitespace => return .empty
  | .element | .symbol => return .symbol (spell settings.symbols content)
  | .text => return .text content
  | .comment => return .leaf .comment content
  | .newline => return .leaf .newline "\n"
  | .unknownMacro => unknownMacro settings content node
  | .control => controlToken content node

/-- The name of an operator. Only text can be one. -/
def operatorName (text : Option String) (node : Source) : Converter Source Typst.Node :=
  match text with
  | some name =>
    if settings.preferIntrinsic && intrinsicOperators.contains name then
      return .symbol name
    else
      return .unaryFunc "op" (.text name)
  | none =>
    if settings.passUnknown then return .leaf .unknown "operatorname"
    else throw (.operatorWithoutText node)

/-- A capital letter, doubled: the way Typst spells it in blackboard style. -/
def doubledCapital? (content : String) : Option String :=
  match content.toList with
  | [letter] => if letter.isUpper then some (String.ofList [letter, letter]) else none
  | _ => none

/-- The text of an argument, as far as the call around it looks at it. -/
inductive ArgumentText where
  | element (content : String)
  | text (content : String)
  | neither

/-- A command with one argument. The argument is converted unless the call depends on
its text alone. -/
def unaryCall (command : String) (text : ArgumentText)
    (argument : Converter Source Typst.Node) (index : Converter Source (Option Typst.Node))
    (node : Source) : Converter Source Typst.Node := do
  match command, text with
  | "\\operatorname", .text name => operatorName settings (some name) node
  | "\\operatorname", _ => operatorName settings none node
  | "\\mathbf", _ => return .unaryFunc "upright" (.unaryFunc "bold" (← argument))
  | "\\mathbb", .element content =>
    match doubledCapital? content with
    | some doubled => return .symbol doubled
    | none => return .unaryFunc (spell settings.symbols command) (← argument)
  | "\\sqrt", _ =>
    match ← index with
    | some degree => return .binaryFunc "root" degree (← argument)
    | none => return .unaryFunc (spell settings.symbols command) (← argument)
  | _, _ => return .unaryFunc (spell settings.symbols command) (← argument)

/-- A base with scripts. -/
def scripted (base : Converter Source Typst.Node)
    (sup sub : Converter Source (Option Typst.Node)) : Converter Source Typst.Node := do
  let base ← base
  let sup ← sup
  let sub ← sub
  return .supsub "" base sup sub

/-- A brace with a label is one call; a script on the other side stays a script. -/
def overbrace (body label : Converter Source Typst.Node)
    (sub : Converter Source (Option Typst.Node)) : Converter Source Typst.Node := do
  let brace := Typst.Node.binaryFunc "overbrace" (← body) (← label)
  match ← sub with
  | none => return brace
  | some below => return .supsub "" brace none (some below)

/-- The brace on the other side. -/
def underbrace (body label : Converter Source Typst.Node)
    (sup : Converter Source (Option Typst.Node)) : Converter Source Typst.Node := do
  let brace := Typst.Node.binaryFunc "underbrace" (← body) (← label)
  match ← sup with
  | none => return brace
  | some above => return .supsub "" brace (some above) none

/-- A delimiter; a point stands for none. -/
def delimiter (content : String) (node : Converter Source Typst.Node) :
    Converter Source Typst.Node :=
  if content = "." then return .empty else node

/-- An environment of converted rows. -/
def environment (name : String) (rows : List (List Typst.Node)) : Typst.Node :=
  if "align".toList.isPrefixOf name.toList then .align "" rows
  else if name = "cases" then .matrix .cases none rows
  else .matrix .mat (some ((matrixDelimiters.lookup name).getD "#none")) rows

end Parts

/-- What a call sees of the text of its argument. -/
def argumentText : Tex.Node → ArgumentText
  | .leaf .element content => .element content
  | .leaf .text content => .text content
  | _ => .neither

mutual

/-- The Typst tree of a TeX tree. -/
def convert (settings : Settings) : Tex.Node → Converter Tex.Node Typst.Node
  | .leaf kind content => leaf settings kind content (.leaf kind content)
  | .ordgroup _ args => return .group "" (← convertAll settings args)
  | .supsub _ base sup sub =>
    let plain := convert settings base
    let above := convertOptional settings sup
    let below := convertOptional settings sub
    match base with
    | .leaf .empty _ => scripted (pure (.text "")) above below
    | .unaryFunc command arg _ =>
      match command, sup, sub with
      | "\\overbrace", some label, _ =>
        overbrace (convert settings arg) (convert settings label) below
      | "\\underbrace", _, some label =>
        underbrace (convert settings arg) (convert settings label) above
      | _, _, _ => scripted plain above below
    | _ => scripted plain above below
  | .unaryFunc command arg index =>
    unaryCall settings command (argumentText arg) (convert settings arg)
      (convertOptional settings index) (.unaryFunc command arg index)
  | .binaryFunc command first second => do
    let first ← convert settings first
    let second ← convert settings second
    return .binaryFunc (spell settings.symbols command) first second
  | .leftright _ opening body closing => do
    let left ← delimiter opening.content (convert settings opening)
    let inner ← convert settings body
    let right ← delimiter closing.content (convert settings closing)
    let group := Typst.Node.group "" [left, inner, right]
    if growingPairs.contains (opening.content ++ closing.content) then return group
    else return .unaryFunc "lr" group
  | .beginend name rows => return environment name (← convertRows settings rows)

/-- The Typst tree of a TeX tree that may be absent. -/
def convertOptional (settings : Settings) :
    Option Tex.Node → Converter Tex.Node (Option Typst.Node)
  | none => return none
  | some node => return some (← convert settings node)

/-- The Typst trees of TeX trees. -/
def convertAll (settings : Settings) : List Tex.Node → Converter Tex.Node (List Typst.Node)
  | [] => return []
  | node :: rest => return (← convert settings node) :: (← convertAll settings rest)

/-- The rows of Typst trees of rows of TeX trees. -/
def convertRows (settings : Settings) :
    List (List Tex.Node) → Converter Tex.Node (List (List Typst.Node))
  | [] => return []
  | row :: rest => return (← convertAll settings row) :: (← convertRows settings rest)

end

/-- What a call sees of the text of an argument that is already Typst. -/
def convertedArgumentText : Typst.Node → ArgumentText
  | .leaf .text content => .text content
  | _ => .neither

mutual

/-- A Typst tree converted as if its nodes were TeX nodes of the same kinds. A kind that
only Typst has is refused. -/
def convertAgain (settings : Settings) : Typst.Node → Converter Typst.Node Typst.Node
  | .leaf kind content =>
    let node := Typst.Node.leaf kind content
    match kind with
    | .symbol => leaf settings .symbol content node
    | .text => leaf settings .text content node
    | .comment => leaf settings .comment content node
    | .newline => leaf settings .newline content node
    | .empty => leaf settings .empty content node
    | .softSpace | .unknown => throw (.unsupportedKind kind.word node)
  | .supsub _ base sup sub =>
    let plain := convertAgain settings base
    let above := convertAgainOptional settings sup
    let below := convertAgainOptional settings sub
    match base with
    | .leaf .empty _ => scripted (pure (.text "")) above below
    | .unaryFunc name arg =>
      match name, sup, sub with
      | "\\overbrace", some label, _ =>
        overbrace (convertAgain settings arg) (convertAgain settings label) below
      | "\\underbrace", _, some label =>
        underbrace (convertAgain settings arg) (convertAgain settings label) above
      | _, _, _ => scripted plain above below
    | _ => scripted plain above below
  | .unaryFunc name arg =>
    unaryCall settings name (convertedArgumentText arg) (convertAgain settings arg) (pure none)
      (.unaryFunc name arg)
  | .binaryFunc name first second => do
    let first ← convertAgain settings first
    let second ← convertAgain settings second
    return .binaryFunc (spell settings.symbols name) first second
  | .group content args => throw (.unsupportedKind "group" (.group content args))
  | .align content rows => throw (.unsupportedKind "align" (.align content rows))
  | .matrix call delimiter rows =>
    throw (.unsupportedKind "matrix" (.matrix call delimiter rows))

/-- A Typst tree that may be absent, converted again. -/
def convertAgainOptional (settings : Settings) :
    Option Typst.Node → Converter Typst.Node (Option Typst.Node)
  | none => return none
  | some node => return some (← convertAgain settings node)

end

end MathMarkup.Conversion
