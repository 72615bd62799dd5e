/-!
# Syntax trees of TeX math

A formula is one tree. Every node has a text of its own: what a leaf is about, the
command of a call, the name of an environment. A group, a base with scripts and a
delimited expression carry a text too, which is empty in the trees that are read
from source.
-/

namespace MathMarkup.Tex

/-- What a leaf of a TeX tree is. -/
inductive LeafKind where
  | element
  | text
  | comment
  | whitespace
  | newline
  | control
  | symbol
  | empty
  | unknownMacro
deriving DecidableEq, Repr

/-- A TeX formula or a part of one. -/
inductive Node where
  /-- A node without parts. -/
  | leaf (kind : LeafKind) (content : String)
  /-- Formulas side by side. -/
  | ordgroup (content : String) (args : List Node)
  /-- A base with its scripts. -/
  | supsub (content : String) (base : Node) (sup sub : Option Node)
  /-- A command with one argument, and the index if it is a root that has one. -/
  | unaryFunc (command : String) (arg : Node) (index : Option Node)
  /-- A command with two arguments. -/
  | binaryFunc (command : String) (first second : Node)
  /-- A formula between delimiters. -/
  | leftright (content : String) (opening body closing : Node)
  /-- An environment: rows of cells. -/
  | beginend (name : String) (rows : List (List Node))
deriving Inhabited

namespace Node

/-- A sign, a letter or a number. -/
abbrev element (content : String) : Node := .leaf .element content

/-- Upright text. -/
abbrev text (content : String) : Node := .leaf .text content

/-- A command that stands for a symbol. -/
abbrev symbol (command : String) : Node := .leaf .symbol command

/-- The formula with nothing in it. -/
abbrev empty : Node := .leaf .empty ""

/-- Parts side by side as one formula. One part stays as it is. -/
def group : List Node → Node
  | [] => empty
  | [part] => part
  | parts => .ordgroup "" parts

/-- The text that belongs to the node itself. -/
def content : Node → String
  | leaf _ content | ordgroup content _ | supsub content _ _ _ | unaryFunc content _ _
  | binaryFunc content _ _ | leftright content _ _ _ | beginend content _ => content

end Node

namespace LeafKind

/-- The word that names a kind of leaf in written data. -/
def word : LeafKind → String
  | element => "element"
  | text => "text"
  | comment => "comment"
  | whitespace => "whitespace"
  | newline => "newline"
  | control => "control"
  | symbol => "symbol"
  | empty => "empty"
  | unknownMacro => "unknownMacro"

/-- Every kind of leaf once. -/
def all : List LeafKind :=
  [element, text, comment, whitespace, newline, control, symbol, empty, unknownMacro]

/-- The kind of leaf that a word names. -/
def ofWord? (name : String) : Option LeafKind :=
  all.find? fun kind => kind.word == name

/-- A kind of leaf is found by its own word. -/
@[simp]
theorem ofWord?_word (kind : LeafKind) : ofWord? kind.word = some kind := by
  cases kind <;> decide

end LeafKind

/-- The word that names the kind of the node in written data. -/
def Node.word : Node → String
  | leaf kind _ => kind.word
  | ordgroup _ _ => "ordgroup"
  | supsub _ _ _ _ => "supsub"
  | unaryFunc _ _ _ => "unaryFunc"
  | binaryFunc _ _ _ => "binaryFunc"
  | leftright _ _ _ _ => "leftright"
  | beginend _ _ => "beginend"

end MathMarkup.Tex
