/-!
# Syntax trees of Typst math

Like a TeX tree, a Typst tree has a text at every node. Groups, bases with scripts
and alignments carry one that is empty in the trees that come from a conversion.
-/

namespace MathMarkup.Typst

/-- What a leaf of a Typst tree is. -/
inductive LeafKind where
  | symbol
  | text
  | comment
  | newline
  | softSpace
  | unknown
  | empty
deriving DecidableEq, Repr

/-- The calls that take rows of cells. -/
inductive GridCall where
  | mat
  | cases
deriving DecidableEq, Repr

/-- A Typst formula or a part of one. -/
inductive Node where
  /-- A node without parts. -/
  | leaf (kind : LeafKind) (content : String)
  /-- Formulas side by side. -/
  | group (content : String) (args : List Node)
  /-- A base with its scripts. -/
  | supsub (content : String) (base : Node) (sup sub : Option Node)
  /-- A call with one argument. -/
  | unaryFunc (name : String) (arg : Node)
  /-- A call with two arguments. -/
  | binaryFunc (name : String) (first second : Node)
  /-- Aligned rows. -/
  | align (content : String) (rows : List (List Node))
  /-- A call with rows of cells, and its delimiter if one is set. -/
  | matrix (call : GridCall) (delimiter : Option String) (rows : List (List Node))
deriving Inhabited

namespace GridCall

/-- The name of the call. -/
def word : GridCall → String
  | mat => "mat"
  | cases => "cases"

/-- The call of the given name. -/
def ofWord? : String → Option GridCall
  | "mat" => some mat
  | "cases" => some cases
  | _ => none

/-- A call is found by its own name. -/
@[simp]
theorem ofWord?_word (call : GridCall) : ofWord? call.word = some call := by
  cases call <;> rfl

end GridCall

namespace LeafKind

/-- The word that names a kind of leaf in written data. -/
def word : LeafKind → String
  | symbol => "symbol"
  | text => "text"
  | comment => "comment"
  | newline => "newline"
  | softSpace => "softSpace"
  | unknown => "unknown"
  | empty => "empty"

/-- Every kind of leaf once. -/
def all : List LeafKind :=
  [symbol, text, comment, newline, softSpace, unknown, empty]

/-- The kind of leaf that a word names. -/
def ofWord? (name : String) : Option LeafKind :=
  all.find? fun kind => kind.word == name

/-- A kind of leaf is found by its own word. -/
@[simp]
theorem ofWord?_word (kind : LeafKind) : ofWord? kind.word = some kind := by
  cases kind <;> decide

end LeafKind

namespace Node

/-- A symbol as it is written. -/
abbrev symbol (content : String) : Node := .leaf .symbol content

/-- Upright text. -/
abbrev text (content : String) : Node := .leaf .text content

/-- The formula with nothing in it. -/
abbrev empty : Node := .leaf .empty ""

/-- The word that names the kind of the node in written data. -/
def word : Node → String
  | leaf kind _ => kind.word
  | group _ _ => "group"
  | supsub _ _ _ _ => "supsub"
  | unaryFunc _ _ => "unaryFunc"
  | binaryFunc _ _ _ => "binaryFunc"
  | align _ _ => "align"
  | matrix _ _ _ => "matrix"

end Node
end MathMarkup.Typst
