import MathMarkup.Data.Checked
import MathMarkup.Typst.Node

/-!
# Pieces of output

A tree is written as a list of pieces, before it is decided where a space goes
between two of them. `Node.pieces` lists the pieces of a tree.
-/

namespace MathMarkup.Typst

/-- What a piece of output is. -/
inductive PieceKind where
  | atom
  | symbol
  | text
  | softSpace
  | comment
  | newline
  /-- A kind that nothing can be written for. -/
  | foreign (name : String)
deriving DecidableEq, Repr

/-- A piece of output: its kind and its text. -/
structure Piece where
  kind : PieceKind
  content : String := ""
deriving DecidableEq, Repr

namespace PieceKind

/-- The word that names a kind. -/
def word : PieceKind → String
  | atom => "atom"
  | symbol => "symbol"
  | text => "text"
  | softSpace => "softSpace"
  | comment => "comment"
  | newline => "newline"
  | foreign name => name

/-- The kinds that can be written. -/
def writable : List PieceKind := [atom, symbol, text, softSpace, comment, newline]

/-- The kind that a word names. -/
def ofWord (name : String) : PieceKind :=
  (writable.find? fun kind => kind.word == name).getD (foreign name)

/-- A kind that can be written is found by its own word. -/
theorem ofWord_word {kind : PieceKind} (written : kind ∈ writable) : ofWord kind.word = kind := by
  simp only [writable, List.mem_cons, List.not_mem_nil, or_false] at written
  rcases written with rfl | rfl | rfl | rfl | rfl | rfl <;> decide

end PieceKind

namespace Piece

/-- A sign that belongs to the notation. -/
abbrev atom (content : String) : Piece := ⟨.atom, content⟩

/-- A symbol. -/
abbrev symbol (content : String) : Piece := ⟨.symbol, content⟩

/-- The piece that a value stands for. -/
def ofValue : Data.Value → Data.Checked Piece
  | .object fields =>
    (Data.Checked.both
      (Data.Checked.required "kind" ((fields.lookup "kind").map fun
        | .str word =>
          match PieceKind.ofWord word with
          | .foreign _ => .fault .unknownWord
          | kind => .ok kind
        | _ => .fault .unknownWord))
      (Data.Checked.optional "content" ""
        ((fields.lookup "content").map Data.Checked.string))).map
      fun (kind, content) => ⟨kind, content⟩
  | _ => .fault .notRecord

/-- The piece as a value. -/
def toValue (piece : Piece) : Data.Value :=
  .object [("kind", .str piece.kind.word), ("content", .str piece.content)]

end Piece

/-- Pairs of signs that enclose what stands between them. -/
def brackets : List (String × String) :=
  [("(", ")"), ("[", "]"), ("\x7b", "\x7d"), ("⌊", "⌋"), ("⌈", "⌉")]

/-- The sign of a prime. -/
def primeSign : String := "'"

namespace Node

/-- The node is a prime. -/
def isPrime : Node → Bool
  | leaf .symbol content => content == primeSign
  | _ => false

/-- The node is a group without parts. -/
def isEmptyGroup : Node → Bool
  | group _ [] => true
  | _ => false

/-- The node is a group of three parts of which the outer two are a pair of brackets. -/
def isBracketed : Node → Bool
  | group _ [leaf .symbol opening, _, leaf .symbol closing] =>
    brackets.lookup opening == some closing
  | _ => false

/-- The node is one item as a script, so that it needs no parentheses. -/
def isSingle : Node → Bool
  | leaf kind _ => kind == .symbol || kind == .text || kind == .unknown
  | unaryFunc _ _ | binaryFunc _ _ _ | matrix _ _ _ => true
  | _ => false

/-- The number of primes that a list of nodes starts with. -/
def leadingPrimes (nodes : List Node) : Nat :=
  (nodes.takeWhile isPrime).length

/-- The primes that a superscript starts with, and what is left of it. -/
def splitPrimes : Option Node → Nat × Option Node
  | none => (0, none)
  | some (group content args) =>
    match leadingPrimes args, args.drop (leadingPrimes args) with
    | 0, _ => (0, some (group content args))
    | count, [] => (count, none)
    | count, [only] => (count, some only)
    | count, rest => (count, some (group "" rest))
  | some node => if node.isPrime then (1, none) else (0, some node)

/-- The number of cells at the start of a row that are not written: its empty groups,
if the row has more than one cell. -/
def unwrittenCells (row : List Node) : Nat :=
  match row with
  | _ :: _ :: _ => (row.takeWhile isEmptyGroup).length
  | _ => 0

end Node

/-- The pieces in parentheses. -/
def parenthesized (pieces : List Piece) : List Piece :=
  .atom "(" :: pieces ++ [.atom ")"]

/-- The pieces of a node, in parentheses unless the node is one item. -/
def asItem (node : Node) (pieces : List Piece) : List Piece :=
  if node.isSingle then pieces else parenthesized pieces

/-- The pieces of a base. Brackets of its own are enough. -/
def asBase (node : Node) (pieces : List Piece) : List Piece :=
  if node.isBracketed then pieces else asItem node pieces

/-- The pieces of a leaf. Inside a call a comma or semicolon is spelled out, so that it
does not separate arguments. -/
def leafPieces (inCall : Bool) (kind : LeafKind) (content : String) : List Piece :=
  match kind with
  | .empty => []
  | .symbol =>
    match inCall, content with
    | true, "," => [.symbol "comma"]
    | true, ";" => [.symbol "semi"]
    | _, _ => [.symbol content]
  | .unknown => [.symbol content]
  | .text => [⟨.text, content⟩]
  | .comment => [⟨.comment, content⟩]
  | .newline => [⟨.newline, content⟩]
  | .softSpace => [⟨.softSpace, ""⟩]

/-- The pieces of a script after its mark; none if there is no script. -/
def scriptPieces (mark : String) (script : Option Node) (pieces : List Piece) : List Piece :=
  match script with
  | none => []
  | some node => .atom mark :: asItem node pieces

/-- The pieces of a base with scripts. Primes go before the subscript. After a script
that is one item a word needs a space. -/
def scriptedPieces (base : List Piece) (sup sub : Option Node)
    (supPieces subPieces : List Piece) : List Piece :=
  let (primes, rest) := Node.splitPrimes sup
  let endsInItem := ((rest <|> sub).map Node.isSingle).getD false
  base ++ List.replicate primes (.atom primeSign)
    ++ scriptPieces "_" sub subPieces ++ scriptPieces "^" rest supPieces
    ++ if endsInItem then [⟨.softSpace, ""⟩] else []

/-- The pieces of a call. -/
def callPieces (name : String) (args : List (List Piece)) : List Piece :=
  .symbol name :: parenthesized (List.intercalate [.atom ","] args)

/-- The pieces of aligned rows. -/
def alignPieces (rows : List (List (List Piece))) : List Piece :=
  List.intercalate [.symbol "\\"] (rows.map (List.intercalate [.atom "&"]))

/-- The signs between the rows and between the cells of a call with rows. -/
def GridCall.separators : GridCall → String × String
  | .mat => (";", ",")
  | .cases => (",", "&")

/-- The pieces of a call with rows. -/
def gridPieces (call : GridCall) (delimiter : Option String) (rows : List (List Node))
    (cells : List (List (List Piece))) : List Piece :=
  let (rowSign, cellSign) := call.separators
  let written := List.zipWith (fun row cells =>
    List.intercalate [.atom cellSign] (cells.drop (Node.unwrittenCells row))) rows cells
  let setting := delimiter.toList.map fun sign => Piece.symbol ("delim: " ++ sign ++ ", ")
  .symbol call.word :: parenthesized (setting ++ List.intercalate [.atom rowSign] written)

namespace Node

mutual

/-- The pieces of a tree. Whether it stands in a call decides how its signs are spelled. -/
def pieces (inCall : Bool) : Node → List Piece
  | leaf kind content => leafPieces inCall kind content
  | group _ args => (piecesOfEach inCall args).flatten
  | supsub _ base sup sub =>
    scriptedPieces (asBase base (pieces inCall base)) sup sub
      (piecesAfterPrimes inCall sup) (piecesOfOptional inCall sub)
  | unaryFunc name arg => callPieces name [pieces true arg]
  | binaryFunc name first second => callPieces name [pieces true first, pieces true second]
  | align _ rows => alignPieces (piecesOfRows inCall rows)
  | matrix call delimiter rows => gridPieces call delimiter rows (piecesOfRows true rows)

/-- The pieces of what follows the primes that a superscript starts with. -/
def piecesAfterPrimes (inCall : Bool) : Option Node → List Piece
  | none => []
  | some (group _ args) => ((piecesOfEach inCall args).drop (leadingPrimes args)).flatten
  | some node => pieces inCall node

/-- The pieces of a tree that may be absent. -/
def piecesOfOptional (inCall : Bool) : Option Node → List Piece
  | none => []
  | some node => pieces inCall node

/-- The pieces of each of some trees. -/
def piecesOfEach (inCall : Bool) : List Node → List (List Piece)
  | [] => []
  | node :: rest => pieces inCall node :: piecesOfEach inCall rest

/-- The pieces of each cell of some rows. -/
def piecesOfRows (inCall : Bool) : List (List Node) → List (List (List Piece))
  | [] => []
  | row :: rest => piecesOfEach inCall row :: piecesOfRows inCall rest

end

end Node
end MathMarkup.Typst
