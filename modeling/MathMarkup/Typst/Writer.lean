import MathMarkup.Tex.Node
import MathMarkup.Typst.Fence
import MathMarkup.Typst.Piece
import MathMarkup.Typst.Spacing

/-!
# Writing a tree

A writer collects the pieces of trees in a queue and writes them out with the space
that belongs between them. `write` is the whole way from a tree to its text.
-/

namespace MathMarkup.Typst

/-- What is written so far, what waits to be written, whether a script that is one item
was written last, and how many calls are open. -/
structure Writer where
  buffer : String := ""
  queue : List Piece := []
  afterItem : Bool := false
  openCalls : Nat := 0
deriving DecidableEq, Repr

/-- Why a writer stops. -/
inductive WriteError where
  /-- A piece of a kind that nothing can be written for. -/
  | unwritablePiece (piece : Piece)
  /-- A node of a kind that Typst does not have. -/
  | unwritableNode (node : Tex.Node)

namespace WriteError

/-- The sentence that reports the error. -/
def message : WriteError → String
  | unwritablePiece piece => s!"Unexpected output token to stringify: {piece.kind.word}"
  | unwritableNode node => s!"Unimplemented node type to append: {node.word}"

/-- The name of the class of errors that the error belongs to. -/
def label (_ : WriteError) : String := "TypstWriterError"

end WriteError

/-- The text inside quotes: a quote or a backslash has a backslash before it. -/
def escapeText (text : List Char) : List Char :=
  text.flatMap fun character =>
    if character = '\\' ∨ character = '"' then ['\\', character] else [character]

/-- The text that is written for a piece. A soft space is no text. -/
def Piece.rendered? (piece : Piece) : Option String :=
  match piece.kind with
  | .atom | .symbol => some piece.content
  | .text => some (String.ofList ('"' :: escapeText piece.content.toList ++ ['"']))
  | .comment => some ("//" ++ piece.content)
  | .newline => some "\n"
  | .softSpace => some ""
  | .foreign _ => none

namespace Writer

/-- Puts the pieces of a tree in the queue. -/
def append (node : Node) (writer : Writer) : Writer :=
  { writer with queue := writer.queue ++ node.pieces (writer.openCalls > 0) }

/-- A tree that waits to be written changes nothing of what is written. -/
@[simp]
theorem buffer_append (node : Node) (writer : Writer) :
    (writer.append node).buffer = writer.buffer := rfl

@[simp]
theorem queue_append (node : Node) (writer : Writer) :
    (writer.append node).queue = writer.queue ++ node.pieces (writer.openCalls > 0) := rfl

@[simp]
theorem afterItem_append (node : Node) (writer : Writer) :
    (writer.append node).afterItem = writer.afterItem := rfl

@[simp]
theorem openCalls_append (node : Node) (writer : Writer) :
    (writer.append node).openCalls = writer.openCalls := rfl

/-- Writes a text after the space that belongs before it. -/
def writeText (text : String) (writer : Writer) : Writer :=
  { writer with
    buffer := writer.buffer ++ Spacing.gap writer.afterItem writer.buffer text ++ text
    afterItem := false }

/-- Writes a piece. Nothing is written for an empty text. -/
def writePiece (piece : Piece) (writer : Writer) : Except WriteError Writer :=
  match piece.rendered? with
  | none => .error (.unwritablePiece piece)
  | some text =>
    let ready := if piece.kind = .softSpace then { writer with afterItem := true } else writer
    .ok (if text = "" then ready else ready.writeText text)

/-- Writes pieces until one cannot be written. The writer is returned as it is then. -/
def writePieces : List Piece → Writer → Writer × Option WriteError
  | [], writer => (writer, none)
  | piece :: rest, writer =>
    match writer.writePiece piece with
    | .ok next => writePieces rest next
    | .error cause => (writer, some cause)

/-- Pieces are written one list after the other. -/
theorem writePieces_append (first second : List Piece) (writer : Writer) :
    writer.writePieces (first ++ second) =
      match writer.writePieces first with
      | (written, none) => written.writePieces second
      | (stopped, some cause) => (stopped, some cause) := by
  induction first generalizing writer with
  | nil => rfl
  | cons piece rest inductionHypothesis =>
    simp only [List.cons_append, writePieces]
    cases writer.writePiece piece with
    | ok next => exact inductionHypothesis next
    | error cause => rfl

/-- Writes the queue. After an error the queue is still full. -/
def flush (writer : Writer) : Writer × Option WriteError :=
  match writer.writePieces writer.queue with
  | (written, none) => ({ written with queue := [] }, none)
  | (stopped, some cause) => (stopped, some cause)

/-- Writes the queue and replaces the fences in all that is written. -/
def finish (writer : Writer) : Writer × Option WriteError :=
  match writer.flush with
  | (written, none) =>
    ({ written with buffer := Fence.ceiling.apply (Fence.floor.apply written.buffer) }, none)
  | (stopped, some cause) => (stopped, some cause)

end Writer

/-- The text of a tree. -/
def write (node : Node) : Except WriteError String :=
  match (Writer.append node {}).finish with
  | (writer, none) => .ok writer.buffer
  | (_, some cause) => .error cause

end MathMarkup.Typst
