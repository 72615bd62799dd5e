import MathMarkup.Typst.Writer

/-!
# The pieces of a tree can be written

A writer stops only at a piece of a foreign kind, and no tree has one. So every tree
has a text.
-/

namespace MathMarkup.Typst

/-- Every one of the pieces can be written. -/
def Writable (pieces : List Piece) : Prop :=
  ∀ piece ∈ pieces, piece.rendered?.isSome = true

namespace Writable

theorem nil : Writable [] := by
  simp [Writable]

theorem cons {piece : Piece} {rest : List Piece} (rendered : piece.rendered?.isSome = true)
    (writable : Writable rest) : Writable (piece :: rest) := by
  simpa [Writable] using ⟨rendered, writable⟩

theorem append {first second : List Piece} (firstWritable : Writable first)
    (secondWritable : Writable second) : Writable (first ++ second) := by
  intro piece member
  rcases List.mem_append.mp member with inFirst | inSecond
  · exact firstWritable piece inFirst
  · exact secondWritable piece inSecond

theorem flatten {lists : List (List Piece)} (writable : ∀ pieces ∈ lists, Writable pieces) :
    Writable lists.flatten := by
  intro piece member
  obtain ⟨pieces, isList, inPieces⟩ := List.mem_flatten.mp member
  exact writable pieces isList piece inPieces

theorem intercalate {sign : Piece} {lists : List (List Piece)}
    (rendered : sign.rendered?.isSome = true) (writable : ∀ pieces ∈ lists, Writable pieces) :
    Writable (List.intercalate [sign] lists) := by
  induction lists with
  | nil => exact nil
  | cons first rest inductionHypothesis =>
    have firstWritable := writable first (by simp)
    have restWritable := inductionHypothesis fun pieces member =>
      writable pieces (List.mem_cons_of_mem _ member)
    cases rest with
    | nil => simpa [List.intercalate] using firstWritable
    | cons second others =>
      simpa [List.intercalate] using firstWritable.append (cons rendered restWritable)

theorem parenthesized {pieces : List Piece} (writable : Writable pieces) :
    Writable (parenthesized pieces) :=
  (cons rfl writable).append (cons rfl nil)

theorem asItem (node : Node) {pieces : List Piece} (writable : Writable pieces) :
    Writable (asItem node pieces) := by
  unfold Typst.asItem
  split
  · exact writable
  · exact writable.parenthesized

theorem asBase (node : Node) {pieces : List Piece} (writable : Writable pieces) :
    Writable (asBase node pieces) := by
  unfold Typst.asBase
  split
  · exact writable
  · exact writable.asItem node

theorem scriptPieces (mark : String) (script : Option Node) {pieces : List Piece}
    (writable : Writable pieces) : Writable (scriptPieces mark script pieces) := by
  cases script with
  | none => exact nil
  | some node => exact cons rfl (writable.asItem node)

theorem scriptedPieces {base supPieces subPieces : List Piece} (sup sub : Option Node)
    (baseWritable : Writable base) (supWritable : Writable supPieces)
    (subWritable : Writable subPieces) :
    Writable (scriptedPieces base sup sub supPieces subPieces) := by
  have primes (count : Nat) : Writable (List.replicate count (.atom primeSign)) := by
    intro piece member
    rw [List.eq_of_mem_replicate member]
    rfl
  have space (ends : Bool) : Writable (if ends then [⟨.softSpace, ""⟩] else []) := by
    cases ends
    · exact nil
    · exact cons rfl nil
  exact (((baseWritable.append (primes _)).append (subWritable.scriptPieces _ _)).append
    (supWritable.scriptPieces _ _)).append (space _)

theorem callPieces (name : String) {args : List (List Piece)}
    (writable : ∀ pieces ∈ args, Writable pieces) : Writable (callPieces name args) :=
  cons rfl (intercalate rfl writable).parenthesized

theorem alignPieces {rows : List (List (List Piece))}
    (writable : ∀ row ∈ rows, ∀ pieces ∈ row, Writable pieces) : Writable (alignPieces rows) := by
  refine intercalate rfl fun pieces member => ?_
  obtain ⟨row, isRow, rfl⟩ := List.mem_map.mp member
  exact intercalate rfl (writable row isRow)

theorem gridPieces (call : GridCall) (delimiter : Option String) (rows : List (List Node))
    {cells : List (List (List Piece))} (writable : ∀ row ∈ cells, ∀ pieces ∈ row, Writable pieces) :
    Writable (gridPieces call delimiter rows cells) := by
  have setting : Writable (delimiter.toList.map fun sign => .symbol ("delim: " ++ sign ++ ", ")) := by
    cases delimiter with
    | none => exact nil
    | some sign => exact cons rfl nil
  have rowsWritable : ∀ pieces ∈ List.zipWith (fun row cells =>
      List.intercalate [.atom call.separators.2] (cells.drop (Node.unwrittenCells row))) rows cells,
      Writable pieces := by
    intro pieces member
    rw [← List.map_uncurry_zip_eq_zipWith, List.mem_map] at member
    obtain ⟨⟨row, written⟩, isRow, rfl⟩ := member
    exact intercalate rfl fun cell isCell =>
      writable written (List.of_mem_zip isRow).2 cell (List.mem_of_mem_drop isCell)
  exact cons rfl (setting.append (intercalate rfl rowsWritable)).parenthesized

end Writable

theorem writable_leafPieces (inCall : Bool) (kind : LeafKind) (content : String) :
    Writable (leafPieces inCall kind content) := by
  cases kind with
  | symbol =>
    have one (content : String) : Writable [.symbol content] := .cons rfl .nil
    dsimp only [leafPieces]
    split <;> exact one _
  | empty => exact .nil
  | text | comment | newline | softSpace | unknown => exact .cons rfl .nil

mutual

/-- Every piece of a tree can be written. -/
theorem writable_pieces (inCall : Bool) : ∀ node : Node, Writable (node.pieces inCall)
  | .leaf kind content => by
    rw [Node.pieces]
    exact writable_leafPieces inCall kind content
  | .group _ args => by
    rw [Node.pieces]
    exact .flatten (writable_piecesOfEach inCall args)
  | .supsub _ base sup sub => by
    rw [Node.pieces]
    exact .scriptedPieces sup sub ((writable_pieces inCall base).asBase base)
      (writable_piecesAfterPrimes inCall sup) (writable_piecesOfOptional inCall sub)
  | .unaryFunc name arg => by
    rw [Node.pieces]
    exact .callPieces name (by simpa using writable_pieces true arg)
  | .binaryFunc name first second => by
    rw [Node.pieces]
    exact .callPieces name (by simpa using ⟨writable_pieces true first, writable_pieces true second⟩)
  | .align _ rows => by
    rw [Node.pieces]
    exact .alignPieces (writable_piecesOfRows inCall rows)
  | .matrix call delimiter rows => by
    rw [Node.pieces]
    exact .gridPieces call delimiter rows (writable_piecesOfRows true rows)

theorem writable_piecesAfterPrimes (inCall : Bool) :
    ∀ sup : Option Node, Writable (Node.piecesAfterPrimes inCall sup)
  | none => by
    rw [Node.piecesAfterPrimes]
    exact .nil
  | some (.group _ args) => by
    rw [Node.piecesAfterPrimes]
    exact .flatten fun pieces member =>
      writable_piecesOfEach inCall args pieces (List.mem_of_mem_drop member)
  | some (.leaf kind content) => writable_pieces inCall (.leaf kind content)
  | some (.supsub content base sup sub) => writable_pieces inCall (.supsub content base sup sub)
  | some (.unaryFunc name arg) => writable_pieces inCall (.unaryFunc name arg)
  | some (.binaryFunc name first second) => writable_pieces inCall (.binaryFunc name first second)
  | some (.align content rows) => writable_pieces inCall (.align content rows)
  | some (.matrix call delimiter rows) => writable_pieces inCall (.matrix call delimiter rows)

theorem writable_piecesOfOptional (inCall : Bool) :
    ∀ node : Option Node, Writable (Node.piecesOfOptional inCall node)
  | none => by
    rw [Node.piecesOfOptional]
    exact .nil
  | some node => by
    rw [Node.piecesOfOptional]
    exact writable_pieces inCall node

theorem writable_piecesOfEach (inCall : Bool) :
    ∀ nodes : List Node, ∀ pieces ∈ Node.piecesOfEach inCall nodes, Writable pieces
  | [] => by simp [Node.piecesOfEach]
  | node :: rest => by
    rw [Node.piecesOfEach]
    simpa using ⟨writable_pieces inCall node, writable_piecesOfEach inCall rest⟩

theorem writable_piecesOfRows (inCall : Bool) :
    ∀ rows : List (List Node), ∀ row ∈ Node.piecesOfRows inCall rows, ∀ pieces ∈ row,
      Writable pieces
  | [] => by simp [Node.piecesOfRows]
  | row :: rest => by
    rw [Node.piecesOfRows]
    simpa using ⟨writable_piecesOfEach inCall row, writable_piecesOfRows inCall rest⟩

end

/-- A writer does not stop at pieces that can be written. -/
theorem Writer.writePieces_of_writable {pieces : List Piece} (writable : Writable pieces)
    (writer : Writer) : ∃ written, writer.writePieces pieces = (written, none) := by
  induction pieces generalizing writer with
  | nil => exact ⟨writer, rfl⟩
  | cons piece rest inductionHypothesis =>
    obtain ⟨text, rendered⟩ := Option.isSome_iff_exists.mp (writable piece (by simp))
    have step : ∃ next, writer.writePiece piece = .ok next := by
      unfold writePiece
      rw [rendered]
      exact ⟨_, rfl⟩
    obtain ⟨next, written⟩ := step
    rw [writePieces, written]
    exact inductionHypothesis (fun other member => writable other (List.mem_cons_of_mem _ member)) next

/-- Every tree has a text. -/
theorem exists_write_eq_ok (node : Node) : ∃ text, write node = .ok text := by
  have writable : Writable (Writer.append node {}).queue := by
    simpa using writable_pieces _ node
  obtain ⟨written, same⟩ := Writer.writePieces_of_writable writable (Writer.append node {})
  unfold write Writer.finish Writer.flush
  rw [same]
  exact ⟨_, rfl⟩

end MathMarkup.Typst
