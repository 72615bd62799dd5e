import MathMarkup.Proofs.Outline

/-!
# Rows of a matrix

The cells of a row are written with a separator between any two of them. An empty group in
front of the first separator is no cell of its own and is left out. So are the empty groups
that follow it, and then the cells behind them stand in other columns than those of the rows
above and below.
-/

namespace MathMarkup.Typst

namespace Node

/-- The row has more than one cell, and the first one is an empty group. -/
def startsEmpty : List Node → Bool
  | first :: _ :: _ => first.isEmptyGroup
  | _ => false

/-- The first two cells of the row are empty groups. -/
def startsEmptyTwice : List Node → Bool
  | first :: second :: _ => first.isEmptyGroup && second.isEmptyGroup
  | _ => false

/-- In a row of more than one cell no empty group is written before the first other cell. -/
theorem writtenCells_eq (row : List Node) :
    writtenCells row = if 1 < row.length then row.dropWhile isEmptyGroup else row := by
  have dropped : row.drop (row.takeWhile isEmptyGroup).length = row.dropWhile isEmptyGroup := by
    induction row with
    | nil => rfl
    | cons cell others inductionHypothesis =>
      cases isEmpty : cell.isEmptyGroup with
      | true => simpa [isEmpty] using inductionHypothesis
      | false => simp [isEmpty]
  match row with
  | [] => rfl
  | [cell] => rfl
  | first :: second :: rest =>
    rw [if_pos (by simp)]
    exact dropped

/-- More than one cell is left out exactly if the first two are empty groups. -/
theorem unwrittenCells_eq_iff (row : List Node) :
    unwrittenCells row = (startsEmpty row).toNat ↔ startsEmptyTwice row = false := by
  match row with
  | [] => simp [unwrittenCells, startsEmpty, startsEmptyTwice]
  | [cell] => simp [unwrittenCells, startsEmpty, startsEmptyTwice]
  | first :: second :: rest =>
    cases firstEmpty : first.isEmptyGroup with
    | false => simp [unwrittenCells, startsEmpty, startsEmptyTwice, firstEmpty]
    | true =>
      cases secondEmpty : second.isEmptyGroup with
      | false => simp [unwrittenCells, startsEmpty, startsEmptyTwice, firstEmpty, secondEmpty]
      | true => simp [unwrittenCells, startsEmpty, startsEmptyTwice, firstEmpty, secondEmpty]

theorem unwrittenCells_le (row : List Node) : unwrittenCells row ≤ row.length := by
  unfold unwrittenCells
  split
  · exact (List.takeWhile_prefix _).length_le
  · exact Nat.zero_le _

theorem startsEmpty_le (row : List Node) : (startsEmpty row).toNat ≤ row.length := by
  match row with
  | [] | [cell] => simp [startsEmpty]
  | first :: second :: rest =>
    have atMostOne := (startsEmpty (first :: second :: rest)).toNat_le
    simp only [List.length_cons]
    omega

/-- As many cells are written as there are, less the empty group at the start, exactly if
there is only one such group. -/
theorem length_writtenCells_iff (row : List Node) :
    (writtenCells row).length = row.length - (startsEmpty row).toNat ↔
      startsEmptyTwice row = false := by
  rw [← unwrittenCells_eq_iff, writtenCells, List.length_drop]
  have unwritten := unwrittenCells_le row
  have empty := startsEmpty_le row
  omega

/-- The written cells are the others in their order exactly if their number is right. -/
theorem writtenCells_eq_iff (row : List Node) :
    writtenCells row = row.drop (startsEmpty row).toNat ↔ startsEmptyTwice row = false := by
  constructor
  · intro same
    rw [← length_writtenCells_iff, same, List.length_drop]
  · intro once
    rw [writtenCells, (unwrittenCells_eq_iff row).mpr once]

end Node

section Rows

/-- The slot is the sign. -/
def Slot.isSign (piece : Piece) : Slot → Bool
  | sign other => other == piece
  | part _ _ => false

/-- The slots of the cells of one row. -/
def rowSlots (cellSign : Piece) (cells : List Node) : List Slot :=
  List.intercalate [.sign cellSign] (cells.map fun cell => [.part true cell])

theorem rowSlots_cons_cons (cellSign : Piece) (first second : Node) (others : List Node) :
    rowSlots cellSign (first :: second :: others) =
      .part true first :: .sign cellSign :: rowSlots cellSign (second :: others) := by
  simp only [rowSlots, List.map_cons, List.intercalate_cons_cons]
  rfl

/-- A row has one separator less than cells, if it has any. -/
theorem countP_rowSlots (cellSign : Piece) (cell : Node) (others : List Node) :
    (rowSlots cellSign (cell :: others)).countP (Slot.isSign cellSign) + 1 =
      (cell :: others).length := by
  induction others generalizing cell with
  | nil => simp [rowSlots, Slot.isSign]
  | cons next others inductionHypothesis =>
    rw [rowSlots_cons_cons, List.countP_cons_of_neg (by simp [Slot.isSign]),
      List.countP_cons_of_pos (by simp [Slot.isSign]), inductionHypothesis next]
    rfl

/-- What a row of a matrix is written as: its cells from the first one on that is no empty
group, if there is more than one. They are the cells without the empty group in front of the
first separator unless there are two of them. -/
structure RowWritten (cellSign : Piece) (row cells : List Node) (slots : List Slot) : Prop where
  slots_eq : slots = rowSlots cellSign cells
  separators : cells ≠ [] → slots.countP (Slot.isSign cellSign) + 1 = cells.length
  cells_eq : cells = if 1 < row.length then row.dropWhile Node.isEmptyGroup else row
  number_iff : cells.length = row.length - (Node.startsEmpty row).toNat ↔
    Node.startsEmptyTwice row = false
  order_iff : cells = row.drop (Node.startsEmpty row).toNat ↔ Node.startsEmptyTwice row = false

theorem rowWritten (cellSign : Piece) (row : List Node) :
    RowWritten cellSign row (Node.writtenCells row)
      (rowSlots cellSign (Node.writtenCells row)) where
  slots_eq := rfl
  separators := by
    intro nonempty
    obtain ⟨cell, others, isRow⟩ := List.exists_cons_of_ne_nil nonempty
    rw [isRow]
    exact countP_rowSlots cellSign cell others
  cells_eq := Node.writtenCells_eq row
  number_iff := Node.length_writtenCells_iff row
  order_iff := Node.writtenCells_eq_iff row

/-- A matrix is written row by row, and a row keeps its cells but for an empty group in front of
the first separator exactly if its first two cells are not both empty groups. -/
theorem matrix_rows_kept_iff (writer : Writer) (call : GridCall) (delimiter : Option String)
    (rows : List (List Node)) :
    ∃ slots : List (List Slot),
      (writer.append (.matrix call delimiter rows)).queue = writer.queue ++
        written (callSlots call.word ((settingPieces delimiter).map .sign ++
          List.intercalate [.sign (.atom call.separators.1)] slots)) ∧
      List.Forall₂ (fun row slots => ∃ cells, RowWritten (.atom call.separators.2) row cells slots)
        rows slots := by
  refine ⟨rows.map fun row => rowSlots (.atom call.separators.2) (Node.writtenCells row), ?_, ?_⟩
  · rw [Writer.queue_append, pieces_eq_written, Node.outline, gridSlots, List.map_map]
    rfl
  · rw [List.forall₂_map_right_iff]
    exact List.forall₂_same.mpr fun row _ => ⟨_, rowWritten _ row⟩

/-- Three cells of which the first two are empty groups. -/
def sparseRow : List Node := [.group "" [], .group "" [], .symbol "a"]

/-- Two of the three cells are to be written, but there is no separator in what is queued. -/
theorem second_empty_cell_left_out :
    sparseRow.length - (Node.startsEmpty sparseRow).toNat = 2 ∧
      (Writer.append (.matrix .mat none [sparseRow]) {}).queue =
        [.symbol "mat", .atom "(", .symbol "a", .atom ")"] ∧
      ∃ flushed, (Writer.append (.matrix .mat none [sparseRow]) {}).flush = (flushed, none) ∧
        flushed.buffer = "mat(a)" :=
  ⟨rfl, rfl, _, rfl, rfl⟩

end Rows

end MathMarkup.Typst
