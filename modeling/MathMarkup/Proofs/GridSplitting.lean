import MathMarkup.Tex.Grid

/-!
# How formulas are split into rows

The parts of a grid are its formulas with cell marks and row marks between them. `splitRows`
gives the rows that the formulas end up in. These are the rows as they are written, unless
a formula is a row mark itself or the last row has nothing in it.
-/

namespace MathMarkup.Tex.Grammar

open Grid

/-- The parts that a cell is read as. -/
def cellParts (cell : Node) : List Node :=
  if Grid.isEmptyCell cell then [] else [cell]

/-- The parts that a row is read as. -/
def rowParts (row : List Node) : List Node :=
  List.intercalate [.leaf .control "&"] (row.map cellParts)

/-- The parts that some rows are read as. -/
def gridParts (rows : List (List Node)) : List Node :=
  List.intercalate [.leaf .control "\\\\"] (rows.map rowParts)

/-- What becomes of a formula that is a cell of its own and no row mark. -/
def cellOf (formula : Node) : Node :=
  if isIgnored [] formula then cell [] else formula

/-- The rows that a row is broken into by the row marks among its formulas. The first of
them starts with the given cells. -/
def brokenRow : List Node → List Node → List (List Node)
  | done, [] => [done]
  | done, formula :: rest =>
    if isRowMark formula then (done ++ [cell []]) :: brokenRow [cell []] rest
    else brokenRow (done ++ [cellOf formula]) rest

/-- The row is a single cell of the given kind. -/
def isSingle (kind : Node → Bool) : List Node → Bool
  | [only] => kind only
  | _ => false

/-- The last of at least two rows is an empty cell. -/
def endsBlank (rows : List (List Node)) : Bool :=
  1 < rows.length && rows.getLast?.any (isSingle isEmptyCell)

/-- The rows that some rows of formulas are split into. A last row that is an empty cell
is dropped. -/
def splitRows (rows : List (List Node)) : List (List Node) :=
  let broken := rows.flatMap (brokenRow [])
  if endsBlank broken then broken.dropLast else broken

/-- The number of formulas that break their rows. -/
def rowBreaks (rows : List (List Node)) : Nat :=
  rows.flatten.countP isRowMark

/-- The node is no cell mark, and the empty cell is its only way to be empty. -/
structure IsFormula (node : Node) : Prop where
  noMark : isCellMark node = false
  plain : isEmptyCell node = true → node = cell []

section Splitting

theorem isRowMark_of_isIgnored {parts : List Node} {node : Node}
    (ignored : isIgnored parts node = true) : isRowMark node = false := by
  unfold isIgnored at ignored
  split at ignored
  · rfl
  · rfl
  · cases ignored

/-- A formula that breaks its row ends it, and another cell follows. -/
theorem endCell_foldl_formula {formula : Node} (isFormula : IsFormula formula) (draft : Draft)
    (fresh : draft.parts = []) :
    ((cellParts formula).foldl Draft.add draft).endCell =
      if isRowMark formula then
        { rows := draft.rows ++ [draft.row ++ [cell []]], row := [cell []] }
      else { rows := draft.rows, row := draft.row ++ [cellOf formula] } := by
  obtain ⟨rows, row, parts⟩ := draft
  cases fresh
  unfold cellParts
  cases empty : isEmptyCell formula with
  | true =>
    rw [isFormula.plain empty]
    rfl
  | false =>
    simp only [Bool.false_eq_true, if_false, List.foldl_cons, List.foldl_nil, Draft.add, cellOf]
    cases ignored : isIgnored [] formula with
    | true => simp [isRowMark_of_isIgnored ignored, Draft.endCell]
    | false =>
      cases isRowMark formula with
      | true => simp [Draft.endCell, Draft.endRow]
      | false => simp [isFormula.noMark, Draft.endCell, cell, Node.group]

theorem rows_endRow (draft : Draft) :
    draft.endRow.rows = draft.endCell.rows ++ [draft.endCell.row] := rfl

/-- The formulas of a row give the rows that it is broken into. -/
theorem endRow_foldl_rowParts {row : List Node} (nonempty : row ≠ [])
    (formulas : ∀ formula ∈ row, IsFormula formula) (draft : Draft) (fresh : draft.parts = []) :
    ((rowParts row).foldl Draft.add draft).endRow.rows =
      draft.rows ++ brokenRow draft.row row := by
  induction row generalizing draft with
  | nil => exact absurd rfl nonempty
  | cons first rest inductionHypothesis =>
    have closed := endCell_foldl_formula (formulas first (by simp)) draft fresh
    cases rest with
    | nil =>
      have single : rowParts [first] = cellParts first := by simp [rowParts, List.intercalate]
      rw [single, rows_endRow, closed]
      unfold brokenRow
      split <;> simp [brokenRow]
    | cons second others =>
      have split : rowParts (first :: second :: others) =
          cellParts first ++ .leaf .control "&" :: rowParts (second :: others) := by
        simp [rowParts, List.intercalate]
      have marked (before : Draft) : before.add (.leaf .control "&") = before.endCell := rfl
      rw [split, List.foldl_append, List.foldl_cons, marked, closed, brokenRow]
      have onward := inductionHypothesis (by simp) fun formula member =>
        formulas formula (List.mem_cons_of_mem _ member)
      split
      · rw [onward _ rfl, List.append_assoc]
        rfl
      · exact onward _ rfl

/-- The formulas of some rows give the rows that these are broken into. -/
theorem endRow_foldl_gridParts {rows : List (List Node)} (nonempty : rows ≠ [])
    (filled : ∀ row ∈ rows, row ≠ []) (formulas : ∀ row ∈ rows, ∀ formula ∈ row, IsFormula formula)
    (done : List (List Node)) :
    ((gridParts rows).foldl Draft.add { rows := done }).endRow.rows =
      done ++ rows.flatMap (brokenRow []) := by
  induction rows generalizing done with
  | nil => exact absurd rfl nonempty
  | cons first rest inductionHypothesis =>
    have closed := endRow_foldl_rowParts (filled first (by simp)) (formulas first (by simp))
      { rows := done } rfl
    cases rest with
    | nil => simpa [gridParts, List.intercalate] using closed
    | cons second others =>
      have split : gridParts (first :: second :: others) =
          rowParts first ++ .leaf .control "\\\\" :: gridParts (second :: others) := by
        simp [gridParts, List.intercalate]
      have marked (before : Draft) : before.add (.leaf .control "\\\\") =
          { rows := before.endRow.rows } := rfl
      rw [split, List.foldl_append, List.foldl_cons, marked, closed,
        inductionHypothesis (by simp) (fun row member => filled row (List.mem_cons_of_mem _ member))
          fun row member => formulas row (List.mem_cons_of_mem _ member)]
      simp

theorem isSingle_iff {kind : Node → Bool} {row : List Node} :
    isSingle kind row = true ↔ ∃ only, row = [only] ∧ kind only = true := by
  match row with
  | [] => simp [isSingle]
  | [only] => simp [isSingle]
  | first :: second :: rest => simp [isSingle]

theorem endsBlank_concat (rows : List (List Node)) (row : List Node) :
    endsBlank (rows ++ [row]) = (!rows.isEmpty && isSingle isEmptyCell row) := by
  cases rows with
  | nil => simp [endsBlank]
  | cons first rest =>
    unfold endsBlank
    rw [List.getLast?_concat]
    simp

/-- All that is left to do at the end is to look at the last row. -/
theorem finish_eq (draft : Draft) :
    draft.finish =
      if endsBlank draft.endRow.rows then draft.endRow.rows.dropLast else draft.endRow.rows := by
  have closed : draft.endRow.rows = draft.rows ++ [draft.endCell.row] := rfl
  rw [closed, endsBlank_concat, List.dropLast_concat]
  unfold Draft.finish
  rw [closed]
  generalize draft.endCell.row = row
  match draft.rows, row with
  | [], row => simp
  | first :: rest, [] => simp [isSingle]
  | first :: rest, [only] => simp [isSingle]
  | first :: rest, only :: second :: others => simp [isSingle]

/-- The grid of some formulas is what they are split into. -/
theorem ofParts_eq_splitRows {rows : List (List Node)} (nonempty : rows ≠ [])
    (filled : ∀ row ∈ rows, row ≠ [])
    (formulas : ∀ row ∈ rows, ∀ formula ∈ row, IsFormula formula) :
    ofParts (gridParts rows) = splitRows rows := by
  have closed := endRow_foldl_gridParts nonempty filled formulas []
  unfold ofParts splitRows
  rw [finish_eq, closed, List.nil_append]

end Splitting

section Breaks

/-- A row without row marks is not broken. -/
theorem brokenRow_of_unbroken {row : List Node}
    (unbroken : ∀ formula ∈ row, ¬ isRowMark formula = true) (done : List Node) :
    brokenRow done row = [done ++ row.map cellOf] := by
  induction row generalizing done with
  | nil => simp [brokenRow]
  | cons formula rest inductionHypothesis =>
    rw [brokenRow, if_neg (unbroken formula List.mem_cons_self), inductionHypothesis
      fun other member => unbroken other (List.mem_cons_of_mem _ member)]
    simp

theorem rowBreaks_append (above below : List (List Node)) :
    rowBreaks (above ++ below) = rowBreaks above + rowBreaks below := by
  simp [rowBreaks]

theorem rowBreaks_cons (row : List Node) (below : List (List Node)) :
    rowBreaks (row :: below) = row.countP isRowMark + rowBreaks below := by
  simp [rowBreaks]

theorem flatMap_of_unbroken {rows : List (List Node)} (unbroken : rowBreaks rows = 0) :
    rows.flatMap (brokenRow []) = rows.map (List.map cellOf) := by
  induction rows with
  | nil => rfl
  | cons row rest inductionHypothesis =>
    rw [rowBreaks_cons] at unbroken
    rw [List.flatMap_cons, brokenRow_of_unbroken (List.countP_eq_zero.mp (by omega)),
      inductionHypothesis (by omega)]
    rfl

end Breaks

end MathMarkup.Tex.Grammar
