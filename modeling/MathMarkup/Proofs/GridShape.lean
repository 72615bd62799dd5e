import MathMarkup.Proofs.BraceBalance
import MathMarkup.Proofs.Shape

/-!
# Which grids keep the shape of their source

Rows and cells are split by what their parts are read as, and braces around a single part
leave no trace. So a cell that holds a row mark breaks its row, and a last row that holds
nothing but layout is dropped. `KeepsShape` says when the grid has the rows and cells of
its source all the same.
-/

namespace MathMarkup.Tex.Grammar

open Grid

/-- The last of the rows is a single formula that is layout. -/
def endsInLayout (rows : List (List Node)) : Bool :=
  rows.getLast?.any (isSingle (isIgnored []))

/-- A grid of formulas is split as it is written if no formula breaks its row and no
last row is dropped. The two can also make up for each other: a row is broken at its end,
the rows below it have one cell each, and the last one is dropped. -/
def KeepsShape (rows : List (List Node)) : Prop :=
  (rowBreaks rows = 0 ∧ ¬ (1 < rows.length ∧ endsInLayout rows = true)) ∨
    (rowBreaks rows = 1 ∧ ∃ above row mark below, rows = above ++ (row ++ [mark]) :: below ∧
      isRowMark mark = true ∧ (∀ single ∈ below, single.length = 1) ∧
      (below = [] ∨ endsInLayout below = true))

section Lengths

/-- The first row mark ends the first of the rows that a row is broken into. -/
theorem brokenRow_append_mark {before after : List Node} {mark : Node}
    (unbroken : ∀ formula ∈ before, ¬ isRowMark formula = true) (isMark : isRowMark mark = true)
    (done : List Node) :
    brokenRow done (before ++ mark :: after) =
      (done ++ before.map cellOf ++ [cell []]) :: brokenRow [cell []] after := by
  induction before generalizing done with
  | nil => simp [brokenRow, isMark]
  | cons formula rest inductionHypothesis =>
    rw [List.cons_append, brokenRow, if_neg (unbroken formula List.mem_cons_self),
      inductionHypothesis fun other member => unbroken other (List.mem_cons_of_mem _ member)]
    simp

theorem length_brokenRow (done row : List Node) :
    (brokenRow done row).length = row.countP isRowMark + 1 := by
  induction row generalizing done with
  | nil => rfl
  | cons formula rest inductionHypothesis =>
    rw [brokenRow, List.countP_cons]
    split
    · rw [List.length_cons, inductionHypothesis]
    · rw [inductionHypothesis]

/-- Each row mark adds a row. -/
theorem length_flatMap_brokenRow (rows : List (List Node)) :
    (rows.flatMap (brokenRow [])).length = rows.length + rowBreaks rows := by
  induction rows with
  | nil => rfl
  | cons row rest inductionHypothesis =>
    rw [List.flatMap_cons, List.length_append, length_brokenRow, inductionHypothesis,
      rowBreaks_cons, List.length_cons]
    omega

/-- With a single row mark there is one row more than before. -/
theorem flatMap_of_broken {above below : List (List Node)} {before after : List Node} {mark : Node}
    (single : rowBreaks (above ++ (before ++ mark :: after) :: below) = 1)
    (isMark : isRowMark mark = true) :
    (above ++ (before ++ mark :: after) :: below).flatMap (brokenRow []) =
      above.map (List.map cellOf) ++ (before.map cellOf ++ [cell []]) ::
        (cell [] :: after.map cellOf) :: below.map (List.map cellOf) := by
  rw [rowBreaks_append, rowBreaks_cons, List.countP_append,
    List.countP_cons_of_pos isMark] at single
  have aboveUnbroken : rowBreaks above = 0 := by omega
  have belowUnbroken : rowBreaks below = 0 := by omega
  have beforeUnbroken : before.countP isRowMark = 0 := by omega
  have afterUnbroken : after.countP isRowMark = 0 := by omega
  rw [List.flatMap_append, List.flatMap_cons, flatMap_of_unbroken aboveUnbroken,
    flatMap_of_unbroken belowUnbroken,
    brokenRow_append_mark (List.countP_eq_zero.mp beforeUnbroken) isMark,
    brokenRow_of_unbroken (List.countP_eq_zero.mp afterUnbroken)]
  simp

/-- A cell is empty if and only if its formula is layout. -/
theorem isSingle_map_cellOf {row : List Node}
    (filled : ∀ formula ∈ row, isEmptyCell formula = false) :
    isSingle isEmptyCell (row.map cellOf) = isSingle (isIgnored []) row := by
  match row with
  | [] => rfl
  | [only] =>
    have notEmpty := filled only (by simp)
    cases ignored : isIgnored [] only with
    | true => simp [isSingle, cellOf, ignored, cell, isEmptyCell]
    | false => simp [isSingle, cellOf, ignored, notEmpty]
  | first :: second :: rest => rfl

/-- The last row of cells is empty if and only if the last row of formulas is layout. -/
theorem any_getLast?_map_cellOf {rows : List (List Node)}
    (filled : ∀ row ∈ rows, ∀ formula ∈ row, isEmptyCell formula = false) :
    (rows.map (List.map cellOf)).getLast?.any (isSingle isEmptyCell) = endsInLayout rows := by
  unfold endsInLayout
  rw [List.getLast?_map]
  cases last : rows.getLast? with
  | none => rfl
  | some row => exact isSingle_map_cellOf (filled row (List.mem_of_getLast? last))

theorem dropLast_cons_eq_self_iff {α : Type} {first : α} {rest : List α} :
    (first :: rest).dropLast = rest ↔ ∀ item ∈ rest, item = first := by
  induction rest generalizing first with
  | nil => simp
  | cons second others inductionHypothesis =>
    rw [List.dropLast_cons_cons, List.cons.injEq]
    constructor
    · rintro ⟨rfl, same⟩
      simpa using inductionHypothesis.mp same
    · intro all
      obtain rfl := all second List.mem_cons_self
      exact ⟨rfl, inductionHypothesis.mpr fun item member =>
        all item (List.mem_cons_of_mem _ member)⟩

theorem map_length_map_cellOf (rows : List (List Node)) :
    (rows.map (List.map cellOf)).map List.length = rows.map List.length := by
  simp [Function.comp_def]

/-- Where a row is broken once, the last row is dropped if it is the second part of the
broken row and empty, or if it is layout. -/
theorem endsBlank_broken (above : List (List Node)) {below : List (List Node)}
    (row after : List Node)
    (filled : ∀ row ∈ below, ∀ formula ∈ row, isEmptyCell formula = false) :
    endsBlank (above ++ row :: (cell [] :: after) :: below.map (List.map cellOf)) = true ↔
      below = [] ∧ after = [] ∨ endsInLayout below = true := by
  have several :
      1 < (above ++ row :: (cell [] :: after) :: below.map (List.map cellOf)).length := by
    simp only [List.length_append, List.length_cons]
    omega
  unfold endsBlank
  rw [decide_eq_true several, Bool.true_and, List.getLast?_append_cons, List.getLast?_cons_cons,
    ← any_getLast?_map_cellOf filled]
  cases below with
  | nil =>
    cases after with
    | nil => simp [isSingle, cell, isEmptyCell]
    | cons formula rest => simp [isSingle]
  | cons first rest => simp [List.getLast?_cons_cons]

/-- Without its last row, a grid with a row that is broken once has its shape back if the
row is broken at its end and there is nothing to shift below it. -/
theorem map_length_dropLast_broken (above : List (List Node)) {below : List (List Node)}
    (before after : List Node) (mark : Node) :
    (above.map (List.map cellOf) ++ (before.map cellOf ++ [cell []]) ::
        (cell [] :: after.map cellOf) :: below.map (List.map cellOf)).dropLast.map List.length =
      (above ++ (before ++ mark :: after) :: below).map List.length ↔
    after = [] ∧ ∀ row ∈ below, row.length = 1 := by
  rw [List.map_dropLast, List.map_append, map_length_map_cellOf, List.map_cons, List.map_cons,
    map_length_map_cellOf, List.map_append, List.map_cons,
    List.dropLast_append_of_ne_nil (by simp), List.append_right_inj, List.dropLast_cons_cons,
    List.cons.injEq]
  have atEnd : (before.map cellOf ++ [cell []]).length = (before ++ mark :: after).length ↔
      after = [] := by
    simp
  rw [atEnd]
  refine and_congr_right fun nothingAfter => ?_
  rw [nothingAfter, List.map_nil, List.length_singleton, dropLast_cons_eq_self_iff]
  simp

/-- Rows are split into rows of the same lengths only in the cases of `KeepsShape`. -/
theorem keepsShape_of_map_length {rows : List (List Node)}
    (filled : ∀ row ∈ rows, ∀ formula ∈ row, isEmptyCell formula = false)
    (same : (splitRows rows).map List.length = rows.map List.length) : KeepsShape rows := by
  have total := length_flatMap_brokenRow rows
  have sameCount := congrArg List.length same
  rw [List.length_map, List.length_map] at sameCount
  unfold splitRows at same sameCount
  by_cases blank : endsBlank (rows.flatMap (brokenRow [])) = true
  · simp only [if_pos blank] at same sameCount
    rw [List.length_dropLast, total] at sameCount
    have several : 1 < (rows.flatMap (brokenRow [])).length := by
      simp only [endsBlank, Bool.and_eq_true, decide_eq_true_eq] at blank
      exact blank.1
    have single : rowBreaks rows = 1 := by omega
    have broken : 0 < rows.flatten.countP isRowMark :=
      Nat.lt_of_lt_of_eq Nat.zero_lt_one single.symm
    obtain ⟨mark, isFormula, isMark⟩ := List.countP_pos_iff.mp broken
    obtain ⟨row, isRow, inRow⟩ := List.mem_flatten.mp isFormula
    obtain ⟨above, below, rfl⟩ := List.append_of_mem isRow
    obtain ⟨before, after, rfl⟩ := List.append_of_mem inRow
    have belowFilled : ∀ row ∈ below, ∀ formula ∈ row, isEmptyCell formula = false :=
      fun row member => filled row (by simp [member])
    rw [flatMap_of_broken single isMark] at blank same
    obtain ⟨rfl, singles⟩ := (map_length_dropLast_broken above before after mark).mp same
    have last := ((endsBlank_broken _ _ _ belowFilled).mp blank).imp_left And.left
    exact .inr ⟨single, above, before, mark, below, rfl, isMark, singles, last⟩
  · simp only [if_neg blank] at sameCount
    have unbroken : rowBreaks rows = 0 := by omega
    refine .inl ⟨unbroken, ?_⟩
    rintro ⟨several, inLayout⟩
    refine blank ?_
    rw [flatMap_of_unbroken unbroken, endsBlank, any_getLast?_map_cellOf filled, inLayout]
    simpa using several

theorem map_length_of_keepsShape {rows : List (List Node)}
    (filled : ∀ row ∈ rows, ∀ formula ∈ row, isEmptyCell formula = false)
    (keeps : KeepsShape rows) : (splitRows rows).map List.length = rows.map List.length := by
  unfold splitRows
  rcases keeps with ⟨unbroken, kept⟩ | ⟨single, above, row, mark, below, rfl, isMark, singles, last⟩
  · have notBlank : ¬ endsBlank (rows.map (List.map cellOf)) = true := by
      rw [endsBlank, any_getLast?_map_cellOf filled]
      simpa using kept
    simp only [flatMap_of_unbroken unbroken, if_neg notBlank]
    exact map_length_map_cellOf rows
  · have belowFilled : ∀ row ∈ below, ∀ formula ∈ row, isEmptyCell formula = false :=
      fun row member => filled row (by simp [member])
    have blank := (endsBlank_broken (above.map (List.map cellOf)) (row.map cellOf ++ [cell []]) []
      belowFilled).mpr (last.imp_left fun none => ⟨none, rfl⟩)
    simp only [flatMap_of_broken single isMark, List.map_nil, if_pos blank]
    exact (map_length_dropLast_broken above row [] mark).mpr ⟨rfl, singles⟩

end Lengths

section Cells

variable {options : ParseOptions} {inner : Reading}

theorem isEmptyCell_group {parts : List Node}
    (filled : ∀ part ∈ parts, isEmptyCell part = false) :
    isEmptyCell (.group parts) = false := by
  match parts with
  | [] => rfl
  | [part] => exact filled part (by simp)
  | first :: second :: rest => rfl

theorem isEmptyCell_attach {base : Node} (filled : isEmptyCell base = false)
    (scripts : Parser.Scripts) : isEmptyCell (scripts.attach base) = false := by
  unfold Parser.Scripts.attach
  split
  · exact filled
  · rfl

theorem Sequence.isEmptyCell_eq_false
    (filled : ∀ ⦃input node rest⦄, inner input node rest → isEmptyCell node = false)
    {input : List Token} {node : Node} (read : Sequence inner options input node) :
    isEmptyCell node = false := by
  obtain ⟨partsRead, -⟩ := read
  refine isEmptyCell_group fun part kept => ?_
  have member := (List.mem_filter.mp kept).1
  clear kept
  induction partsRead with
  | nil => cases member
  | cons first others inductionHypothesis =>
    rcases List.mem_cons.mp member with rfl | inRest
    · obtain ⟨base, attached, -⟩ := first
      exact isEmptyCell_attach (filled base) _
    · exact inductionHypothesis inRest

/-- Only a grid has empty cells: nothing that is read is one. -/
theorem Reads.isEmptyCell_eq_false (options : ParseOptions) (depth : Nat) ⦃input : List Token⦄
    ⦃node : Node⦄ ⦃rest : List Token⦄ (read : Reads options depth input node rest) :
    isEmptyCell node = false := by
  induction depth generalizing input node rest with
  | zero => exact read.elim
  | succ depth inductionHypothesis =>
    cases read with
    | leaf plain =>
      obtain ⟨kind, content, rfl, -⟩ := eq_leaf_of_leafOf? plain
      rfl
    | missingBase mark rest => rfl
    | group balanced inside => exact inside.isEmptyCell_eq_false inductionHypothesis
    | command read =>
      cases read with
      | constant arity single => rfl
      | unary arity read => cases read <;> rfl
      | binary arity firstArgument secondArgument => rfl
    | leftRight read =>
      obtain ⟨passed, opens, balanced, inside, morePassed, closes⟩ := read
      rfl
    | environment read =>
      obtain ⟨split, balanced, specification, grid⟩ := read
      rfl

/-- Tokens with the formula that they are parsed as. -/
structure ParsedCell (options : ParseOptions) where
  tokens : List Token
  formula : Node
  parsed : parseTokens options tokens = .ok formula

theorem ParsedCell.filled (cell : ParsedCell options) : isEmptyCell cell.formula = false :=
  (parseTokens_eq_ok_iff.mp cell.parsed).isEmptyCell_eq_false (Reads.isEmptyCell_eq_false options _)

theorem ParsedCell.isFormula (cell : ParsedCell options) : IsFormula cell.formula where
  noMark := (shape_of_parseTokens cell.parsed).2
  plain isEmpty := by
    rw [cell.filled] at isEmpty
    cases isEmpty

/-- With a level more, a formula in braces is read as the formula. -/
theorem ParsedCell.standing (cell : ParsedCell options) {limit : Int} {depth : Nat}
    (deep : options.maxDepth.toNat ≤ depth) :
    Standing (Reads { options with maxDepth := limit } (depth + 1)) (braced cell.tokens)
      cell.formula :=
  standing_braced (balanced_of_parseTokens cell.parsed)
    (Sequence.mono (Reads.mono limit deep) limit _ _ (parseTokens_eq_ok_iff.mp cell.parsed))

/-- The tokens of some rows of cells, each between braces. -/
def cellRows (cells : List (List (ParsedCell options))) : List Token :=
  gridTokens (cells.map (List.map fun cell => braced cell.tokens))

/-- The formulas of some rows of cells. -/
def formulaRows (cells : List (List (ParsedCell options))) : List (List Node) :=
  cells.map (List.map ParsedCell.formula)

theorem exists_formula_eq {cells : List (List (ParsedCell options))} {row : List Node}
    {formula : Node} (isRow : row ∈ formulaRows cells) (inRow : formula ∈ row) :
    ∃ cell : ParsedCell options, cell.formula = formula := by
  obtain ⟨cellRow, -, rfl⟩ := List.mem_map.mp isRow
  obtain ⟨cell, -, isFormula⟩ := List.mem_map.mp inRow
  exact ⟨cell, isFormula⟩

theorem phrase_cellRows (cells : List (List (ParsedCell options))) {limit : Int} {depth : Nat}
    (deep : options.maxDepth.toNat ≤ depth) :
    Phrase (Reads { options with maxDepth := limit } (depth + 1)) (cellRows cells)
      (gridParts (formulaRows cells)) := by
  have progresses := Reads.progresses { options with maxDepth := limit } (depth + 1)
  unfold cellRows gridTokens formulaRows gridParts
  rw [List.map_map, List.map_map]
  refine Phrase.intercalate ((standing_mark rfl rfl).phrase progresses) _ _ ?_
  intro row isRow
  simp only [Function.comp_apply, rowParts, List.map_map]
  refine Phrase.intercalate ((standing_mark rfl rfl).phrase progresses) _ _ ?_
  intro cell isCell
  simp only [Function.comp_apply, cellParts, cell.filled, Bool.false_eq_true, if_false]
  exact (cell.standing deep).phrase progresses

end Cells

/-- Cells in braces, joined by cell marks and row marks, are read as a grid whenever each of
them is a formula. The grid is what the formulas are split into, and has the rows and the
cells of its source exactly if the formulas keep the shape. -/
theorem grid_shape_iff (options : ParseOptions) (limit : Int)
    (deeper : options.maxDepth.toNat < limit.toNat) (cells : List (List (ParsedCell options)))
    (nonempty : cells ≠ []) (filled : ∀ row ∈ cells, row ≠ []) :
    ∃ grid stopped, Parser.grid (Parser.operand { options with maxDepth := limit })
        (Cursor.ofTokens (cellRows cells)) = .ok grid stopped ∧
      grid = splitRows (formulaRows cells) ∧
      (grid.map List.length = cells.map List.length ↔ KeepsShape (formulaRows cells)) := by
  obtain ⟨depth, isDepth⟩ := Nat.exists_eq_add_one_of_ne_zero (Nat.ne_zero_of_lt deeper)
  have formulas : ∀ row ∈ formulaRows cells, ∀ formula ∈ row, IsFormula formula := by
    intro row isRow formula inRow
    obtain ⟨cell, rfl⟩ := exists_formula_eq isRow inRow
    exact cell.isFormula
  have noEmptyCell : ∀ row ∈ formulaRows cells, ∀ formula ∈ row, isEmptyCell formula = false := by
    intro row isRow formula inRow
    obtain ⟨cell, rfl⟩ := exists_formula_eq isRow inRow
    exact cell.filled
  have read : Rows (Reads { options with maxDepth := limit } limit.toNat) (cellRows cells)
      (ofParts (gridParts (formulaRows cells))) := by
    rw [isDepth] at deeper ⊢
    exact .intro (phrase_cellRows cells (Nat.le_of_lt_succ deeper)).parts
  rw [ofParts_eq_splitRows (by simpa [formulaRows] using nonempty)
    (by simpa [formulaRows] using filled) formulas] at read
  obtain ⟨passed, isRead⟩ := (realizesAt_grid (realizes_operandAt { options with maxDepth := limit }
    limit.toNat) (Reads.progresses _ _) (cellRows cells) [] _ []).mpr ⟨rfl, read⟩
  have sameLengths : cells.map List.length = (formulaRows cells).map List.length := by
    simp [formulaRows, Function.comp_def]
  refine ⟨_, _, isRead, rfl, ?_⟩
  rw [sameLengths]
  exact ⟨keepsShape_of_map_length noEmptyCell, map_length_of_keepsShape noEmptyCell⟩

/-- A row that is broken at its end, above a row of layout. -/
def brokenCells : List (List (ParsedCell { symbols := [] })) :=
  [[⟨[⟨.element, "a"⟩], .element "a", by cbv⟩, ⟨[rowMark], .leaf .control "\\\\", by cbv⟩],
    [⟨[⟨.newline, "\n"⟩], .leaf .newline "\n", by cbv⟩]]

theorem grid_shape_brokenCells :
    ∃ grid stopped, Parser.grid (Parser.operand { symbols := [], maxDepth := 129 })
        (Cursor.ofTokens (cellRows brokenCells)) = .ok grid stopped ∧
      grid = [[.element "a", .ordgroup "" []], [.ordgroup "" []]] ∧
      grid.map List.length = brokenCells.map List.length := by
  obtain ⟨grid, stopped, read, split, shape⟩ := grid_shape_iff { symbols := [] } 129 (by decide)
    brokenCells (by simp [brokenCells]) (by simp [brokenCells])
  refine ⟨grid, stopped, read, split, shape.mpr (.inr ⟨rfl, [], [.element "a"],
    .leaf .control "\\\\", [[.leaf .newline "\n"]], rfl, rfl, by simp, .inr rfl⟩)⟩

/-- A row mark in braces breaks the first row of a matrix of two rows and two columns, which
is then read as three rows. -/
theorem grid_of_braced_rowMark :
    parseTokens { symbols := [] } [rowMark] = .ok (.leaf .control "\\\\") ∧
      ∃ stopped, Parser.grid (Parser.operand { symbols := [], maxDepth := 129 })
        (Cursor.ofTokens (gridTokens [[braced [rowMark], braced [⟨.element, "b"⟩]],
          [braced [⟨.element, "c"⟩], braced [⟨.element, "d"⟩]]])) =
        .ok [[.ordgroup "" []], [.ordgroup "" [], .element "b"], [.element "c", .element "d"]]
          stopped := by
  refine ⟨by cbv, _, by cbv⟩

end MathMarkup.Tex.Grammar
