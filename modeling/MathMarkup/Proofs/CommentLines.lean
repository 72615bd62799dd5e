import MathMarkup.Proofs.Failures
import MathMarkup.Proofs.ReadLines
import MathMarkup.Proofs.WrittenLines

/-!
# What comments hide

A comment of the source is written as a comment, and its line break after it. There are
three places where something else is written on the line of a comment. `hides` finds them
in the tree that was read; nowhere else does a comment hide anything.
-/

namespace MathMarkup.Conversion

open Lines
open Tex (Node)
open Tex.Grammar (Tidy endsInComment isBareComment)

section Trees

/-- The environment is written as aligned rows, without a call around them. -/
def isAlignment (name : String) : Bool :=
  "align".toList.isPrefixOf name.toList

mutual

/-- What is written first of a tree, or what comes next if nothing of it is. -/
def opens (next : Following) : Node → Following
  | .leaf kind _ =>
    match kind with
    | .newline => .lineBreak
    | .empty | .whitespace => next
    | _ => .other
  | .ordgroup _ parts => opensEach next parts
  | .beginend name rows => if isAlignment name then opensRows next rows else .other
  | .supsub .. | .unaryFunc .. | .binaryFunc .. | .leftright .. => .other

/-- What is written first of trees side by side. -/
def opensEach (next : Following) : List Node → Following
  | [] => next
  | part :: rest => opens (opensEach next rest) part

/-- What is written first of rows. -/
def opensRows (next : Following) : List (List Node) → Following
  | [] => next
  | [row] => opensCells next row
  | row :: _ => opensCells .other row

/-- What is written first of the cells of a row. -/
def opensCells (next : Following) : List Node → Following
  | [] => next
  | [cell] => opens next cell
  | cell :: _ => opens .other cell

end

/-- The node is a line break with scripts. -/
def isScriptedBreak : Node → Bool
  | .supsub _ (.leaf .newline _) _ _ => true
  | _ => false

mutual

/-- Something is written after a comment of the tree, on the same line. The comment is an
operand without braces, or the line break after it has scripts, or it is the last part of
an environment. After an alignment there may be a line break or nothing at all. -/
def hides (next : Following) : Node → Bool
  | .leaf .. => false
  | .ordgroup _ parts => hidesEach next parts
  | .supsub _ base sup sub => hides .other base || hidesOptional sup || hidesOptional sub
  | .unaryFunc _ arg index => isBareComment arg || hides .other arg || hidesOptional index
  | .binaryFunc _ first second =>
    isBareComment first || hides .other first || isBareComment second || hides .other second
  | .leftright _ _ body _ => hides .other body
  | .beginend name rows => hidesRows (if isAlignment name then next else .other) rows

/-- A comment of an operand that may be absent hides something. -/
def hidesOptional : Option Node → Bool
  | none => false
  | some node => isBareComment node || hides .other node

/-- A comment of trees side by side hides something. -/
def hidesEach (next : Following) : List Node → Bool
  | [] => false
  | part :: rest =>
    (role part == .comment && rest.head?.any isScriptedBreak) || hides (opensEach next rest) part ||
      hidesEach next rest

/-- A comment of an environment hides something. -/
def hidesRows (next : Following) : List (List Node) → Bool
  | [] => false
  | [row] => hidesLastRow next row
  | row :: rest => hidesRow row || hidesRows next rest

/-- A comment of a row hides something before the mark that ends the row. -/
def hidesRow : List Node → Bool
  | [] => false
  | cell :: rest => hides .other cell || hidesRow rest

/-- A comment of the last row hides something. -/
def hidesLastRow (next : Following) : List Node → Bool
  | [] => false
  | [cell] => endsInComment cell && next == .other || hides next cell
  | cell :: rest => hides .other cell || hidesLastRow next rest

end

/-- Nothing is written on the line of a comment of the tree, given what comes next. -/
def settles (next : Following) (tree : Node) : Bool :=
  !(endsInComment tree && next == .other) && !hides next tree

theorem hidesRows_cons_cons (next : Following) (row second : List Node) (rest : List (List Node)) :
    hidesRows next (row :: second :: rest) = (hidesRow row || hidesRows next (second :: rest)) := by
  rw [hidesRows]
  simp

theorem hidesLastRow_cons_cons (next : Following) (cell second : Node) (rest : List Node) :
    hidesLastRow next (cell :: second :: rest) =
      (hides .other cell || hidesLastRow next (second :: rest)) := by
  rw [hidesLastRow]
  simp

theorem endsInComment_of_isBareComment {node : Node} (bare : isBareComment node = true) :
    endsInComment node = true := by
  unfold isBareComment at bare
  split at bare
  · exact bare
  · rename_i content parts
    split at bare
    · rename_i part left
      obtain ⟨primes, split⟩ := List.dropWhile_suffix (l := parts) Tex.Grammar.isPrime
      rw [endsInComment, ← split, left, List.getLast?_concat]
      exact bare
    · cases bare
  · cases bare

/-- An operand that is in braces or is no comment settles unless something in it is hidden. -/
theorem settles_operand {node : Node}
    (bare : endsInComment node = true → isBareComment node = true) :
    settles .other node = !(isBareComment node || hides .other node) := by
  have same : endsInComment node = isBareComment node :=
    Bool.eq_iff_iff.mpr ⟨bare, endsInComment_of_isBareComment⟩
  simp [settles, same]

theorem settles_closed {node : Node} (next : Following) (ends : endsInComment node = false) :
    settles next node = !hides next node := by
  simp [settles, ends]

end Trees

section Written

/-- The written form of the tree has the lines of the tree. -/
structure Written (tree : Node) (node : Typst.Node) : Prop where
  opening : ∀ inCall next, opening next (node.pieces inCall) = opens next tree
  lines : ∀ inCall next, endsLines next (node.pieces inCall) = settles next tree

/-- A tree without comments that is written as one sign. -/
theorem Written.of_sign {tree : Node} {node : Typst.Node}
    (sign : ∀ inCall, ∃ sign, node.pieces inCall = [sign] ∧ role sign = .other)
    (opensOther : ∀ next, opens next tree = .other) (settled : ∀ next, settles next tree = true) :
    Written tree node where
  opening inCall next := by
    obtain ⟨sign, written, plain⟩ := sign inCall
    rw [written, opening_cons plain, opensOther]
  lines inCall next := by
    obtain ⟨sign, written, plain⟩ := sign inCall
    rw [written, endsLines_singleton, plain, settled]
    rfl

/-- A tree that is written as a call or with scripts, so that signs stand around it. -/
theorem Written.of_closed {tree : Node} {node : Typst.Node}
    (opensOther : ∀ next, opens next tree = .other) (ends : endsInComment tree = false)
    (around : ∀ inCall next, Lines.opening next (node.pieces inCall) = .other ∧
      endsLines next (node.pieces inCall) = !hides next tree) : Written tree node where
  opening inCall next := by rw [(around inCall next).1, opensOther]
  lines inCall next := by rw [(around inCall next).2, settles_closed next ends]

theorem opening_pieces_each {parts : List Node} {nodes : List Typst.Node}
    (written : List.Forall₂ Written parts nodes) (inCall : Bool) (next : Following) :
    opening next (nodes.map (Typst.Node.pieces inCall)).flatten = opensEach next parts := by
  induction written with
  | nil => rfl
  | cons first others inductionHypothesis =>
    rw [List.map_cons, List.flatten_cons, opening_append, inductionHypothesis, first.opening]
    rfl

/-- A comment that a line break follows hides nothing, unless the line break has scripts. -/
theorem settles_comment {part second : Node} {rest : List Node} (next : Following)
    (comment : role part = .comment) (breaks : role second = .lineBreak) :
    settles (opensEach next (second :: rest)) part = !isScriptedBreak second := by
  obtain ⟨content, rfl⟩ := Tex.Grammar.role_node_eq_comment_iff.mp comment
  simp only [role] at breaks
  split at breaks
  · cases breaks
  · rfl
  · rfl
  · cases breaks

/-- Trees side by side settle if each of them does before the next one. -/
theorem endsLines_pieces_each {parts : List Node} {nodes : List Typst.Node}
    (written : List.Forall₂ Written parts nodes) (lines : endsLines .nothing parts = true)
    (bare : ∀ part ∈ parts, endsInComment part = true → role part = .comment)
    (inCall : Bool) (next : Following) :
    endsLines next (nodes.map (Typst.Node.pieces inCall)).flatten =
      (!(parts.getLast?.any (role · == .comment) && next == .other) && !hidesEach next parts) := by
  induction written with
  | nil => rfl
  | @cons part node rest nodes first others inductionHypothesis =>
    have restLines := inductionHypothesis (endsLines_tail lines)
      fun other member => bare other (List.mem_cons_of_mem _ member)
    have ends : endsInComment part = (role part == .comment) := by
      refine Bool.eq_iff_iff.mpr
        ⟨fun ends => by simpa using bare part (by simp) ends, fun comment => ?_⟩
      obtain ⟨content, rfl⟩ := Tex.Grammar.role_node_eq_comment_iff.mp (by simpa using comment)
      rfl
    rw [List.map_cons, List.flatten_cons, endsLines_append, opening_pieces_each others,
      first.lines, restLines]
    cases rest with
    | nil => simp [settles, hidesEach, opensEach, ends]
    | cons second more =>
      rw [List.getLast?_cons_cons]
      by_cases comment : role part = .comment
      · have breaks := opening_cons_ne_other_iff.mp (opening_of_comment comment lines)
        have hidden : hidesEach next (part :: second :: more) =
            (isScriptedBreak second || hidesEach next (second :: more)) := by
          obtain ⟨content, rfl⟩ := Tex.Grammar.role_node_eq_comment_iff.mp comment
          rw [hidesEach, hides, Bool.or_false]
          rfl
        rw [settles_comment next comment breaks, hidden, Bool.not_or, Bool.and_left_comm]
      · have noComment : endsInComment part = false := by simpa [ends] using comment
        have hidden : hidesEach next (part :: second :: more) =
            (hides (opensEach next (second :: more)) part || hidesEach next (second :: more)) := by
          rw [hidesEach, beq_false_of_ne comment, Bool.false_and, Bool.false_or]
        rw [settles_closed _ noComment, hidden, Bool.not_or, Bool.and_left_comm]

theorem written_group {parts : List Node} {nodes : List Typst.Node} {content : String}
    (written : List.Forall₂ Written parts nodes) (lines : endsLines .nothing parts = true)
    (bare : ∀ part ∈ parts, endsInComment part = true → role part = .comment) :
    Written (.ordgroup content parts) (.group "" nodes) where
  opening inCall next := by
    rw [Typst.Node.pieces, Typst.piecesOfEach_eq_map, opening_pieces_each written]
    rfl
  lines inCall next := by
    rw [Typst.Node.pieces, Typst.piecesOfEach_eq_map, endsLines_pieces_each written lines bare]
    rfl

/-- Cells before the mark that ends their row. -/
theorem endsLines_row {row : List Node} {nodes : List Typst.Node}
    (written : List.Forall₂ Written row nodes) (ends : ∀ cell ∈ row, endsInComment cell = false)
    (inCall : Bool) :
    endsLinesBetween .other (nodes.map (Typst.Node.pieces inCall)) = !hidesRow row := by
  rw [endsLinesBetween_other]
  induction written with
  | nil => rfl
  | cons first others inductionHypothesis =>
    rw [List.map_cons, List.all_cons, first.lines, settles_closed _ (ends _ (by simp)),
      inductionHypothesis fun cell member => ends cell (List.mem_cons_of_mem _ member), hidesRow,
      Bool.not_or]

/-- The last cell of the last row is followed by what follows the environment. -/
theorem endsLines_lastRow {row : List Node} {nodes : List Typst.Node}
    (written : List.Forall₂ Written row nodes)
    (ends : ∀ cell ∈ row.dropLast, endsInComment cell = false) (inCall : Bool) (next : Following) :
    endsLinesBetween next (nodes.map (Typst.Node.pieces inCall)) = !hidesLastRow next row := by
  induction written with
  | nil => rfl
  | @cons cell node row nodes first others inductionHypothesis =>
    cases others with
    | nil =>
      rw [List.map_cons, List.map_nil, endsLinesBetween, first.lines, hidesLastRow, settles,
        Bool.not_or]
    | cons second others =>
      have restLines := inductionHypothesis fun cell member => ends cell (List.mem_cons_of_mem _ member)
      change (endsLines .other (node.pieces inCall) &&
        endsLinesBetween next (List.map (Typst.Node.pieces inCall) (_ :: _))) = _
      rw [restLines, first.lines, settles_closed _ (ends _ (by simp)), hidesLastRow_cons_cons,
        Bool.not_or]

theorem opening_row {row : List Node} {nodes : List Typst.Node}
    (written : List.Forall₂ Written row nodes) (inCall : Bool) (next : Following) :
    openingBetween next (nodes.map (Typst.Node.pieces inCall)) = opensCells next row := by
  match written with
  | .nil => rfl
  | .cons first .nil => exact first.opening inCall next
  | .cons first (.cons _ _) => exact first.opening inCall .other

/-- The pieces of rows between which a sign is written. -/
def rowPieces (inCall : Bool) (rows : List (List Typst.Node)) : List (List Typst.Piece) :=
  rows.map fun row => List.intercalate [.atom "&"] (row.map (Typst.Node.pieces inCall))

theorem endsLines_rows {rows : List (List Node)} {nodes : List (List Typst.Node)}
    (written : List.Forall₂ (List.Forall₂ Written) rows nodes)
    (rowsEnd : ∀ row ∈ rows.dropLast, ∀ cell ∈ row, endsInComment cell = false)
    (cellsEnd : ∀ row ∈ rows.getLast?, ∀ cell ∈ row.dropLast, endsInComment cell = false)
    (inCall : Bool) (next : Following) :
    endsLinesBetween next (rowPieces inCall nodes) = !hidesRows next rows := by
  induction written with
  | nil => rfl
  | @cons row cells rows nodes first others inductionHypothesis =>
    cases others with
    | nil =>
      change endsLines next (List.intercalate [.atom "&"] (cells.map (Typst.Node.pieces inCall))) = _
      rw [endsLines_intercalate rfl, endsLines_lastRow first (cellsEnd row rfl), hidesRows]
    | cons second others =>
      have restLines := inductionHypothesis
        (fun row member => rowsEnd row (List.mem_cons_of_mem _ member))
        (by rwa [List.getLast?_cons_cons] at cellsEnd)
      change (endsLines .other (List.intercalate [.atom "&"] (cells.map (Typst.Node.pieces inCall))) &&
        endsLinesBetween next (rowPieces inCall (_ :: _))) = _
      rw [endsLines_intercalate rfl, endsLines_row first (rowsEnd row (by simp)), restLines,
        hidesRows_cons_cons, Bool.not_or]

theorem opening_rows {rows : List (List Node)} {nodes : List (List Typst.Node)}
    (written : List.Forall₂ (List.Forall₂ Written) rows nodes) (inCall : Bool) (next : Following) :
    openingBetween next (rowPieces inCall nodes) = opensRows next rows := by
  match written with
  | .nil => rfl
  | .cons first .nil =>
    exact (opening_intercalate rfl _).trans (opening_row first inCall next)
  | .cons first (.cons _ _) =>
    exact (opening_intercalate rfl _).trans (opening_row first inCall .other)

/-- Something follows an environment that is written as a call, in the call. -/
theorem written_environment {name : String} {rows : List (List Node)}
    {nodes : List (List Typst.Node)} (written : List.Forall₂ (List.Forall₂ Written) rows nodes)
    (rowsEnd : ∀ row ∈ rows.dropLast, ∀ cell ∈ row, endsInComment cell = false)
    (cellsEnd : ∀ row ∈ rows.getLast?, ∀ cell ∈ row.dropLast, endsInComment cell = false) :
    Written (.beginend name rows) (environment name nodes) := by
  have matrixWritten (call : Typst.GridCall) (delimiter : Option String)
      (plain : isAlignment name = false) :
      Written (.beginend name rows) (.matrix call delimiter nodes) := by
    refine .of_closed (fun next => by simp [opens, plain]) rfl fun inCall next => ?_
    refine ⟨(Typst.lines_matrix call delimiter nodes).1, ?_⟩
    rw [(Typst.lines_matrix call delimiter nodes).2, hides, plain, if_neg (by simp),
      ← endsLines_rows written rowsEnd cellsEnd true, endsLinesBetween_other, rowPieces, List.all_map]
    congr 1
    funext row
    rw [Function.comp_apply, endsLines_intercalate rfl, endsLinesBetween_other, List.all_map]
    rfl
  unfold environment
  split
  · rename_i aligned
    have isAligned : isAlignment name = true := aligned
    refine ⟨fun inCall next => ?_, fun inCall next => ?_⟩
    · rw [(Typst.lines_align "" nodes).1, opens, if_pos isAligned, ← opening_rows written inCall]
      rfl
    · rw [(Typst.lines_align "" nodes).2, settles_closed _ rfl, hides, if_pos isAligned,
        ← endsLines_rows written rowsEnd cellsEnd inCall]
      rfl
  · rename_i unaligned
    have plain : isAlignment name = false := Bool.eq_false_iff.mpr unaligned
    split
    · exact matrixWritten _ _ plain
    · exact matrixWritten _ _ plain

end Written

section Conversions

variable {α β : Type} {settings : Settings}

/-- Whatever the converter gives has the property. -/
def Yields (converter : Converter Node α) (property : α → Prop) : Prop :=
  ∀ ⦃passed value after⦄, converter passed = .ok value after → property value

theorem Yields.pure {property : α → Prop} {value : α} (holds : property value) :
    Yields (pure value) property := by
  rintro passed _ after ⟨⟩
  exact holds

theorem Yields.bind {converter : Converter Node α} {next : α → Converter Node β}
    {property : α → Prop} {result : β → Prop} (first : Yields converter property)
    (second : ∀ value, property value → Yields (next value) result) :
    Yields (converter >>= next) result := by
  intro passed value after converted
  change EStateM.bind converter next passed = _ at converted
  unfold EStateM.bind at converted
  split at converted
  · rename_i middle noted given
    exact second middle (first given) converted
  · cases converted

theorem Yields.map {converter : Converter Node α} {property : α → Prop} {result : β → Prop}
    {build : α → β} (first : Yields converter property)
    (second : ∀ value, property value → result (build value)) :
    Yields (do return build (← converter)) result :=
  first.bind fun value holds => .pure (second value holds)

theorem Yields.of_map {converter : Converter Node α} {build : α → β} {result : β → Prop}
    (yields : Yields (do return build (← converter)) result) :
    Yields converter fun value => result (build value) := by
  intro passed value after given
  have built : (do return build (← converter) : Converter Node β) passed =
      .ok (build value) after := by
    change EStateM.bind converter _ passed = _
    unfold EStateM.bind
    rw [given]
    rfl
  exact yields built

theorem Yields.trivial (converter : Converter Node α) : Yields converter fun _ => True :=
  fun _ _ _ _ => True.intro

theorem Yields.throw {property : α → Prop} (cause : ConvertError Node) :
    Yields (throw cause) property := by
  rintro passed value after ⟨⟩

theorem yields_leaf (kind : Tex.LeafKind) (content : String) :
    Yields (convert settings (.leaf kind content)) (Written (.leaf kind content)) := by
  rw [convert]
  have signWritten {kind : Tex.LeafKind} (spelling : String)
      (opensOther : ∀ next, opens next (.leaf kind content) = .other)
      (settled : ∀ next, settles next (.leaf kind content) = true) :
      Written (.leaf kind content) (.symbol spelling) :=
    .of_sign (Typst.exists_pieces_symbol · spelling) opensOther settled
  cases kind with
  | element | symbol => exact .pure (signWritten _ (fun _ => rfl) fun _ => rfl)
  | text => exact .pure (.of_sign (fun _ => ⟨_, rfl, rfl⟩) (fun _ => rfl) fun _ => rfl)
  | empty | whitespace => exact .pure ⟨fun _ _ => rfl, fun _ _ => rfl⟩
  | newline => exact .pure ⟨fun _ _ => rfl, fun _ _ => rfl⟩
  | comment => exact .pure ⟨fun _ _ => rfl, fun _ next => by cases next <;> rfl⟩
  | unknownMacro =>
    unfold leaf unknownMacro
    dsimp only
    split
    · exact (Yields.trivial _).bind fun _ _ =>
        .pure (.of_sign (fun _ => ⟨_, rfl, rfl⟩) (fun _ => rfl) fun _ => rfl)
    · exact .throw _
  | control =>
    unfold leaf controlToken
    dsimp only
    split
    · exact .pure (signWritten _ (fun _ => rfl) fun _ => rfl)
    · exact .pure (signWritten _ (fun _ => rfl) fun _ => rfl)
    · exact .throw _

/-- The written form of an operand that may be absent. -/
def WrittenOptional (tree : Option Node) (node : Option Typst.Node) : Prop :=
  node.isSome = tree.isSome ∧
    ∀ inCall, endsLines .other (Typst.Node.piecesOfOptional inCall node) = !hidesOptional tree

theorem yields_convertOptional {tree : Option Node}
    (yields : ∀ node ∈ tree, Yields (convert settings node) (Written node))
    (bare : ∀ node ∈ tree, endsInComment node = true → isBareComment node = true) :
    Yields (convertOptional settings tree) (WrittenOptional tree) := by
  cases tree with
  | none =>
    rw [convertOptional]
    exact .pure ⟨rfl, fun _ => rfl⟩
  | some tree =>
    rw [convertOptional]
    refine (yields tree rfl).map fun node written => ⟨rfl, fun inCall => ?_⟩
    rw [Typst.Node.piecesOfOptional, written.lines, settles_operand (bare tree rfl), hidesOptional]

theorem yields_convertAll {trees : List Node}
    (yields : ∀ tree ∈ trees, Yields (convert settings tree) (Written tree)) :
    Yields (convertAll settings trees) (List.Forall₂ Written trees) := by
  induction trees with
  | nil =>
    rw [convertAll]
    exact .pure .nil
  | cons tree rest inductionHypothesis =>
    rw [convertAll]
    refine (yields tree (by simp)).bind fun first written => ?_
    exact (inductionHypothesis fun other member => yields other (List.mem_cons_of_mem _ member)).map
      fun others writtenEach => .cons written writtenEach

theorem yields_convertRows {rows : List (List Node)}
    (yields : ∀ row ∈ rows, ∀ cell ∈ row, Yields (convert settings cell) (Written cell)) :
    Yields (convertRows settings rows) (List.Forall₂ (List.Forall₂ Written) rows) := by
  induction rows with
  | nil =>
    rw [convertRows]
    exact .pure .nil
  | cons row rest inductionHypothesis =>
    rw [convertRows]
    refine (yields_convertAll (yields row (by simp))).bind fun first written => ?_
    exact (inductionHypothesis fun other member => yields other (List.mem_cons_of_mem _ member)).map
      fun others writtenEach => .cons written writtenEach

/-- A command of one argument without an index, written as a call. -/
theorem written_call {command name : String} {arg : Node} {index : Option Node} {node : Typst.Node}
    (noIndex : index = none) (bare : endsInComment arg = true → isBareComment arg = true)
    (written : Written arg node) : Written (.unaryFunc command arg index) (.unaryFunc name node) := by
  refine .of_closed (fun _ => rfl) rfl fun inCall next => ?_
  refine ⟨(Typst.lines_unaryFunc name node).1, ?_⟩
  rw [(Typst.lines_unaryFunc name node).2, written.lines, settles_operand bare, hides, noIndex,
    hidesOptional, Bool.or_false]

theorem yields_operatorName (name : String) (node : Node) :
    Yields (operatorName settings (some name) node)
      (Written (.unaryFunc "\\operatorname" (.text name) none)) := by
  unfold operatorName
  dsimp only
  split
  · exact .pure (.of_sign (Typst.exists_pieces_symbol · name) (fun _ => rfl) fun _ => rfl)
  · refine .pure (.of_closed (fun _ => rfl) rfl fun inCall next => ?_)
    exact ⟨(Typst.lines_unaryFunc "op" _).1, (Typst.lines_unaryFunc "op" _).2⟩

theorem yields_unaryFunc {command : String} {arg : Node} {index : Option Node}
    (named : command = "\\operatorname" → ∃ name, arg = .text name)
    (indexed : index = none ∨ command = "\\sqrt")
    (argYields : Yields (convert settings arg) (Written arg))
    (argBare : endsInComment arg = true → isBareComment arg = true)
    (indexYields : ∀ node ∈ index, Yields (convert settings node) (Written node))
    (indexEnds : ∀ node ∈ index, endsInComment node = false) :
    Yields (convert settings (.unaryFunc command arg index))
      (Written (.unaryFunc command arg index)) := by
  have indexWritten := yields_convertOptional indexYields
    fun node member => by simp [indexEnds node member]
  rw [convert]
  unfold unaryCall
  split
  · rename_i name isText
    obtain ⟨content, rfl⟩ := named rfl
    cases isText
    rw [indexed.resolve_right (by decide)]
    exact yields_operatorName _ _
  · rename_i noText
    obtain ⟨content, rfl⟩ := named rfl
    exact (noText content rfl).elim
  · have noIndex := indexed.resolve_right (by decide)
    refine argYields.map fun node written => .of_closed (fun _ => rfl) rfl fun inCall next => ?_
    refine ⟨(Typst.lines_unaryFunc _ _).1, ?_⟩
    rw [(Typst.lines_unaryFunc _ _).2, (Typst.lines_unaryFunc _ _).2, written.lines,
      settles_operand argBare, hides, noIndex, hidesOptional, Bool.or_false]
  · rename_i content isElement
    have noIndex := indexed.resolve_right (by decide)
    split
    · rename_i doubled isCapital
      rw [eq_element_of_argumentText isElement, noIndex]
      exact .pure (.of_sign (Typst.exists_pieces_symbol · doubled) (fun _ => rfl) fun _ => rfl)
    · exact argYields.map fun node written => written_call noIndex argBare written
  · refine indexWritten.bind fun degree degreeWritten => ?_
    cases degree with
    | some degree =>
      refine argYields.map fun node written => .of_closed (fun _ => rfl) rfl fun inCall next => ?_
      refine ⟨(Typst.lines_binaryFunc _ _ _).1, ?_⟩
      have degreeLines := degreeWritten.2 true
      rw [Typst.Node.piecesOfOptional] at degreeLines
      rw [(Typst.lines_binaryFunc _ _ _).2, degreeLines, written.lines, settles_operand argBare, hides,
        Bool.and_comm, ← Bool.not_or]
    | none =>
      have noIndex : index = none := by simpa using degreeWritten.1
      exact argYields.map fun node written => written_call noIndex argBare written
  · rename_i noRoot _ _
    exact argYields.map fun node written =>
      written_call (indexed.resolve_right noRoot) argBare written

theorem yields_binaryFunc {command : String} {first second : Node}
    (firstYields : Yields (convert settings first) (Written first))
    (firstBare : endsInComment first = true → isBareComment first = true)
    (secondYields : Yields (convert settings second) (Written second))
    (secondBare : endsInComment second = true → isBareComment second = true) :
    Yields (convert settings (.binaryFunc command first second))
      (Written (.binaryFunc command first second)) := by
  rw [convert]
  refine firstYields.bind fun one firstWritten => secondYields.map fun two secondWritten =>
    .of_closed (fun _ => rfl) rfl fun inCall next => ⟨(Typst.lines_binaryFunc _ _ _).1, ?_⟩
  rw [(Typst.lines_binaryFunc _ _ _).2, firstWritten.lines, secondWritten.lines,
    settles_operand firstBare, settles_operand secondBare, hides, ← Bool.not_or, ← Bool.or_assoc]

/-- What a supsub is written as: a base that is followed by its scripts. -/
theorem written_supsub {content : String} {base : Node} {sup sub : Option Node} {node : Typst.Node}
    {above below : Option Typst.Node} (scripted : above.isSome = true ∨ below.isSome = true)
    (lines : ∀ inCall, (endsLines .other (node.pieces inCall) &&
      endsLines .other (Typst.Node.piecesOfOptional inCall above) &&
        endsLines .other (Typst.Node.piecesOfOptional inCall below)) =
      !(hides .other base || hidesOptional sup || hidesOptional sub)) :
    Written (.supsub content base sup sub) (.supsub "" node above below) := by
  refine .of_closed (fun _ => rfl) rfl fun inCall next => ?_
  obtain ⟨opensOther, allEnd⟩ := Typst.lines_supsub "" node scripted
  exact ⟨opensOther, by rw [allEnd, lines, hides]⟩

theorem yields_scripted {content : String} {base : Node} {sup sub : Option Node}
    {converter : Converter Node Typst.Node} (scripted : sup.isSome = true ∨ sub.isSome = true)
    (baseYields : Yields converter fun node =>
      ∀ inCall, endsLines .other (node.pieces inCall) = !hides .other base)
    (supYields : Yields (convertOptional settings sup) (WrittenOptional sup))
    (subYields : Yields (convertOptional settings sub) (WrittenOptional sub)) :
    Yields (Conversion.scripted converter (convertOptional settings sup)
      (convertOptional settings sub)) (Written (.supsub content base sup sub)) := by
  unfold Conversion.scripted
  refine baseYields.bind fun node baseLines => supYields.bind fun above aboveWritten =>
    subYields.map fun below belowWritten => written_supsub ?_ fun inCall => ?_
  · rw [aboveWritten.1, belowWritten.1]
    exact scripted
  · rw [baseLines, aboveWritten.2, belowWritten.2, ← Bool.not_or, ← Bool.not_or]

/-- A brace with its label is written as one call. -/
theorem lines_brace (name : String) {command spelling : String} {arg label : Node}
    {index : Option Node} {body node : Typst.Node}
    (bodyWritten : Written (.unaryFunc command arg index) (.unaryFunc spelling body))
    (bare : endsInComment label = true → isBareComment label = true) (written : Written label node)
    (inCall : Bool) (next : Following) :
    opening next ((Typst.Node.binaryFunc name body node).pieces inCall) = .other ∧
      endsLines next ((Typst.Node.binaryFunc name body node).pieces inCall) =
        !(hides .other (.unaryFunc command arg index) || hidesOptional (some label)) := by
  have bodyLines := bodyWritten.lines inCall .other
  rw [(Typst.lines_unaryFunc _ _).2, settles_closed _ rfl] at bodyLines
  refine ⟨(Typst.lines_binaryFunc _ _ _).1, ?_⟩
  rw [(Typst.lines_binaryFunc _ _ _).2, bodyLines, written.lines, settles_operand bare, hidesOptional,
    ← Bool.not_or]

theorem yields_overbrace {content : String} {arg label : Node} {index sub : Option Node}
    (baseYields : Yields (convert settings (.unaryFunc "\\overbrace" arg index))
      (Written (.unaryFunc "\\overbrace" arg index)))
    (labelYields : Yields (convert settings label) (Written label))
    (labelBare : endsInComment label = true → isBareComment label = true)
    (subYields : Yields (convertOptional settings sub) (WrittenOptional sub)) :
    Yields (convert settings (.supsub content (.unaryFunc "\\overbrace" arg index) (some label) sub))
      (Written (.supsub content (.unaryFunc "\\overbrace" arg index) (some label) sub)) := by
  rw [convert] at baseYields
  rw [convert]
  unfold overbrace
  refine (Yields.of_map baseYields).bind fun body bodyWritten => labelYields.bind fun node written =>
    subYields.bind fun below belowWritten => ?_
  have braceLines := lines_brace "overbrace" bodyWritten labelBare written
  cases below with
  | none =>
    have noSub : sub = none := by simpa using belowWritten.1
    refine .pure (.of_closed (fun _ => rfl) rfl fun inCall next => ⟨(braceLines inCall next).1, ?_⟩)
    rw [(braceLines inCall next).2, noSub, hides, hidesOptional, hidesOptional, Bool.or_false]
  | some below =>
    refine .pure (written_supsub (.inr rfl) fun inCall => ?_)
    rw [(braceLines inCall _).2, belowWritten.2]
    simp [Typst.Node.piecesOfOptional]

theorem yields_underbrace {content : String} {arg label : Node} {index sup : Option Node}
    (baseYields : Yields (convert settings (.unaryFunc "\\underbrace" arg index))
      (Written (.unaryFunc "\\underbrace" arg index)))
    (labelYields : Yields (convert settings label) (Written label))
    (labelBare : endsInComment label = true → isBareComment label = true)
    (supYields : Yields (convertOptional settings sup) (WrittenOptional sup)) :
    Yields (convert settings (.supsub content (.unaryFunc "\\underbrace" arg index) sup (some label)))
      (Written (.supsub content (.unaryFunc "\\underbrace" arg index) sup (some label))) := by
  rw [convert] at baseYields
  rw [convert]
  unfold underbrace
  refine (Yields.of_map baseYields).bind fun body bodyWritten => labelYields.bind fun node written =>
    supYields.bind fun above aboveWritten => ?_
  have braceLines := lines_brace "underbrace" bodyWritten labelBare written
  cases above with
  | none =>
    have noSup : sup = none := by simpa using aboveWritten.1
    refine .pure (.of_closed (fun _ => rfl) rfl fun inCall next => ⟨(braceLines inCall next).1, ?_⟩)
    rw [(braceLines inCall next).2, noSup, hides, hidesOptional, Bool.or_false]
  | some above =>
    refine .pure (written_supsub (.inl rfl) fun inCall => ?_)
    rw [(braceLines inCall _).2, aboveWritten.2, Bool.or_right_comm]
    simp [Typst.Node.piecesOfOptional]

theorem yields_supsub {content : String} {base : Node} {sup sub : Option Node}
    (scripted : sup.isSome = true ∨ sub.isSome = true)
    (baseYields : Yields (convert settings base) (Written base))
    (baseEnds : endsInComment base = false)
    (supYields : ∀ script ∈ sup, Yields (convert settings script) (Written script))
    (supBare : ∀ script ∈ sup, endsInComment script = true → isBareComment script = true)
    (subYields : ∀ script ∈ sub, Yields (convert settings script) (Written script))
    (subBare : ∀ script ∈ sub, endsInComment script = true → isBareComment script = true) :
    Yields (convert settings (.supsub content base sup sub))
      (Written (.supsub content base sup sub)) := by
  have above := yields_convertOptional supYields supBare
  have below := yields_convertOptional subYields subBare
  rcases convert_supsub settings content base sup sub with
    ⟨text, rfl, converted⟩ | ⟨arg, index, label, rfl, rfl, -⟩ | ⟨arg, index, label, rfl, rfl, -⟩ |
      ⟨-, converted⟩
  · rw [converted]
    exact yields_scripted scripted (.pure fun _ => rfl) above below
  · exact yields_overbrace baseYields (supYields label rfl) (supBare label rfl) below
  · exact yields_underbrace baseYields (subYields label rfl) (subBare label rfl) above
  · rw [converted]
    refine yields_scripted scripted (fun passed node after given inCall => ?_) above below
    rw [(baseYields given).lines, settles_closed _ baseEnds]

/-- The delimiters of a pair that grows are both written. -/
theorem written_of_growingPairs {opening closing : String}
    (grows : growingPairs.contains (opening ++ closing) = true) : opening ≠ "." ∧ closing ≠ "." := by
  have noPoint : ∀ pair ∈ growingPairs, '.' ∉ pair.toList := by decide
  have pointless := noPoint _ (List.contains_iff_mem.mp grows)
  rw [String.toList_append, List.mem_append, not_or] at pointless
  exact ⟨fun isPoint => pointless.1 (by simp [isPoint]),
    fun isPoint => pointless.2 (by simp [isPoint])⟩

/-- A delimiter is written as one sign, and a point as nothing. -/
theorem yields_delimiter (token : Tex.Token) :
    Yields (delimiter (Tex.Parser.delimiter token).content
      (convert settings (Tex.Parser.delimiter token))) fun node =>
      ∀ inCall, ((Tex.Parser.delimiter token).content = "." ∧ node.pieces inCall = []) ∨
        ∃ sign, node.pieces inCall = [sign] ∧ role sign = .other := by
  unfold delimiter
  split
  · rename_i isPoint
    exact .pure fun _ => .inl ⟨isPoint, rfl⟩
  · unfold Tex.Parser.delimiter
    by_cases isCommand : token.kind = .command
    · rw [if_pos isCommand, convert]
      exact .pure fun inCall => .inr (Typst.exists_pieces_symbol inCall _)
    · rw [if_neg isCommand, convert]
      exact .pure fun inCall => .inr (Typst.exists_pieces_symbol inCall _)

theorem endsLines_between {next : Following} {left inner right : List Typst.Piece}
    (leftSigns : ∀ piece ∈ left, role piece = .other)
    (rightSigns : ∀ piece ∈ right, role piece = .other) (followed : opening next right = .other) :
    endsLines next (left ++ (inner ++ right)) = endsLines .other inner := by
  rw [endsLines_append, Typst.endsLines_signs leftSigns, Bool.true_and, endsLines_append, followed,
    Typst.endsLines_signs rightSigns, Bool.and_true]

theorem yields_leftright {opening closing : Tex.Token} {body : Node}
    (bodyYields : Yields (convert settings body) (Written body))
    (bodyEnds : endsInComment body = false) :
    Yields (convert settings
        (.leftright "" (Tex.Parser.delimiter opening) body (Tex.Parser.delimiter closing)))
      (Written (.leftright "" (Tex.Parser.delimiter opening) body (Tex.Parser.delimiter closing))) := by
  rw [convert]
  refine (yields_delimiter opening).bind fun left leftSign => bodyYields.bind fun inner written =>
    (yields_delimiter closing).bind fun right rightSign => ?_
  have bodyLines (inCall : Bool) : endsLines .other (inner.pieces inCall) = !hides .other body := by
    rw [written.lines, settles_closed _ bodyEnds]
  have signs {token : Tex.Token} {pieces : List Typst.Piece}
      (isSign : ((Tex.Parser.delimiter token).content = "." ∧ pieces = []) ∨
        ∃ sign, pieces = [sign] ∧ role sign = .other) : ∀ piece ∈ pieces, role piece = .other := by
    rcases isSign with ⟨-, rfl⟩ | ⟨sign, rfl, plain⟩
    · simp
    · simpa using plain
  have pieces (inCall : Bool) : (Typst.Node.group "" [left, inner, right]).pieces inCall =
      left.pieces inCall ++ (inner.pieces inCall ++ right.pieces inCall) := by
    simp [Typst.Node.pieces, Typst.Node.piecesOfEach]
  dsimp only
  split
  · rename_i grows
    obtain ⟨opens, closes⟩ := written_of_growingPairs grows
    refine .pure (.of_closed (fun _ => rfl) rfl fun inCall next => ?_)
    obtain ⟨leftPiece, leftWritten, leftPlain⟩ := (leftSign inCall).resolve_left (opens ·.1)
    obtain ⟨rightPiece, rightWritten, rightPlain⟩ := (rightSign inCall).resolve_left (closes ·.1)
    rw [pieces, endsLines_between (signs (leftSign inCall)) (signs (rightSign inCall))
      (by rw [rightWritten, opening_cons rightPlain]), bodyLines, leftWritten]
    exact ⟨opening_cons leftPlain _, rfl⟩
  · refine .pure (.of_closed (fun _ => rfl) rfl fun inCall next => ?_)
    refine ⟨(Typst.lines_unaryFunc _ _).1, ?_⟩
    have followed : Lines.opening .other (right.pieces true) = .other := by
      rcases rightSign true with ⟨-, nothing⟩ | ⟨sign, written, plain⟩
      · rw [nothing, opening_nil]
      · rw [written, opening_cons plain]
    rw [(Typst.lines_unaryFunc _ _).2, pieces,
      endsLines_between (signs (leftSign true)) (signs (rightSign true)) followed, bodyLines]
    rfl

/-- The written form of a tidy tree has the lines of the tree. -/
theorem yields_of_tidy {tree : Node} (tidy : Tidy tree) :
    Yields (convert settings tree) (Written tree) := by
  induction tidy with
  | leaf kind content => exact yields_leaf kind content
  | ordgroup lines tidy bare inductionHypothesis =>
    rw [convert]
    exact (yields_convertAll inductionHypothesis).map fun nodes written =>
      written_group written lines bare
  | supsub scripted baseTidy baseEnds supTidy supBare subTidy subBare baseYields supYields subYields =>
    exact yields_supsub scripted baseYields baseEnds supYields supBare subYields subBare
  | unaryFunc named indexed argTidy argBare indexTidy indexEnds argYields indexYields =>
    exact yields_unaryFunc named indexed argYields argBare indexYields indexEnds
  | binaryFunc firstTidy firstBare secondTidy secondBare firstYields secondYields =>
    exact yields_binaryFunc firstYields firstBare secondYields secondBare
  | leftright bodyTidy bodyEnds bodyYields => exact yields_leftright bodyYields bodyEnds
  | beginend cells rowsEnd cellsEnd inductionHypothesis =>
    rw [convert]
    exact (yields_convertRows inductionHypothesis).map fun nodes written =>
      written_environment written rowsEnd cellsEnd

end Conversions

end MathMarkup.Conversion

namespace MathMarkup.Formula

open Lines
open Tex (Node)
open Tex.Lexer (tokens_of_step)

/-- A source without macros is read as a tidy tree. -/
theorem tidy_of_treeOf {options : Options} {symbols : Symbol.Table} {source : String} {tree : Node}
    (noMacros : options.macros = []) (read : treeOf options symbols source = .ok tree) :
    Tex.Grammar.Tidy tree := by
  unfold treeOf at read
  obtain ⟨tokens, lexed, read⟩ := bind_eq_ok_iff.mp read
  rw [noMacros, Tex.MacroTable.expand_nil] at read
  have ended := Tex.Lexer.endsLines_tokens lexed
  exact Tex.Grammar.tidy_of_parseTokens rfl (Tex.endsLines_dropScriptSpacingAfter none ended) read

/-- Without macros a comment of the source hides nothing of what is written, except where
it is an operand without braces, where its line break has scripts, and at the end of an
environment that something follows on the same line. -/
theorem commentsEndLines_queue_iff (options : Options) (symbols : Symbol.Table) (source : String)
    (tree : Node) (node : Typst.Node) (passed : List String) (noMacros : options.macros = [])
    (read : treeOf options symbols source = .ok tree)
    (converted : Conversion.convert (settingsOf options symbols) tree [] = .ok node passed) :
    Typst.CommentsEndLines (Typst.Writer.append node {}).queue ↔
      Conversion.hides .nothing tree = false := by
  have written := Conversion.yields_of_tidy (tidy_of_treeOf noMacros read) converted
  have settled : Conversion.settles .nothing tree = !Conversion.hides .nothing tree := by
    simp [Conversion.settles]
  rw [Typst.Writer.queue_append, List.nil_append, Typst.commentsEndLines_iff, written.lines, settled,
    Bool.not_eq_true']

/-- A line break follows the first comment, and the second one is the last thing written. -/
theorem commentsEndLines_alignment :
    ∃ tree node, treeOf {} [] "b%d\n\\begin\x7balign\x7da%c\n\\end\x7balign\x7d" = .ok tree ∧
      Conversion.convert (settingsOf {} []) tree [] = .ok node [] ∧
      Typst.CommentsEndLines (Typst.Writer.append node {}).queue := by
  have lexed : Tex.tokenize "b%d\n\\begin\x7balign\x7da%c\n\\end\x7balign\x7d" = .ok [⟨.element, "b"⟩,
      ⟨.comment, "d"⟩, ⟨.newline, "\n"⟩, .beginEnvironment, .openBrace, ⟨.text, "align"⟩, .closeBrace,
      ⟨.element, "a"⟩, ⟨.comment, "c"⟩, ⟨.newline, "\n"⟩, .endEnvironment, .openBrace,
      ⟨.text, "align"⟩, .closeBrace] :=
    tokens_of_step [⟨.element, "b"⟩] "%d\n\\begin\x7balign\x7da%c\n\\end\x7balign\x7d" rfl <|
    tokens_of_step [⟨.comment, "d"⟩] "\n\\begin\x7balign\x7da%c\n\\end\x7balign\x7d" rfl <|
    tokens_of_step [⟨.newline, "\n"⟩] "\\begin\x7balign\x7da%c\n\\end\x7balign\x7d" rfl <|
    tokens_of_step [.beginEnvironment, .openBrace, ⟨.text, "align"⟩, .closeBrace]
      "a%c\n\\end\x7balign\x7d" rfl <|
    tokens_of_step [⟨.element, "a"⟩] "%c\n\\end\x7balign\x7d" rfl <|
    tokens_of_step [⟨.comment, "c"⟩] "\n\\end\x7balign\x7d" rfl <|
    tokens_of_step [⟨.newline, "\n"⟩] "\\end\x7balign\x7d" rfl <|
    tokens_of_step [.endEnvironment, .openBrace, ⟨.text, "align"⟩, .closeBrace] "" rfl
      Tex.Lexer.tokens_nil
  have read : treeOf {} [] "b%d\n\\begin\x7balign\x7da%c\n\\end\x7balign\x7d" =
      .ok (.ordgroup "" [.element "b", .leaf .comment "d", .leaf .newline "\n",
        .beginend "align" [[.ordgroup "" [.element "a", .leaf .comment "c"]]]]) := by
    unfold treeOf
    rw [lexed]
    cbv
  exact ⟨_, .group "" [.symbol "b", .leaf .comment "d", .leaf .newline "\n",
      .align "" [[.group "" [.symbol "a", .leaf .comment "c"]]]], read, rfl,
    (commentsEndLines_queue_iff {} [] _ _ _ [] rfl read rfl).mpr rfl⟩

/-- The line break before the end of a matrix is lost, so that the comment before it hides
the parenthesis that closes the call. -/
theorem comment_hides_parenthesis :
    ∃ tree node, treeOf {} [] "\\begin\x7bmatrix\x7da%c\n\\end\x7bmatrix\x7d" = .ok tree ∧
      Conversion.convert (settingsOf {} []) tree [] = .ok node [] ∧
      ¬ Typst.CommentsEndLines (Typst.Writer.append node {}).queue := by
  have lexed : Tex.tokenize "\\begin\x7bmatrix\x7da%c\n\\end\x7bmatrix\x7d" = .ok [.beginEnvironment,
      .openBrace, ⟨.text, "matrix"⟩, .closeBrace, ⟨.element, "a"⟩, ⟨.comment, "c"⟩, ⟨.newline, "\n"⟩,
      .endEnvironment, .openBrace, ⟨.text, "matrix"⟩, .closeBrace] :=
    tokens_of_step [.beginEnvironment, .openBrace, ⟨.text, "matrix"⟩, .closeBrace]
      "a%c\n\\end\x7bmatrix\x7d" rfl <|
    tokens_of_step [⟨.element, "a"⟩] "%c\n\\end\x7bmatrix\x7d" rfl <|
    tokens_of_step [⟨.comment, "c"⟩] "\n\\end\x7bmatrix\x7d" rfl <|
    tokens_of_step [⟨.newline, "\n"⟩] "\\end\x7bmatrix\x7d" rfl <|
    tokens_of_step [.endEnvironment, .openBrace, ⟨.text, "matrix"⟩, .closeBrace] "" rfl
      Tex.Lexer.tokens_nil
  refine ⟨.beginend "matrix" [[.ordgroup "" [.element "a", .leaf .comment "c"]]],
    .matrix .mat (some "#none") [[.group "" [.symbol "a", .leaf .comment "c"]]], ?_, rfl, ?_⟩
  · unfold treeOf
    rw [lexed]
    cbv
  · rw [Typst.commentsEndLines_iff]
    decide

end MathMarkup.Formula
