import MathMarkup.Proofs.Realization

/-!
# The shape of parsed trees

`Shape` has one rule for each kind of tree that a formula can be read as. It forgets
the tokens that the tree was read from, so that what holds of every parsed tree is
shown by induction on the tree alone.
-/

namespace MathMarkup.Tex

namespace Grid

/-- Every cell so far consists of parts with the property. -/
structure Draft.Consists (property : Node → Prop) (draft : Draft) : Prop where
  rows : ∀ row ∈ draft.rows, ∀ node ∈ row, ∃ items, node = cell items ∧ ∀ item ∈ items, property item
  row : ∀ node ∈ draft.row, ∃ items, node = cell items ∧ ∀ item ∈ items, property item
  parts : ∀ item ∈ draft.parts, property item

namespace Draft.Consists

variable {property : Node → Prop} {draft : Draft}

theorem endCell (consists : draft.Consists property) : draft.endCell.Consists property where
  rows := consists.rows
  row := by
    intro node member
    rcases List.mem_append.mp member with inRow | isLast
    · exact consists.row node inRow
    · exact ⟨draft.parts, List.mem_singleton.mp isLast, consists.parts⟩
  parts := by
    intro item member
    cases member

theorem endRow (consists : draft.Consists property) : draft.endRow.Consists property where
  rows := by
    intro row member
    rcases List.mem_append.mp member with inRows | isLast
    · exact consists.rows row inRows
    · rw [List.mem_singleton.mp isLast]
      exact consists.endCell.row
  row := by
    intro node member
    cases member
  parts := by
    intro item member
    cases member

theorem add {part : Node} (consists : draft.Consists property)
    (holds : isCellMark part = false → property part) : (draft.add part).Consists property := by
  unfold Draft.add
  split
  · exact consists
  split
  · exact consists.endRow
  split
  · exact consists.endCell
  · rename_i noMark
    refine ⟨consists.rows, consists.row, fun item member => ?_⟩
    rcases List.mem_append.mp member with inParts | isLast
    · exact consists.parts item inParts
    · rw [List.mem_singleton.mp isLast]
      exact holds (by simpa using noMark)

theorem foldl_add {parts : List Node} (consists : draft.Consists property)
    (holds : ∀ part ∈ parts, isCellMark part = false → property part) :
    (parts.foldl Draft.add draft).Consists property := by
  induction parts generalizing draft with
  | nil => exact consists
  | cons part rest inductionHypothesis =>
    exact inductionHypothesis (consists.add (holds part (by simp))) fun other member =>
      holds other (List.mem_cons_of_mem _ member)

end Draft.Consists

/-- A cell of a grid consists of parts, none of which is a cell mark. -/
theorem cells_ofParts (property : Node → Prop) {parts : List Node}
    (holds : ∀ part ∈ parts, isCellMark part = false → property part) :
    ∀ row ∈ ofParts parts, ∀ node ∈ row,
      ∃ items, node = cell items ∧ ∀ item ∈ items, property item := by
  have initial : Draft.Consists property {} := by
    constructor <;> simp
  have consists := initial.foldl_add holds
  unfold ofParts Draft.finish
  split
  · split
    · exact consists.rows
    · exact consists.endRow.rows
  · exact consists.endRow.rows

end Grid

namespace Grammar

/-- The trees that formulas are read as. -/
inductive Shape (options : ParseOptions) : Node → Prop where
  | leaf {token : Token} {node : Node} (plain : leafOf? token = some node) : Shape options node
  | empty : Shape options .empty
  | constant {command : String} (arity : Arity.ofName (commandName command) = .constant)
      (single : commandName command ∉ pairedNames) :
      Shape options
        (.leaf (if options.symbols.knows (commandName command) then .symbol else .unknownMacro)
          command)
  | group {parts : List Node} (shapes : ∀ part ∈ parts, Shape options part)
      (noMark : ∀ part ∈ parts, Grid.isCellMark part = false) : Shape options (.group parts)
  | scripted {base : Node} {scripts : Parser.Scripts} (baseShape : Shape options base)
      (supShape : ∀ script ∈ scripts.sup, Shape options script)
      (subShape : ∀ script ∈ scripts.sub, Shape options script) :
      Shape options (scripts.attach base)
  | operator (content : String) : Shape options (.unaryFunc "\\operatorname" (.text content) none)
  | root {arg : Node} {index : Option Node} (argShape : Shape options arg)
      (indexShape : ∀ node ∈ index, Shape options node)
      (noMark : ∀ node ∈ index, Grid.isCellMark node = false) :
      Shape options (.unaryFunc "\\sqrt" arg index)
  | unaryFunc {command : String} {arg : Node}
      (arity : Arity.ofName (commandName command) = .unary)
      (math : command ≠ "\\text" ∧ command ≠ "\\operatorname" ∧ command ≠ "\\sqrt")
      (argShape : Shape options arg) : Shape options (.unaryFunc command arg none)
  | binaryFunc {command : String} {first second : Node}
      (arity : Arity.ofName (commandName command) = .binary) (firstShape : Shape options first)
      (secondShape : Shape options second) : Shape options (.binaryFunc command first second)
  | leftright {opening closing : Token} {body : Node} (opens : opening.isDelimiter = true)
      (closes : closing.isDelimiter = true) (bodyShape : Shape options body)
      (noMark : Grid.isCellMark body = false) :
      Shape options (.leftright "" (Parser.delimiter opening) body (Parser.delimiter closing))
  | emptyCell : Shape options (.ordgroup "" [])
  | beginend {name : String} {rows : List (List Node)}
      (cells : ∀ row ∈ rows, ∀ cell ∈ row, Shape options cell)
      (noMark : ∀ row ∈ rows, ∀ cell ∈ row, Grid.isCellMark cell = false) :
      Shape options (.beginend name rows)

/-- A token by itself is read as a leaf. A control token is a row mark, a cell mark or a
thin space, and no token by itself is a command. -/
theorem eq_leaf_of_leafOf? {token : Token} {node : Node} (plain : leafOf? token = some node) :
    ∃ kind content, node = .leaf kind content ∧ kind ≠ .unknownMacro ∧
      (kind = .control → content ∈ ["\\\\", "\\,", "&"]) := by
  obtain ⟨kind, value⟩ := token
  cases kind with
  | command => cases plain
  | control =>
    change (if ["\\\\", "\\,", "&"].contains value then some (Node.leaf .control value) else none) =
      some node at plain
    split at plain
    · rename_i listed
      cases plain
      exact ⟨_, _, rfl, by simp, fun _ => by simpa using listed⟩
    · cases plain
  | element | unknown | text | comment | whitespace | newline =>
    cases plain
    exact ⟨_, _, rfl, by simp, by simp⟩

/-- Parts side by side are no cell mark if none of them is. -/
theorem isCellMark_group {parts : List Node}
    (noMark : ∀ part ∈ parts, Grid.isCellMark part = false) :
    Grid.isCellMark (.group parts) = false := by
  match parts with
  | [] => rfl
  | [part] => exact noMark part (by simp)
  | first :: second :: rest => rfl

section Properties

/-- Items have a property that everything read as an item has. -/
theorem Items.all {α : Type} {item : ReadingOf α} {property : α → Prop}
    (each : ∀ ⦃input value rest⦄, item input value rest → property value) {input : List Token}
    {values : List α} (read : Items item input values) : ∀ value ∈ values, property value := by
  induction read with
  | nil => simp
  | cons first others inductionHypothesis =>
    exact List.forall_mem_cons.mpr ⟨each first, inductionHypothesis⟩

/-- Scripts have a property that everything read as an operand has. -/
theorem ScriptsOf.all {operand : Reading} {property : Node → Prop}
    (each : ∀ ⦃input node rest⦄, operand input node rest → property node)
    {input rest : List Token} {scripts : Parser.Scripts}
    (attached : ScriptsOf operand input scripts rest) :
    (∀ script ∈ scripts.sup, property script) ∧ ∀ script ∈ scripts.sub, property script := by
  cases attached with
  | none primes rest => simp
  | sub primes morePrimes script => simpa using each script
  | subSup primes morePrimes first second => simpa using ⟨each second, each first⟩
  | sup primes script => simpa using each script
  | supSub primes first second => simpa using ⟨each first, each second⟩

end Properties

section Shapes

variable {options : ParseOptions} {inner : Reading}

/-- Everything that is read has the shape of a tree. -/
def Shapely (options : ParseOptions) (reading : Reading) : Prop :=
  ∀ ⦃input node rest⦄, reading input node rest → Shape options node

theorem Scripted.shape (shapely : Shapely options inner) : Shapely options (Scripted inner) := by
  rintro input node rest ⟨base, attached, -⟩
  obtain ⟨supShape, subShape⟩ := attached.all shapely
  exact .scripted (shapely base) supShape subShape

theorem Sequence.shape {input : List Token} {node : Node} (shapely : Shapely options inner)
    (read : Sequence inner options input node) :
    Shape options node ∧ Grid.isCellMark node = false := by
  obtain ⟨partsRead, noMark⟩ := read
  rename_i parts
  have kept {part : Node} (member : part ∈ parts.filter (Parser.keeps options)) : part ∈ parts :=
    (List.mem_filter.mp member).1
  exact ⟨.group (fun part member => partsRead.all (Scripted.shape shapely) part (kept member))
      fun part member => noMark part (kept member),
    isCellMark_group fun part member => noMark part (kept member)⟩

theorem Rows.shape {input : List Token} {rows : List (List Node)} (shapely : Shapely options inner)
    (read : Rows inner input rows) (name : String) : Shape options (.beginend name rows) := by
  obtain ⟨partsRead⟩ := read
  have cells := Grid.cells_ofParts (fun part => Shape options part ∧ Grid.isCellMark part = false)
    fun part member noMark => ⟨partsRead.all (Scripted.shape shapely) part member, noMark⟩
  have cellShape : ∀ items : List Node,
      (∀ item ∈ items, Shape options item ∧ Grid.isCellMark item = false) →
      Shape options (Grid.cell items) ∧ Grid.isCellMark (Grid.cell items) = false := by
    intro items holds
    cases items with
    | nil => exact ⟨.emptyCell, rfl⟩
    | cons first rest =>
      have noMark := fun item member => (holds item member).2
      exact ⟨.group (fun item member => (holds item member).1) noMark, isCellMark_group noMark⟩
  refine .beginend ?_ ?_
  · intro row isRow cell isCell
    obtain ⟨items, rfl, holds⟩ := cells row isRow cell isCell
    exact (cellShape items holds).1
  · intro row isRow cell isCell
    obtain ⟨items, rfl, holds⟩ := cells row isRow cell isCell
    exact (cellShape items holds).2

theorem Argument.shape (shapely : Shapely options inner) : Shapely options (Argument inner) := by
  rintro input node rest ⟨passed, solid, inside, read⟩
  exact shapely read

theorem CommandAt.shape {command : String} (shapely : Shapely options inner) :
    Shapely options (CommandAt inner options command) := by
  intro input node rest read
  have argumentShape := Argument.shape shapely
  cases read with
  | constant arity single => exact .constant arity single
  | unary arity read =>
    cases read with
    | text isText content rest =>
      have plain : leafOf? ⟨.text, content⟩ = some (.text content) := rfl
      exact .leaf plain
    | operator isOperator content rest =>
      rw [isOperator]
      exact .operator content
    | @root input middle rest index arg isRoot indexRead argument =>
      have indexShape : ∀ node ∈ index, Shape options node ∧ Grid.isCellMark node = false := by
        cases indexRead with
        | some passed balanced inside =>
          rintro node ⟨⟩
          exact inside.shape shapely
        | none absent => simp
      rw [isRoot]
      exact .root (argumentShape argument) (fun node member => (indexShape node member).1)
        fun node member => (indexShape node member).2
    | other math argument => exact .unaryFunc arity math (argumentShape argument)
  | binary arity firstArgument secondArgument =>
    exact .binaryFunc arity (argumentShape firstArgument) (argumentShape secondArgument)

theorem Operand.shape (shapely : Shapely options inner) :
    Shapely options (Operand options inner) := by
  intro input node rest read
  cases read with
  | leaf plain => exact .leaf plain
  | missingBase mark rest => exact .empty
  | group balanced inside => exact (inside.shape shapely).1
  | command read => exact CommandAt.shape shapely read
  | leftRight read =>
    obtain ⟨passed, opens, balanced, inside, morePassed, closes⟩ := read
    obtain ⟨bodyShape, noMark⟩ := inside.shape shapely
    exact .leftright opens closes bodyShape noMark
  | environment read =>
    obtain ⟨split, balanced, specification, grid⟩ := read
    exact grid.shape shapely _

theorem Reads.shape (options : ParseOptions) (depth : Nat) :
    Shapely options (Reads options depth) := by
  induction depth with
  | zero => exact fun _ _ _ read => read.elim
  | succ depth inductionHypothesis => exact Operand.shape inductionHypothesis

end Shapes

/-- A formula is read as a tree of the given shapes, which is no cell mark. -/
theorem shape_of_parseTokens {options : ParseOptions} {tokens : List Token} {tree : Node}
    (parsed : parseTokens options tokens = .ok tree) :
    Shape options tree ∧ Grid.isCellMark tree = false :=
  (parseTokens_eq_ok_iff.mp parsed).shape (Reads.shape options _)

end Grammar
end MathMarkup.Tex
