import MathMarkup.Proofs.GridSplitting
import MathMarkup.Proofs.Realization

/-!
# Printing a formula

`Node.print` gives the tokens of a tree, with braces around every part that could be
read in another way without them. `Canonical` singles out the trees that a formula can
be read as: reading the tokens of such a tree gives back the tree.
-/

namespace MathMarkup.Tex

/-- The tokens between braces. -/
def braced (tokens : List Token) : List Token :=
  .openBrace :: tokens ++ [.closeBrace]

@[simp]
theorem length_braced (tokens : List Token) : (braced tokens).length = tokens.length + 2 := by
  simp [braced]

/-- A text between braces. -/
def bracedText (content : String) : List Token :=
  braced [⟨.text, content⟩]

/-- The mark between two rows. -/
def rowMark : Token := ⟨.control, "\\\\"⟩

/-- The mark between two cells. -/
def cellMark : Token := ⟨.control, "&"⟩

/-- The tokens of a leaf. -/
def leafTokens (kind : LeafKind) (content : String) : List Token :=
  match kind with
  | .empty => []
  | .element => [⟨.element, content⟩]
  | .text => ⟨.command, "\\text"⟩ :: bracedText content
  | .comment => [⟨.comment, content⟩]
  | .whitespace => [⟨.whitespace, content⟩]
  | .newline => [⟨.newline, content⟩]
  | .control => [⟨.control, content⟩]
  | .symbol | .unknownMacro => [⟨.command, content⟩]

/-- The token of a delimiter. -/
def delimiterToken : Node → Token
  | .leaf .symbol content => ⟨.command, content⟩
  | node => ⟨.element, node.content⟩

/-- The tokens of an argument. The name of an operator is text. -/
def argumentTokens (command : String) (arg : Node) (printed : List Token) : List Token :=
  match command, arg with
  | "\\operatorname", .leaf .text content => bracedText content
  | _, _ => braced printed

/-- The tokens of a cell, none if it is empty. -/
def cellTokens (cell : Node) (printed : List Token) : List Token :=
  if Grid.isEmptyCell cell then [] else braced printed

/-- The tokens of rows of cells. -/
def gridTokens (cells : List (List (List Token))) : List Token :=
  List.intercalate [rowMark] (cells.map (List.intercalate [cellMark]))

/-- The column specification of an environment: an array has one, without columns. -/
def columnTokens (name : String) : List Token :=
  if name = "array" then braced [] else []

/-- The tokens of an environment. -/
def environmentTokens (name : String) (grid : List Token) : List Token :=
  .beginEnvironment :: bracedText name ++ columnTokens name ++ grid
    ++ .endEnvironment :: bracedText name

namespace Node

mutual

/-- The tokens of a tree. -/
def print : Node → List Token
  | leaf kind content => leafTokens kind content
  | ordgroup _ args => (printEach args).flatten
  | supsub _ base sup sub =>
    braced (print base) ++ printScript .subscript sub ++ printScript .superscript sup
  | unaryFunc command arg index =>
    ⟨.command, command⟩ :: printIndex index ++ argumentTokens command arg (print arg)
  | binaryFunc command first second =>
    ⟨.command, command⟩ :: braced (print first) ++ braced (print second)
  | leftright _ opening body closing =>
    .left :: delimiterToken opening :: print body ++ [.right, delimiterToken closing]
  | beginend name rows => environmentTokens name (gridTokens (printRows rows))

/-- The tokens of a script after its mark, none if there is no script. -/
def printScript (mark : Token.ScriptMark) : Option Node → List Token
  | none => []
  | some script => Grammar.markToken mark :: braced (print script)

/-- The tokens of an index between brackets, none if there is no index. -/
def printIndex : Option Node → List Token
  | none => []
  | some index => .openBracket :: print index ++ [.closeBracket]

/-- The tokens of each of some parts, in braces. -/
def printEach : List Node → List (List Token)
  | [] => []
  | part :: rest => braced (print part) :: printEach rest

/-- The tokens of each cell of a row. -/
def printCells : List Node → List (List Token)
  | [] => []
  | cell :: rest => cellTokens cell (print cell) :: printCells rest

/-- The tokens of each cell of some rows. -/
def printRows : List (List Node) → List (List (List Token))
  | [] => []
  | row :: rest => printCells row :: printRows rest

end

@[simp]
theorem print_leaf (kind : LeafKind) (content : String) :
    print (leaf kind content) = leafTokens kind content := rfl

@[simp]
theorem print_ordgroup (content : String) (args : List Node) :
    print (ordgroup content args) = (printEach args).flatten := rfl

@[simp]
theorem print_supsub (content : String) (base : Node) (sup sub : Option Node) :
    print (supsub content base sup sub) =
      braced (print base) ++ printScript .subscript sub ++ printScript .superscript sup := rfl

@[simp]
theorem print_unaryFunc (command : String) (arg : Node) (index : Option Node) :
    print (unaryFunc command arg index) =
      ⟨.command, command⟩ :: printIndex index ++ argumentTokens command arg (print arg) := rfl

@[simp]
theorem print_binaryFunc (command : String) (first second : Node) :
    print (binaryFunc command first second) =
      ⟨.command, command⟩ :: braced (print first) ++ braced (print second) := rfl

@[simp]
theorem print_leftright (content : String) (opening body closing : Node) :
    print (leftright content opening body closing) =
      .left :: delimiterToken opening :: print body ++ [.right, delimiterToken closing] := rfl

@[simp]
theorem print_beginend (name : String) (rows : List (List Node)) :
    print (beginend name rows) = environmentTokens name (gridTokens (printRows rows)) := rfl

@[simp]
theorem printScript_none (mark : Token.ScriptMark) : printScript mark none = [] := rfl

@[simp]
theorem printScript_some (mark : Token.ScriptMark) (script : Node) :
    printScript mark (some script) = Grammar.markToken mark :: braced (print script) := rfl

@[simp]
theorem printIndex_none : printIndex none = [] := rfl

@[simp]
theorem printIndex_some (index : Node) :
    printIndex (some index) = .openBracket :: print index ++ [.closeBracket] := rfl

end Node

namespace Grammar

/-- The part can be a cell by itself: it is neither dropped as layout nor taken for
the end of a row. -/
def StandsInCell (node : Node) : Prop :=
  Grid.isIgnored [] node = false ∧ Grid.isRowMark node = false

/-- The trees that formulas are read as, given the commands that are known. -/
inductive Canonical (symbols : Symbol.Table) : Node → Prop where
  | empty : Canonical symbols .empty
  | element (content : String) : Canonical symbols (.element content)
  | text (content : String) : Canonical symbols (.text content)
  | comment (content : String) : Canonical symbols (.leaf .comment content)
  | newline : Canonical symbols (.leaf .newline "\n")
  | control {content : String} (space : content = "\\\\" ∨ content = "\\,") :
      Canonical symbols (.leaf .control content)
  | constant {command : String} (arity : Arity.ofName (commandName command) = .constant)
      (single : commandName command ∉ pairedNames) :
      Canonical symbols
        (.leaf (if symbols.knows (commandName command) then .symbol else .unknownMacro) command)
  | ordgroup {args : List Node} (several : 2 ≤ args.length)
      (parts : ∀ arg ∈ args, Canonical symbols arg) : Canonical symbols (.ordgroup "" args)
  | supsub {base : Node} {sup sub : Option Node} (scripted : sup.isSome ∨ sub.isSome)
      (canonicalBase : Canonical symbols base)
      (canonicalSup : ∀ script ∈ sup, Canonical symbols script)
      (canonicalSub : ∀ script ∈ sub, Canonical symbols script) :
      Canonical symbols (.supsub "" base sup sub)
  | operator (content : String) :
      Canonical symbols (.unaryFunc "\\operatorname" (.text content) none)
  | unaryFunc {command : String} {arg : Node}
      (arity : Arity.ofName (commandName command) = .unary)
      (math : command ≠ "\\text" ∧ command ≠ "\\operatorname")
      (canonicalArg : Canonical symbols arg) : Canonical symbols (.unaryFunc command arg none)
  | root {arg index : Node} (canonicalArg : Canonical symbols arg)
      (canonicalIndex : Canonical symbols index)
      (balanced : Balanced .openBracket .closeBracket index.print) :
      Canonical symbols (.unaryFunc "\\sqrt" arg (some index))
  | binaryFunc {command : String} {first second : Node}
      (arity : Arity.ofName (commandName command) = .binary)
      (canonicalFirst : Canonical symbols first) (canonicalSecond : Canonical symbols second) :
      Canonical symbols (.binaryFunc command first second)
  | leftright {opening closing : Token} {body : Node} (opens : opening.isDelimiter = true)
      (closes : closing.isDelimiter = true) (canonicalBody : Canonical symbols body) :
      Canonical symbols
        (.leftright "" (Parser.delimiter opening) body (Parser.delimiter closing))
  | beginend {name : String} {rows : List (List Node)} (nonempty : rows ≠ [])
      (filled : ∀ row ∈ rows, row ≠ [])
      (ended : 1 < rows.length → rows.getLast? ≠ some [.ordgroup "" []])
      (cells : ∀ row ∈ rows, ∀ cell ∈ row, cell ≠ .ordgroup "" [] → Canonical symbols cell)
      (stands : ∀ row ∈ rows, ∀ cell ∈ row, StandsInCell cell) :
      Canonical symbols (.beginend name rows)

section Phrases

variable {operand : Reading}

/-- The tokens are read as the node whatever follows, and end the scripts before them. -/
structure Standing (operand : Reading) (tokens : List Token) (node : Node) : Prop where
  settled : ∀ rest, Settled (tokens ++ rest)
  read : ∀ rest, operand (tokens ++ rest) node rest

/-- The tokens are read as the parts, in front of whatever ends the scripts before it. -/
def Phrase (operand : Reading) (tokens : List Token) (parts : List Node) : Prop :=
  ∀ ⦃rest : List Token⦄ ⦃following : List Node⦄, Settled rest → Parts operand rest following →
    Settled (tokens ++ rest) ∧ Parts operand (tokens ++ rest) (parts ++ following)

theorem settled_nil : Settled [] := by
  simp [Settled]

theorem Phrase.nil : Phrase operand [] [] := fun _ _ settled read => ⟨settled, read⟩

theorem Phrase.append {tokens others : List Token} {parts otherParts : List Node}
    (first : Phrase operand tokens parts) (second : Phrase operand others otherParts) :
    Phrase operand (tokens ++ others) (parts ++ otherParts) := by
  intro rest following settled read
  obtain ⟨otherSettled, otherRead⟩ := second settled read
  simpa using first otherSettled otherRead

/-- A phrase by itself is a list of parts. -/
theorem Phrase.parts {tokens : List Token} {parts : List Node}
    (phrase : Phrase operand tokens parts) : Parts operand tokens parts := by
  simpa using (phrase settled_nil .nil).2

/-- What is read as a node whatever follows is a part with no scripts of its own. -/
theorem Standing.scripted {tokens rest : List Token} {node : Node}
    (standing : Standing operand tokens node) (settled : Settled rest) :
    Scripted operand (tokens ++ rest) node rest :=
  .intro (standing.read rest) (.none 0 rest) settled

/-- Tokens that are read as one part are not empty. -/
theorem parts_of_scripted {tokens rest : List Token} {node : Node} {following : List Node}
    (progresses : Progresses operand) (first : Scripted operand tokens node rest)
    (others : Parts operand rest following) : Parts operand tokens (node :: following) := by
  cases tokens with
  | nil =>
    have shorter := first.length_lt progresses
    simp at shorter
  | cons token tail => exact .cons first others

theorem Standing.phrase {tokens : List Token} {node : Node} (progresses : Progresses operand)
    (standing : Standing operand tokens node) : Phrase operand tokens [node] := by
  intro rest following settled read
  exact ⟨standing.settled rest, parts_of_scripted progresses (standing.scripted settled) read⟩

/-- Parts one after the other, each of which is a phrase. -/
theorem Phrase.flatten (tokensOf : Node → List Token) {parts : List Node}
    (phrases : ∀ part ∈ parts, Phrase operand (tokensOf part) [part]) :
    Phrase operand (parts.map tokensOf).flatten parts := by
  induction parts with
  | nil => exact Phrase.nil
  | cons first rest inductionHypothesis =>
    have restPhrase := inductionHypothesis fun part member =>
      phrases part (List.mem_cons_of_mem _ member)
    simpa using (phrases first (by simp)).append restPhrase

/-- Phrases with a separator between each two of them. -/
theorem Phrase.intercalate {α : Type} {separator : List Token} {separatorParts : List Node}
    (separates : Phrase operand separator separatorParts) (tokensOf : α → List Token)
    (partsOf : α → List Node) {items : List α}
    (phrases : ∀ item ∈ items, Phrase operand (tokensOf item) (partsOf item)) :
    Phrase operand (separator.intercalate (items.map tokensOf))
      (separatorParts.intercalate (items.map partsOf)) := by
  induction items with
  | nil => exact Phrase.nil
  | cons first rest inductionHypothesis =>
    have firstPhrase := phrases first (by simp)
    have restPhrase := inductionHypothesis fun item member =>
      phrases item (List.mem_cons_of_mem _ member)
    cases rest with
    | nil => simpa [List.intercalate] using firstPhrase
    | cons second others =>
      simpa [List.intercalate] using firstPhrase.append (separates.append restPhrase)

end Phrases

section Grids

/-- The node is a cell of a grid that is read part by part. -/
structure IsCell (node : Node) : Prop where
  stands : StandsInCell node
  noMark : Grid.isCellMark node = false
  plain : Grid.isEmptyCell node = true → node = .ordgroup "" []

open Grid

theorem IsCell.isFormula {node : Node} (isCell : IsCell node) : IsFormula node :=
  ⟨isCell.noMark, isCell.plain⟩

/-- Reading the parts of some rows gives back the rows. -/
theorem ofParts_gridParts {rows : List (List Node)} (nonempty : rows ≠ [])
    (filled : ∀ row ∈ rows, row ≠ []) (cells : ∀ row ∈ rows, ∀ cell ∈ row, IsCell cell)
    (ended : 1 < rows.length → rows.getLast? ≠ some [.ordgroup "" []]) :
    Grid.ofParts (gridParts rows) = rows := by
  have unbroken : rowBreaks rows = 0 := by
    refine List.countP_eq_zero.mpr fun cell inRows => ?_
    obtain ⟨row, isRow, inRow⟩ := List.mem_flatten.mp inRows
    simp [(cells row isRow cell inRow).stands.2]
  have kept : rows.map (List.map cellOf) = rows := by
    refine (List.map_congr_left fun row isRow => ?_).trans (List.map_id rows)
    refine (List.map_congr_left fun cell inRow => ?_).trans (List.map_id row)
    simp [cellOf, (cells row isRow cell inRow).stands.1]
  have notBlank : ¬ endsBlank rows = true := by
    intro blank
    simp only [endsBlank, Bool.and_eq_true, decide_eq_true_eq, Option.any_eq_true] at blank
    obtain ⟨several, last, isLast, single⟩ := blank
    obtain ⟨only, rfl, isEmpty⟩ := isSingle_iff.mp single
    have isCell := cells _ (List.mem_of_getLast? isLast) only (by simp)
    rw [isCell.plain isEmpty] at isLast
    exact ended several isLast
  rw [ofParts_eq_splitRows nonempty filled fun row isRow cell inRow =>
    (cells row isRow cell inRow).isFormula]
  simp only [splitRows, flatMap_of_unbroken unbroken, kept, if_neg notBlank]

end Grids

section Balance

/-- The openers and closers that the scans for whole parts of a formula look for. -/
def pairs : List (Token × Token) :=
  [(.openBrace, .closeBrace), (.left, .right), (.beginEnvironment, .endEnvironment)]

/-- The token is half of one of the pairs. -/
def isHalf (token : Token) : Bool :=
  pairs.any fun pair => token == pair.1 || token == pair.2

variable {opener closer : Token}

/-- Tokens that are no halves of pairs are balanced. -/
theorem balanced_of_noHalf (pair : (opener, closer) ∈ pairs) {tokens : List Token}
    (noHalf : ∀ token ∈ tokens, isHalf token = false) : Balanced opener closer tokens := by
  refine .ofNeutral fun token member => ?_
  have neither := noHalf token member
  simp only [isHalf, List.any_eq_false, Bool.or_eq_true, not_or, Bool.not_eq_true] at neither
  exact neither (opener, closer) pair

/-- Each pair is balanced next to the others. -/
theorem balanced_pair (pair : (opener, closer) ∈ pairs) (first second : Token)
    (other : (first, second) ∈ pairs) : Balanced opener closer [first, second] := by
  simp only [pairs, List.mem_cons, Prod.mk.injEq, List.not_mem_nil, or_false] at pair other
  rcases pair with ⟨rfl, rfl⟩ | ⟨rfl, rfl⟩ | ⟨rfl, rfl⟩ <;>
    rcases other with ⟨rfl, rfl⟩ | ⟨rfl, rfl⟩ | ⟨rfl, rfl⟩ <;> decide

theorem balanced_braced (pair : (opener, closer) ∈ pairs) {tokens : List Token}
    (balanced : Balanced opener closer tokens) : Balanced opener closer (braced tokens) :=
  balanced.insert [.openBrace] [.closeBrace] (balanced_pair pair _ _ (by decide))

theorem balanced_bracedText (pair : (opener, closer) ∈ pairs) (content : String) :
    Balanced opener closer (bracedText content) :=
  balanced_braced pair (balanced_of_noHalf pair (by simp [isHalf, pairs, Token.openBrace,
    Token.closeBrace, Token.left, Token.right, Token.beginEnvironment, Token.endEnvironment]))

/-- A formula between delimiters is balanced if it is without them. -/
theorem balanced_delimited (pair : (opener, closer) ∈ pairs) {opening closing : Token}
    {tokens : List Token} (noOpening : isHalf opening = false) (noClosing : isHalf closing = false)
    (balanced : Balanced opener closer tokens) :
    Balanced opener closer (.left :: opening :: tokens ++ [.right, closing]) := by
  have openingBalanced : Balanced opener closer [opening] :=
    balanced_of_noHalf pair (by simpa using noOpening)
  have closingBalanced : Balanced opener closer [closing] :=
    balanced_of_noHalf pair (by simpa using noClosing)
  have inside := openingBalanced.append balanced
  have commands := balanced_pair pair .left .right (by decide)
  simpa using (inside.insert [.left] [.right] commands).append closingBalanced

theorem balanced_columnTokens (pair : (opener, closer) ∈ pairs) (name : String) :
    Balanced opener closer (columnTokens name) := by
  unfold columnTokens
  split
  · exact balanced_braced pair .nil
  · exact .nil

theorem balanced_environmentTokens (pair : (opener, closer) ∈ pairs) (name : String)
    {tokens : List Token} (balanced : Balanced opener closer tokens) :
    Balanced opener closer (environmentTokens name tokens) := by
  have named := balanced_bracedText pair name
  have inside := (named.append (balanced_columnTokens pair name)).append balanced
  have commands := balanced_pair pair .beginEnvironment .endEnvironment (by decide)
  have whole := (inside.insert [.beginEnvironment] [.endEnvironment] commands).append named
  simpa [environmentTokens] using whole

theorem isHalf_of_kind {token : Token} (noControl : token.kind ≠ .control)
    (noCommand : token.kind ≠ .command) : isHalf token = false := by
  obtain ⟨kind, value⟩ := token
  cases kind with
  | control => exact absurd rfl noControl
  | command => exact absurd rfl noCommand
  | element | text | comment | whitespace | newline | unknown => rfl

/-- A command that is no half of a pair by its name is none as a token. -/
theorem isHalf_command {command : String} (single : commandName command ∉ pairedNames) :
    isHalf ⟨.command, command⟩ = false := by
  cases half : isHalf ⟨.command, command⟩ with
  | false => rfl
  | true =>
    simp only [isHalf, pairs, List.any_cons, List.any_nil, Bool.or_eq_true, beq_iff_eq,
      Bool.false_eq_true, or_false] at half
    rcases half with (same | same) | (same | same) | (same | same) <;> cases same <;>
      exact absurd (by decide) single

/-- A delimiter is no half of a pair. -/
theorem isHalf_delimiter {token : Token} (delimits : token.isDelimiter = true) :
    isHalf token = false := by
  cases half : isHalf token with
  | false => rfl
  | true =>
    simp only [isHalf, pairs, List.any_cons, List.any_nil, Bool.or_eq_true, beq_iff_eq,
      Bool.false_eq_true, or_false] at half
    rcases half with (rfl | rfl) | (rfl | rfl) | (rfl | rfl) <;> revert delimits <;> decide

/-- The token of the node of a delimiter is the delimiter. -/
theorem delimiterToken_delimiter {token : Token} (delimits : token.isDelimiter = true) :
    delimiterToken (Parser.delimiter token) = token := by
  obtain ⟨kind, value⟩ := token
  have isDelimiter : kind = .element ∨ kind = .command := kind_of_isDelimiter delimits
  rcases isDelimiter with rfl | rfl <;> rfl

theorem printEach_eq_map (parts : List Node) :
    Node.printEach parts = parts.map fun part => braced part.print := by
  induction parts with
  | nil => rfl
  | cons part rest inductionHypothesis => exact congrArg (braced part.print :: ·) inductionHypothesis

theorem printRows_eq_map (rows : List (List Node)) :
    Node.printRows rows = rows.map fun row => row.map fun cell => cellTokens cell cell.print := by
  have printCells_eq (row : List Node) :
      Node.printCells row = row.map fun cell => cellTokens cell cell.print := by
    induction row with
    | nil => rfl
    | cons cell rest inductionHypothesis =>
      exact congrArg (cellTokens cell cell.print :: ·) inductionHypothesis
  induction rows with
  | nil => rfl
  | cons row rest inductionHypothesis =>
    change Node.printCells row :: Node.printRows rest = _
    rw [printCells_eq, inductionHypothesis, List.map_cons]

/-- An argument other than the name of an operator is printed in braces. -/
theorem argumentTokens_eq {command : String} (math : command ≠ "\\operatorname") (arg : Node)
    (printed : List Token) : argumentTokens command arg printed = braced printed := by
  unfold argumentTokens
  split
  · exact absurd rfl math
  · rfl

/-- The tokens of rows are balanced if those of every cell are. -/
theorem balanced_gridTokens (pair : (opener, closer) ∈ pairs) {rows : List (List Node)}
    (balanced : ∀ row ∈ rows, ∀ cell ∈ row, cell ≠ .ordgroup "" [] →
      Balanced opener closer cell.print) :
    Balanced opener closer (gridTokens (Node.printRows rows)) := by
  have mark {token : Token} (noHalf : isHalf token = false) : Balanced opener closer [token] :=
    balanced_of_noHalf pair (by simpa using noHalf)
  rw [printRows_eq_map]
  refine .intercalate (mark (by decide)) fun tokens member => ?_
  simp only [List.map_map, List.mem_map, Function.comp_apply] at member
  obtain ⟨row, isRow, rfl⟩ := member
  refine .intercalate (mark (by decide)) fun tokens member => ?_
  obtain ⟨cell, isCell, rfl⟩ := List.mem_map.mp member
  unfold cellTokens
  split
  · exact .nil
  · rename_i notEmpty
    have filledCell : cell ≠ .ordgroup "" [] := fun same => notEmpty (by rw [same]; rfl)
    exact balanced_braced pair (balanced row isRow cell isCell filledCell)

/-- The commands and delimiters of a printed formula come in pairs. -/
theorem balanced_print {symbols : Symbol.Table} {node : Node} (canonical : Canonical symbols node)
    (pair : (opener, closer) ∈ pairs) : Balanced opener closer node.print := by
  have one (token : Token) (noHalf : isHalf token = false) : Balanced opener closer [token] :=
    balanced_of_noHalf pair (by simpa using noHalf)
  induction canonical with
  | empty => exact .nil
  | element content => exact one _ (isHalf_of_kind (by simp) (by simp))
  | text content => exact (one _ (by decide)).append (balanced_bracedText pair content)
  | comment content => exact one _ (isHalf_of_kind (by simp) (by simp))
  | newline => exact one _ (by decide)
  | control space =>
    rcases space with rfl | rfl
    · exact one _ (by decide)
    · exact one _ (by decide)
  | @constant command arity single =>
    have balanced : Balanced opener closer [⟨.command, command⟩] := one _ (isHalf_command single)
    cases symbols.knows (commandName command) <;> exact balanced
  | ordgroup several parts inductionHypothesis =>
    rw [Node.print_ordgroup, printEach_eq_map]
    refine .flatten fun tokens member => ?_
    obtain ⟨arg, isArg, rfl⟩ := List.mem_map.mp member
    exact balanced_braced pair (inductionHypothesis arg isArg)
  | @supsub base sup sub scripted canonicalBase canonicalSup canonicalSub baseBalanced supBalanced
      subBalanced =>
    have scriptBalanced {mark : Token.ScriptMark} {script : Option Node}
        (balanced : ∀ node ∈ script, Balanced opener closer node.print) :
        Balanced opener closer (Node.printScript mark script) := by
      cases script with
      | none => exact .nil
      | some node =>
        have noHalf : isHalf (markToken mark) = false := by cases mark <;> decide
        exact (one _ noHalf).append (balanced_braced pair (balanced node rfl))
    exact ((balanced_braced pair baseBalanced).append (scriptBalanced subBalanced)).append
      (scriptBalanced supBalanced)
  | operator content => exact (one _ (by decide)).append (balanced_bracedText pair content)
  | unaryFunc arity math canonicalArg inductionHypothesis =>
    rw [Node.print_unaryFunc, argumentTokens_eq math.2]
    exact (one _ (isHalf_command (single_of_arity (by simp [arity])))).append
      (balanced_braced pair inductionHypothesis)
  | root canonicalArg canonicalIndex balanced argBalanced indexBalanced =>
    have index := (one .openBracket (by decide)).append
      (indexBalanced.append (one .closeBracket (by decide)))
    exact (one _ (by decide)).append (index.append (balanced_braced pair argBalanced))
  | binaryFunc arity canonicalFirst canonicalSecond firstBalanced secondBalanced =>
    exact ((one _ (isHalf_command (single_of_arity (by simp [arity])))).append
      (balanced_braced pair firstBalanced)).append (balanced_braced pair secondBalanced)
  | leftright opens closes canonicalBody inductionHypothesis =>
    rw [Node.print_leftright, delimiterToken_delimiter opens, delimiterToken_delimiter closes]
    exact balanced_delimited pair (isHalf_delimiter opens) (isHalf_delimiter closes)
      inductionHypothesis
  | beginend nonempty filled ended cells stands inductionHypothesis =>
    exact balanced_environmentTokens pair _ (balanced_gridTokens pair inductionHypothesis)

end Balance

section Reading

variable {options : ParseOptions}

/-- A tree that a formula is read as is kept where it stands, and is no cell mark. -/
theorem Canonical.kept {node : Node} (canonical : Canonical options.symbols node)
    (keepNewlines : options.keepNewlines = true) :
    Parser.keeps options node = true ∧ Grid.isCellMark node = false := by
  cases canonical with
  | newline => exact ⟨keepNewlines, rfl⟩
  | control space =>
    rcases space with rfl | rfl
    · exact ⟨rfl, rfl⟩
    · exact ⟨rfl, rfl⟩
  | constant arity single => split <;> exact ⟨rfl, rfl⟩
  | empty | element | text | comment | ordgroup | supsub | operator | unaryFunc | root
  | binaryFunc | leftright | beginend => exact ⟨rfl, rfl⟩

/-- A tree that a formula is read as is no empty cell. -/
theorem Canonical.isEmptyCell_eq_false {symbols : Symbol.Table} {node : Node}
    (canonical : Canonical symbols node) : Grid.isEmptyCell node = false := by
  cases canonical with
  | @ordgroup args several parts =>
    match args, several with
    | first :: second :: rest, _ => rfl
  | empty | element | text | comment | newline | control | constant | supsub | operator
  | unaryFunc | root | binaryFunc | leftright | beginend => rfl

/-- One part that is kept is a formula. -/
theorem sequence_of_scripted {operand : Reading} {tokens : List Token} {node : Node}
    (progresses : Progresses operand) (read : Scripted operand tokens node [])
    (kept : Parser.keeps options node = true ∧ Grid.isCellMark node = false) :
    Sequence operand options tokens node := by
  have parts := parts_of_scripted progresses read .nil
  have formula : Sequence operand options tokens (.group ([node].filter (Parser.keeps options))) :=
    .intro parts (by simpa using kept.2)
  simpa [kept.1, Node.group] using formula

/-- A formula between braces is read as the formula, with one level more. -/
theorem standing_braced {depth : Nat} {tokens : List Token} {node : Node}
    (balanced : Balanced .openBrace .closeBrace tokens)
    (inside : Sequence (Reads options depth) options tokens node) :
    Standing (Reads options (depth + 1)) (braced tokens) node where
  settled rest := by
    simp [Settled, braced, Token.openBrace, Token.prime, Token.scriptMark?]
  read rest := by
    have read : Operand options (Reads options depth)
        (.openBrace :: tokens ++ .closeBrace :: rest) node rest := .group balanced inside
    simpa [braced, Reads] using read

/-- A formula between braces is an argument. -/
theorem Standing.argument {operand : Reading} {tokens : List Token} {node : Node}
    (standing : Standing operand (braced tokens) node) (rest : List Token) :
    Argument operand (braced tokens ++ rest) node rest := by
  have noLayout : ∀ blank ∈ ([] : List Token), blank.isLayout = true := by simp
  exact .intro noLayout rfl (by decide) (standing.read rest)

/-- Neither the first nor the last token is layout. -/
def Solid (tokens : List Token) : Prop :=
  (∀ token ∈ tokens.head?, token.isLayout = false) ∧
    ∀ token ∈ tokens.getLast?, token.isLayout = false

theorem Solid.nil : Solid [] := by
  simp [Solid]

theorem Solid.append {first second : List Token} (firstSolid : Solid first)
    (secondSolid : Solid second) : Solid (first ++ second) := by
  constructor
  · intro token isHead
    rw [List.head?_append] at isHead
    rcases Option.or_eq_some_iff.mp isHead with inFirst | ⟨_, inSecond⟩
    · exact firstSolid.1 token inFirst
    · exact secondSolid.1 token inSecond
  · intro token isLast
    rw [List.getLast?_append] at isLast
    rcases Option.or_eq_some_iff.mp isLast with inSecond | ⟨_, inFirst⟩
    · exact secondSolid.2 token inSecond
    · exact firstSolid.2 token inFirst

theorem Solid.intercalate {separator : List Token} {lists : List (List Token)}
    (separates : Solid separator) (solid : ∀ tokens ∈ lists, Solid tokens) :
    Solid (separator.intercalate lists) := by
  induction lists with
  | nil => exact .nil
  | cons first rest inductionHypothesis =>
    have firstSolid := solid first (by simp)
    have restSolid := inductionHypothesis fun tokens member =>
      solid tokens (List.mem_cons_of_mem _ member)
    cases rest with
    | nil => simpa [List.intercalate] using firstSolid
    | cons second others =>
      simpa [List.intercalate] using firstSolid.append (separates.append restSolid)

theorem solid_braced (tokens : List Token) : Solid (braced tokens) := by
  constructor
  · rintro token ⟨⟩
    rfl
  · intro token isLast
    unfold braced at isLast
    rw [List.getLast?_concat] at isLast
    cases isLast
    rfl

/-- No layout stands at either end of the tokens of rows. -/
theorem solid_gridTokens (rows : List (List Node)) : Solid (gridTokens (Node.printRows rows)) := by
  have mark {value : String} : Solid [⟨.control, value⟩] := by
    simp [Solid, Token.isLayout]
  rw [printRows_eq_map]
  refine .intercalate mark fun tokens member => ?_
  simp only [List.map_map, List.mem_map, Function.comp_apply] at member
  obtain ⟨row, -, rfl⟩ := member
  refine .intercalate mark fun tokens member => ?_
  obtain ⟨cell, -, rfl⟩ := List.mem_map.mp member
  unfold cellTokens
  split
  · exact .nil
  · exact solid_braced _

/-- Nothing is taken away from the end of tokens that end in no layout. -/
theorem Solid.withoutTrailingLayout {tokens : List Token} (solid : Solid tokens) :
    Parser.withoutTrailingLayout tokens = tokens := by
  unfold Parser.withoutTrailingLayout
  cases ends : tokens.reverse with
  | nil => simpa using ends
  | cons last others =>
    have isLast : tokens.getLast? = some last := by
      rw [← List.head?_reverse, ends]
      rfl
    rw [List.dropWhile_cons_of_neg (by simp [solid.2 last isLast]), ← ends, List.reverse_reverse]

/-- The column specification of a printed environment is passed over. -/
theorem columnSpecificationLength_print (name : String) (tokens : List Token) :
    Parser.columnSpecificationLength name (columnTokens name ++ tokens) =
      .ok (columnTokens name).length := by
  by_cases isArray : name = "array"
  · subst isArray
    rfl
  · have none : columnTokens name = [] := if_neg isArray
    rw [none]
    cases tokens with
    | nil => rfl
    | cons first rest => simp [Parser.columnSpecificationLength, isArray]

/-- A separator of a grid is read as a part of its own. -/
theorem standing_mark {depth : Nat} {value : String}
    (plain : leafOf? ⟨.control, value⟩ = some (.leaf .control value))
    (noScript : (Token.mk .control value).scriptMark? = none) :
    Standing (Reads options (depth + 1)) [⟨.control, value⟩] (.leaf .control value) where
  settled rest := by
    simp [Settled, noScript, Token.prime]
  read rest := Operand.leaf plain

/-- The tokens of rows are read as the parts of the rows. -/
theorem phrase_gridTokens {depth : Nat} {rows : List (List Node)}
    (standing : ∀ row ∈ rows, ∀ cell ∈ row, cell ≠ .ordgroup "" [] →
      Standing (Reads options (depth + 1)) (braced cell.print) cell) :
    Phrase (Reads options (depth + 1)) (gridTokens (Node.printRows rows)) (gridParts rows) := by
  have progresses := Reads.progresses options (depth + 1)
  rw [printRows_eq_map]
  unfold gridTokens
  rw [List.map_map]
  refine Phrase.intercalate ((standing_mark rfl rfl).phrase progresses) _ _ ?_
  intro row isRow
  refine Phrase.intercalate ((standing_mark rfl rfl).phrase progresses) _ _ ?_
  intro cell isCell
  unfold cellTokens cellParts
  split
  · exact Phrase.nil
  · rename_i notEmpty
    have filledCell : cell ≠ .ordgroup "" [] := fun same => notEmpty (by rw [same]; rfl)
    exact (standing row isRow cell isCell filledCell).phrase progresses

/-- The body of a printed environment is all that stands between its two commands and
the column specification. -/
theorem body_environmentTokens (name : String) {grid : List Token} (solid : Solid grid)
    (tail : List Token) :
    Parser.withoutTrailingLayout ((columnTokens name ++ grid).drop ((columnTokens name).length +
      Token.layoutLength ((columnTokens name ++ (grid ++ .endEnvironment :: tail)).drop
        (columnTokens name).length))) = grid := by
  rw [List.drop_left' rfl]
  have noLayout : Token.layoutLength (grid ++ .endEnvironment :: tail) = 0 := by
    cases grid with
    | nil => rfl
    | cons first rest => simp [Token.layoutLength, solid.1 first rfl]
  rw [noLayout, Nat.add_zero, List.drop_left' rfl]
  exact solid.withoutTrailingLayout

theorem operand_environmentTokens {depth : Nat} (name : String) {rows : List (List Node)}
    (nonempty : rows ≠ []) (filled : ∀ row ∈ rows, row ≠ [])
    (ended : 1 < rows.length → rows.getLast? ≠ some [.ordgroup "" []])
    (cells : ∀ row ∈ rows, ∀ cell ∈ row, IsCell cell)
    (balanced : Balanced .beginEnvironment .endEnvironment (gridTokens (Node.printRows rows)))
    (standing : ∀ row ∈ rows, ∀ cell ∈ row, cell ≠ .ordgroup "" [] →
      Standing (Reads options (depth + 1)) (braced cell.print) cell) (rest : List Token) :
    Reads options (depth + 2)
      (environmentTokens name (gridTokens (Node.printRows rows)) ++ rest) (.beginend name rows)
      rest := by
  have read : Rows (Reads options (depth + 1)) (gridTokens (Node.printRows rows))
      (Grid.ofParts (gridParts rows)) := .intro (phrase_gridTokens standing).parts
  rw [ofParts_gridParts nonempty filled cells ended] at read
  rw [← body_environmentTokens name (solid_gridTokens rows) (bracedText name ++ rest)] at read
  have inside : Balanced .beginEnvironment .endEnvironment
      (columnTokens name ++ gridTokens (Node.printRows rows)) :=
    (balanced_columnTokens (by decide) name).append balanced
  have environment : Environment (Reads options (depth + 1))
      (.openBrace :: ⟨.text, name⟩ :: .closeBrace :: (columnTokens name ++
        (gridTokens (Node.printRows rows) ++ .endEnvironment :: (bracedText name ++ rest))))
      (.beginend name rows) rest :=
    .intro (List.append_assoc ..).symm inside (columnSpecificationLength_print name _) read
  have operand : Operand options (Reads options (depth + 1)) _ _ _ := .environment environment
  simpa [Reads, environmentTokens, bracedText, braced] using operand

/-- The tokens of the tree are read as the tree, with as many levels as there are tokens. -/
def ReadBack (options : ParseOptions) (node : Node) : Prop :=
  ∀ ⦃depth : Nat⦄, node.print.length ≤ depth →
    Sequence (Reads options depth) options node.print node

/-- The tokens of the tree in braces are read as the tree, with one level more. -/
def StandsInBraces (options : ParseOptions) (node : Node) : Prop :=
  ∀ depth, node.print.length < depth →
    Standing (Reads options depth) (braced node.print) node

theorem ReadBack.inBraces {node : Node}
    (readBack : ReadBack options node) (canonical : Canonical options.symbols node) :
    StandsInBraces options node := by
  intro depth deep
  obtain ⟨inner, rfl⟩ := Nat.exists_eq_succ_of_ne_zero (Nat.ne_zero_of_lt deep)
  exact standing_braced (balanced_print canonical (by decide)) (readBack (by omega))

/-- A tree that is read as one operand is read as a formula. -/
theorem readBack_of_operand {node : Node}
    (canonical : Canonical options.symbols node) (keepNewlines : options.keepNewlines = true)
    (printed : node.print ≠ [])
    (read : ∀ depth, node.print.length ≤ depth + 1 →
      Operand options (Reads options depth) node.print node []) : ReadBack options node := by
  intro depth deep
  have some := List.length_pos_iff.mpr printed
  obtain ⟨inner, rfl⟩ := Nat.exists_eq_succ_of_ne_zero (show depth ≠ 0 by omega)
  exact sequence_of_scripted (Reads.progresses options _)
    (.intro (read inner deep) (.none 0 []) settled_nil) (canonical.kept keepNewlines)

theorem readBack_ordgroup {args : List Node} (several : 2 ≤ args.length)
    (parts : ∀ arg ∈ args, Canonical options.symbols arg) (keepNewlines : options.keepNewlines = true)
    (inBraces : ∀ arg ∈ args, StandsInBraces options arg) :
    ReadBack options (.ordgroup "" args) := by
  intro depth deep
  rw [Node.print_ordgroup, printEach_eq_map] at deep ⊢
  generalize tokensOf : (args.map fun part => braced part.print) = tokens at deep ⊢
  have phrase : Phrase (Reads options depth) tokens.flatten args := by
    rw [← tokensOf]
    refine Phrase.flatten _ fun arg isArg => ?_
    have member : braced arg.print ∈ tokens := tokensOf ▸ List.mem_map_of_mem isArg
    have short := Nat.le_trans (List.sublist_flatten_of_mem member).length_le deep
    rw [length_braced] at short
    exact (inBraces arg isArg depth (by omega)).phrase (Reads.progresses options depth)
  have formula : Sequence (Reads options depth) options tokens.flatten
      (.group (args.filter (Parser.keeps options))) :=
    .intro phrase.parts fun arg isArg => ((parts arg isArg).kept keepNewlines).2
  have kept : args.filter (Parser.keeps options) = args :=
    List.filter_eq_self.mpr fun arg isArg => ((parts arg isArg).kept keepNewlines).1
  have grouped : Node.group args = .ordgroup "" args := by
    match args, several with
    | first :: second :: rest, _ => rfl
  rwa [kept, grouped] at formula

theorem readBack_supsub {base : Node} {sup sub : Option Node}
    (canonical : Canonical options.symbols (.supsub "" base sup sub))
    (scripted : sup.isSome ∨ sub.isSome)
    (keepNewlines : options.keepNewlines = true) (baseInBraces : StandsInBraces options base)
    (supInBraces : ∀ script ∈ sup, StandsInBraces options script)
    (subInBraces : ∀ script ∈ sub, StandsInBraces options script) :
    ReadBack options (.supsub "" base sup sub) := by
  intro depth deep
  refine sequence_of_scripted (Reads.progresses options depth) ?_ (canonical.kept keepNewlines)
  rw [Node.print_supsub] at deep ⊢
  cases sub with
  | none =>
    cases sup with
    | none => simp at scripted
    | some sup =>
      simp only [Node.printScript_some, List.length_append, List.length_cons, length_braced] at deep
      have readBase := (baseInBraces depth (by omega)).read
      have readSup := (supInBraces sup rfl depth (by omega)).read []
      simpa [Parser.Scripts.attach, Parser.Scripts.superscript] using
        Scripted.intro (readBase _) (.sup 0 readSup) settled_nil
  | some sub =>
    cases sup with
    | none =>
      simp only [Node.printScript_some, List.length_append, List.length_cons, length_braced] at deep
      have readBase := (baseInBraces depth (by omega)).read
      have readSub := (subInBraces sub rfl depth (by omega)).read []
      simpa [Parser.Scripts.attach, Parser.Scripts.superscript] using
        Scripted.intro (readBase _) (.sub 0 0 readSub) settled_nil
    | some sup =>
      simp only [Node.printScript_some, List.length_append, List.length_cons, length_braced] at deep
      have readBase := (baseInBraces depth (by omega)).read
      have readSub := (subInBraces sub rfl depth (by omega)).read
      have readSup := (supInBraces sup rfl depth (by omega)).read []
      simpa [Parser.Scripts.attach, Parser.Scripts.superscript] using
        Scripted.intro (readBase _) (.subSup 0 0 (readSub _) readSup) settled_nil

theorem operand_unaryFunc {depth : Nat} {command : String} {arg : Node}
    (arity : Arity.ofName (commandName command) = .unary)
    (math : command ≠ "\\text" ∧ command ≠ "\\operatorname")
    (standing : Standing (Reads options depth) (braced arg.print) arg) :
    Operand options (Reads options depth) (Node.unaryFunc command arg none).print
      (.unaryFunc command arg none) [] := by
  rw [Node.print_unaryFunc, argumentTokens_eq math.2]
  refine .command (.unary arity ?_)
  have argument := standing.argument []
  rw [List.append_nil] at argument
  by_cases isRoot : command = "\\sqrt"
  · have absent : some Token.openBrace ≠ some .openBracket := by decide
    exact .root isRoot (.none absent) argument
  · exact .other ⟨math.1, math.2, isRoot⟩ argument

theorem operand_root {depth : Nat} {arg index : Node}
    (balanced : Balanced .openBracket .closeBracket index.print)
    (inside : Sequence (Reads options depth) options index.print index)
    (standing : Standing (Reads options depth) (braced arg.print) arg) :
    Operand options (Reads options depth) (Node.unaryFunc "\\sqrt" arg (some index)).print
      (.unaryFunc "\\sqrt" arg (some index)) [] := by
  have noLayout : ∀ blank ∈ ([] : List Token), blank.isLayout = true := by simp
  have indexed : IndexAt (Reads options depth) options
      ([] ++ .openBracket :: index.print ++ .closeBracket :: (braced arg.print ++ [])) (some index)
      (braced arg.print ++ []) := .some noLayout balanced inside
  have operand : Operand options (Reads options depth) _ _ _ :=
    .command (.unary rfl (.root rfl indexed (standing.argument [])))
  simpa [argumentTokens_eq] using operand

theorem operand_binaryFunc {depth : Nat} {command : String} {first second : Node}
    (arity : Arity.ofName (commandName command) = .binary)
    (firstStanding : Standing (Reads options depth) (braced first.print) first)
    (secondStanding : Standing (Reads options depth) (braced second.print) second) :
    Operand options (Reads options depth) (Node.binaryFunc command first second).print
      (.binaryFunc command first second) [] := by
  have operand : Operand options (Reads options depth) _ _ _ :=
    .command (.binary arity (firstStanding.argument _) (secondStanding.argument []))
  simpa using operand

theorem operand_leftright {depth : Nat} {opening closing : Token} {body : Node}
    (opens : opening.isDelimiter = true) (closes : closing.isDelimiter = true)
    (balanced : Balanced .left .right body.print)
    (inside : Sequence (Reads options depth) options body.print body) :
    Operand options (Reads options depth)
      (Node.leftright "" (Parser.delimiter opening) body (Parser.delimiter closing)).print
      (.leftright "" (Parser.delimiter opening) body (Parser.delimiter closing)) [] := by
  have noLayout : ∀ blank ∈ ([] : List Token), blank.isLayout = true := by simp
  have operand : Operand options (Reads options depth) _ _ [] :=
    .leftRight (.intro noLayout opens balanced inside noLayout closes)
  simpa [delimiterToken_delimiter opens, delimiterToken_delimiter closes] using operand

theorem length_le_intercalate {separator tokens : List Token} {lists : List (List Token)}
    (member : tokens ∈ lists) : tokens.length ≤ (separator.intercalate lists).length := by
  induction lists with
  | nil => cases member
  | cons first rest inductionHypothesis =>
    cases rest with
    | nil => simpa [List.intercalate] using Nat.le_of_eq (congrArg _ (List.mem_singleton.mp member))
    | cons second others =>
      have split : separator.intercalate (first :: second :: others) =
          first ++ (separator ++ separator.intercalate (second :: others)) := by
        simp [List.intercalate]
      rw [split, List.length_append, List.length_append]
      rcases List.mem_cons.mp member with rfl | inRest
      · omega
      · have shorter := inductionHypothesis inRest
        omega

/-- A cell that is printed is no longer than the tokens of the rows. -/
theorem length_cell_le {rows : List (List Node)} {row : List Node} {cell : Node}
    (isRow : row ∈ rows) (isCell : cell ∈ row) (filledCell : Grid.isEmptyCell cell = false) :
    cell.print.length + 2 ≤ (gridTokens (Node.printRows rows)).length := by
  have shorter : (cellTokens cell cell.print).length ≤
      (gridTokens (Node.printRows rows)).length := by
    rw [printRows_eq_map]
    calc (cellTokens cell cell.print).length
      _ ≤ (List.intercalate [cellMark]
            (row.map fun cell => cellTokens cell cell.print)).length :=
          length_le_intercalate (List.mem_map_of_mem isCell)
      _ ≤ _ := length_le_intercalate
          (List.mem_map_of_mem (List.mem_map_of_mem isRow))
  simpa [cellTokens, filledCell] using shorter

theorem readBack_beginend {name : String} {rows : List (List Node)}
    (canonical : Canonical options.symbols (.beginend name rows))
    (keepNewlines : options.keepNewlines = true)
    (inBraces : ∀ row ∈ rows, ∀ cell ∈ row, cell ≠ .ordgroup "" [] → StandsInBraces options cell) :
    ReadBack options (.beginend name rows) := by
  refine readBack_of_operand canonical keepNewlines (by simp [environmentTokens])
    fun depth deep => ?_
  cases canonical with
  | beginend nonempty filled ended cells stands =>
    simp only [Node.print_beginend, environmentTokens, bracedText, List.cons_append, List.length_cons,
      List.length_append, length_braced] at deep
    obtain ⟨inner, rfl⟩ := Nat.exists_eq_succ_of_ne_zero (show depth ≠ 0 by omega)
    have areCells : ∀ row ∈ rows, ∀ cell ∈ row, IsCell cell := by
      intro row isRow cell isCell
      by_cases empty : cell = .ordgroup "" []
      · rw [empty]
        exact ⟨⟨rfl, rfl⟩, rfl, fun _ => rfl⟩
      · have canonicalCell := cells row isRow cell isCell empty
        exact ⟨stands row isRow cell isCell, (canonicalCell.kept keepNewlines).2,
          fun isEmpty => by simp [canonicalCell.isEmptyCell_eq_false] at isEmpty⟩
    have balanced : Balanced .beginEnvironment .endEnvironment (gridTokens (Node.printRows rows)) :=
      balanced_gridTokens (by decide) fun row isRow cell isCell filledCell =>
        balanced_print (cells row isRow cell isCell filledCell) (by decide)
    have standing : ∀ row ∈ rows, ∀ cell ∈ row, cell ≠ .ordgroup "" [] →
        Standing (Reads options (inner + 1)) (braced cell.print) cell := by
      intro row isRow cell isCell filledCell
      have canonicalCell := cells row isRow cell isCell filledCell
      have short := length_cell_le isRow isCell canonicalCell.isEmptyCell_eq_false
      exact inBraces row isRow cell isCell filledCell _ (by omega)
    have operand := operand_environmentTokens name nonempty filled ended areCells balanced standing []
    rwa [List.append_nil] at operand

/-- Reading the tokens of a tree gives back the tree. -/
theorem readBack_print {node : Node} (canonical : Canonical options.symbols node)
    (keepNewlines : options.keepNewlines = true) : ReadBack options node := by
  induction canonical with
  | empty => exact fun _ _ => .intro .nil (by simp)
  | element content =>
    exact readBack_of_operand (.element content) keepNewlines (by simp [leafTokens])
      fun _ _ => .leaf rfl
  | text content =>
    exact readBack_of_operand (.text content) keepNewlines (by simp [leafTokens])
      fun _ _ => .command (.unary rfl (.text rfl content []))
  | comment content =>
    exact readBack_of_operand (.comment content) keepNewlines (by simp [leafTokens])
      fun _ _ => .leaf rfl
  | newline =>
    exact readBack_of_operand .newline keepNewlines (by simp [leafTokens])
      fun _ _ => .leaf rfl
  | control space =>
    refine readBack_of_operand (.control space) keepNewlines (by simp [leafTokens])
      fun _ _ => .leaf ?_
    rcases space with rfl | rfl <;> rfl
  | @constant command arity single =>
    have printed : (Node.leaf (if options.symbols.knows (commandName command) then .symbol else .unknownMacro)
        command).print = [⟨.command, command⟩] := by
      split <;> rfl
    refine readBack_of_operand (.constant arity single) keepNewlines (by simp [printed]) fun _ _ => ?_
    rw [printed]
    exact .command (.constant arity single)
  | ordgroup several parts inductionHypothesis =>
    exact readBack_ordgroup several parts keepNewlines fun arg isArg =>
      (inductionHypothesis arg isArg).inBraces (parts arg isArg)
  | supsub scripted canonicalBase canonicalSup canonicalSub baseRead supRead subRead =>
    exact readBack_supsub (.supsub scripted canonicalBase canonicalSup canonicalSub) scripted
      keepNewlines (baseRead.inBraces canonicalBase)
      (fun script isSup => (supRead script isSup).inBraces (canonicalSup script isSup))
      (fun script isSub => (subRead script isSub).inBraces (canonicalSub script isSub))
  | operator content =>
    exact readBack_of_operand (.operator content) keepNewlines (by simp)
      fun _ _ => .command (.unary rfl (.operator rfl content []))
  | unaryFunc arity math canonicalArg inductionHypothesis =>
    refine readBack_of_operand (.unaryFunc arity math canonicalArg) keepNewlines
      (by simp) fun depth deep => ?_
    simp [argumentTokens_eq math.2] at deep
    exact operand_unaryFunc arity math (inductionHypothesis.inBraces canonicalArg depth (by omega))
  | root canonicalArg canonicalIndex balanced argRead indexRead =>
    refine readBack_of_operand (.root canonicalArg canonicalIndex balanced) keepNewlines
      (by simp) fun depth deep => ?_
    simp [argumentTokens_eq] at deep
    exact operand_root balanced (indexRead (by omega))
      (argRead.inBraces canonicalArg depth (by omega))
  | binaryFunc arity canonicalFirst canonicalSecond firstRead secondRead =>
    refine readBack_of_operand (.binaryFunc arity canonicalFirst canonicalSecond) keepNewlines
      (by simp) fun depth deep => ?_
    simp at deep
    exact operand_binaryFunc arity (firstRead.inBraces canonicalFirst depth (by omega))
      (secondRead.inBraces canonicalSecond depth (by omega))
  | leftright opens closes canonicalBody inductionHypothesis =>
    refine readBack_of_operand (.leftright opens closes canonicalBody) keepNewlines
      (by simp) fun depth deep => ?_
    simp at deep
    exact operand_leftright opens closes (balanced_print canonicalBody (by decide))
      (inductionHypothesis (by omega))
  | beginend nonempty filled ended cells stands inductionHypothesis =>
    exact readBack_beginend (.beginend nonempty filled ended cells stands) keepNewlines
      fun row isRow cell isCell filledCell =>
        (inductionHypothesis row isRow cell isCell filledCell).inBraces
          (cells row isRow cell isCell filledCell)

end Reading

/-- Parsing undoes printing: with as many levels as there are tokens, the tokens of a
canonical tree are parsed as the tree. -/
theorem parseTokens_print (symbols : Symbol.Table) (maxDepth : Int) (node : Node)
    (canonical : Canonical symbols node) (deep : (node.print.length : Int) ≤ maxDepth) :
    parseTokens { symbols, maxDepth } node.print = .ok node := by
  rw [parseTokens_eq_ok_iff]
  have readBack : ReadBack { symbols, maxDepth } node := readBack_print canonical rfl
  exact readBack (by change _ ≤ maxDepth.toNat; omega)

/-- A fraction with an index, scripts, delimiters and an array with an empty cell in it. -/
def nestedFormula : Node :=
  .binaryFunc "\\frac"
    (.unaryFunc "\\sqrt"
      (.leftright "" (Parser.delimiter ⟨.element, "("⟩)
        (.supsub "" (.element "a") (some (.element "2")) (some (.leaf .symbol "\\alpha")))
        (Parser.delimiter ⟨.element, "]"⟩))
      (some (.element "n")))
    (.beginend "array"
      [[.element "x", .ordgroup "" []],
        [.ordgroup "" [.text "if", .unaryFunc "\\operatorname" (.text "sn") none],
          .leaf .unknownMacro "\\foo"]])

theorem parseTokens_print_nestedFormula :
    Canonical [("alpha", "alpha")] nestedFormula ∧ (nestedFormula.print.length : Int) ≤ 128 ∧
      parseTokens { symbols := [("alpha", "alpha")], maxDepth := 128 } nestedFormula.print =
        .ok nestedFormula := by
  have short : (nestedFormula.print.length : Int) ≤ 128 := by decide
  have constant (command : String) (arity : Arity.ofName (commandName command) = .constant)
      (single : commandName command ∉ pairedNames) :
      Canonical [("alpha", "alpha")] _ := .constant arity single
  have scripted : Canonical [("alpha", "alpha")]
      (.supsub "" (.element "a") (some (.element "2")) (some (.leaf .symbol "\\alpha"))) := by
    refine .supsub (.inl rfl) (.element _) ?_ ?_
    · rintro script ⟨⟩
      exact .element _
    · rintro script ⟨⟩
      exact constant "\\alpha" (by decide) (by decide)
  have texts : Canonical [("alpha", "alpha")]
      (.ordgroup "" [.text "if", .unaryFunc "\\operatorname" (.text "sn") none]) :=
    .ordgroup (by decide) (by simpa using ⟨.text _, .operator _⟩)
  have unknown : Canonical [("alpha", "alpha")] (.leaf .unknownMacro "\\foo") :=
    constant "\\foo" (by decide) (by decide)
  have canonical : Canonical [("alpha", "alpha")] nestedFormula := by
    refine .binaryFunc (by decide) (.root (.leftright (by decide) (by decide) scripted)
      (.element _) (by decide)) (.beginend (by simp) (by simp) (by simp) ?_ ?_)
    · simpa using ⟨.element _, texts, unknown⟩
    · simp [StandsInCell, Grid.isIgnored, Grid.isRowMark]
  exact ⟨canonical, short, parseTokens_print _ _ _ canonical short⟩

end Grammar
end MathMarkup.Tex
