import MathMarkup.Proofs.Matching
import MathMarkup.Tex.Parser

/-!
# The grammar of formulas

Which tokens are which formula, as relations between the tokens at a place, the node
that is read there and the tokens that are left. `Operand` has one rule for each way
to read an operand; `Reads` closes the rules off by the nesting that is allowed. That
the readers realize these relations is left to another module.
-/

namespace MathMarkup.Tex.Grammar

/-- What a reader can take: the tokens it starts from, the value it reads and the
tokens that it leaves. -/
abbrev ReadingOf (α : Type) := List Token → α → List Token → Prop

/-- What a reader of nodes can take. -/
abbrev Reading := ReadingOf Node

/-- The openers and closers among the tokens come in nested pairs. -/
abbrev Balanced (opener closer : Token) (tokens : List Token) : Prop :=
  Nesting.Balanced (· == opener) (· == closer) tokens

/-- The token that announces a script. -/
def markToken : Token.ScriptMark → Token
  | .subscript => ⟨.control, "_"⟩
  | .superscript => ⟨.control, "^"⟩

/-- The name of a command, without its first character. -/
def commandName (command : String) : String :=
  String.ofList (command.toList.drop 1)

/-- The names of commands that come in pairs. -/
def pairedNames : List String := ["left", "right", "begin", "end"]

/-- The leaf that a token is without looking at other tokens. -/
def leafOf? (token : Token) : Option Node :=
  match token.kind with
  | .element | .unknown => some (.leaf .element token.value)
  | .text => some (.leaf .text token.value)
  | .comment => some (.leaf .comment token.value)
  | .whitespace => some (.leaf .whitespace token.value)
  | .newline => some (.leaf .newline "\n")
  | .command => none
  | .control =>
    if ["\\\\", "\\,", "&"].contains token.value then some (.leaf .control token.value) else none

/-- The tokens, with a number at their front split into its first digit and the rest. -/
def splitFirst : List Token → List Token
  | token :: rest =>
    match Cursor.splitNumber? token with
    | some (digit, remainder) => digit :: remainder :: rest
    | none => token :: rest
  | [] => []

/-- Nothing that follows belongs to the scripts before it. -/
def Settled (rest : List Token) : Prop :=
  ∀ token ∈ rest.head?, token ≠ .prime ∧ token.scriptMark? = none

/-- All of the tokens as items, one after the other. -/
inductive Items {α : Type} (item : ReadingOf α) : List Token → List α → Prop where
  | nil : Items item [] []
  | cons {token : Token} {tail rest : List Token} {value : α} {values : List α}
      (first : item (token :: tail) value rest) (others : Items item rest values) :
      Items item (token :: tail) (value :: values)

section Composition

variable (operand : Reading)

/-- The scripts at the front of the tokens. Primes may stand before the first script,
and between a subscript and a superscript. -/
inductive ScriptsOf : ReadingOf Parser.Scripts where
  | none (primes : Nat) (rest : List Token) :
      ScriptsOf (List.replicate primes .prime ++ rest) { primes } rest
  | sub (primes morePrimes : Nat) {input rest : List Token} {sub : Node}
      (script : operand input sub (List.replicate morePrimes .prime ++ rest)) :
      ScriptsOf (List.replicate primes .prime ++ markToken .subscript :: input)
        { primes := primes + morePrimes, sub := some sub } rest
  | subSup (primes morePrimes : Nat) {input middle rest : List Token} {sub sup : Node}
      (first : operand input sub
        (List.replicate morePrimes .prime ++ markToken .superscript :: middle))
      (second : operand middle sup rest) :
      ScriptsOf (List.replicate primes .prime ++ markToken .subscript :: input)
        { primes := primes + morePrimes, sub := some sub, sup := some sup } rest
  | sup (primes : Nat) {input rest : List Token} {sup : Node} (script : operand input sup rest) :
      ScriptsOf (List.replicate primes .prime ++ markToken .superscript :: input)
        { primes, sup := some sup } rest
  | supSub (primes : Nat) {input middle rest : List Token} {sub sup : Node}
      (first : operand input sup (markToken .subscript :: middle))
      (second : operand middle sub rest) :
      ScriptsOf (List.replicate primes .prime ++ markToken .superscript :: input)
        { primes, sub := some sub, sup := some sup } rest

/-- An operand with all the scripts that follow it. -/
inductive Scripted : Reading where
  | intro {input middle rest : List Token} {base : Node} {scripts : Parser.Scripts}
      (read : operand input base middle) (attached : ScriptsOf operand middle scripts rest)
      (settled : Settled rest) : Scripted input (scripts.attach base) rest

/-- All of the tokens as parts, each with its scripts. -/
abbrev Parts : List Token → List Node → Prop :=
  Items (Scripted operand)

/-- All of the tokens as one formula. -/
inductive Sequence (options : ParseOptions) : List Token → Node → Prop where
  | intro {input : List Token} {parts : List Node} (read : Parts operand input parts)
      (noMark : ∀ part ∈ parts, Grid.isCellMark part = false) :
      Sequence options input (.group (parts.filter (Parser.keeps options)))

/-- All of the tokens as rows of cells. -/
inductive Rows : List Token → List (List Node) → Prop where
  | intro {input : List Token} {parts : List Node} (read : Parts operand input parts) :
      Rows input (Grid.ofParts parts)

/-- An argument of a command, after any layout. -/
inductive Argument : Reading where
  | intro {layout tail rest : List Token} {token : Token} {node : Node}
      (passed : ∀ blank ∈ layout, blank.isLayout = true) (solid : token.isLayout = false)
      (inside : token ≠ .closeBrace) (read : operand (splitFirst (token :: tail)) node rest) :
      Argument (layout ++ token :: tail) node rest

/-- The index of a root where a bracket follows, and none where it does not. -/
inductive IndexAt (options : ParseOptions) : ReadingOf (Option Node) where
  | some {layout body rest : List Token} {index : Node}
      (passed : ∀ blank ∈ layout, blank.isLayout = true)
      (balanced : Balanced .openBracket .closeBracket body)
      (inside : Sequence operand options body index) :
      IndexAt options (layout ++ .openBracket :: body ++ .closeBracket :: rest)
        (some index) rest
  | none {input : List Token}
      (absent : (input.dropWhile Token.isLayout).head? ≠ some .openBracket) :
      IndexAt options input none input

/-- What follows a command of one argument. -/
inductive UnaryAt (options : ParseOptions) (command : String) : Reading where
  | text (isText : command = "\\text") (content : String) (rest : List Token) :
      UnaryAt options command (.openBrace :: ⟨.text, content⟩ :: .closeBrace :: rest)
        (.text content) rest
  | operator (isOperator : command = "\\operatorname") (content : String) (rest : List Token) :
      UnaryAt options command (.openBrace :: ⟨.text, content⟩ :: .closeBrace :: rest)
        (.unaryFunc command (.text content) none) rest
  | root {input middle rest : List Token} {index : Option Node} {arg : Node}
      (isRoot : command = "\\sqrt") (indexRead : IndexAt operand options input index middle)
      (argument : Argument operand middle arg rest) :
      UnaryAt options command input (.unaryFunc command arg index) rest
  | other {input rest : List Token} {arg : Node}
      (math : command ≠ "\\text" ∧ command ≠ "\\operatorname" ∧ command ≠ "\\sqrt")
      (argument : Argument operand input arg rest) :
      UnaryAt options command input (.unaryFunc command arg none) rest

/-- What follows a command that is no half of a pair. -/
inductive CommandAt (options : ParseOptions) (command : String) : Reading where
  | constant {rest : List Token} (arity : Arity.ofName (commandName command) = .constant)
      (single : commandName command ∉ pairedNames) :
      CommandAt options command rest
        (.leaf (if options.symbols.knows (commandName command) then .symbol else .unknownMacro)
          command) rest
  | unary {input rest : List Token} {node : Node}
      (arity : Arity.ofName (commandName command) = .unary)
      (read : UnaryAt operand options command input node rest) :
      CommandAt options command input node rest
  | binary {input middle rest : List Token} {first second : Node}
      (arity : Arity.ofName (commandName command) = .binary)
      (firstArgument : Argument operand input first middle)
      (secondArgument : Argument operand middle second rest) :
      CommandAt options command input (.binaryFunc command first second) rest

/-- A formula between delimiters, after the command that opens it. -/
inductive Delimited (options : ParseOptions) : Reading where
  | intro {layout body moreLayout rest : List Token} {opening closing : Token} {node : Node}
      (passed : ∀ blank ∈ layout, blank.isLayout = true) (opens : opening.isDelimiter = true)
      (balanced : Balanced .left .right body) (inside : Sequence operand options body node)
      (morePassed : ∀ blank ∈ moreLayout, blank.isLayout = true)
      (closes : closing.isDelimiter = true) :
      Delimited options
        (layout ++ opening :: (body ++ .right :: (moreLayout ++ closing :: rest)))
        (.leftright "" (Parser.delimiter opening) node (Parser.delimiter closing)) rest

/-- An environment, after the command that opens it. -/
inductive Environment : Reading where
  | intro {name : String} {tokens inside rest : List Token} {columns : Nat}
      {rows : List (List Node)}
      (split : tokens =
        inside ++ .endEnvironment :: .openBrace :: ⟨.text, name⟩ :: .closeBrace :: rest)
      (balanced : Balanced .beginEnvironment .endEnvironment inside)
      (specification : Parser.columnSpecificationLength name tokens = .ok columns)
      (grid : Rows operand (Parser.withoutTrailingLayout
        (inside.drop (columns + Token.layoutLength (tokens.drop columns)))) rows) :
      Environment (.openBrace :: ⟨.text, name⟩ :: .closeBrace :: tokens)
        (.beginend name rows) rest

end Composition

/-- The rules for one operand, given what the operands inside it can be. -/
inductive Operand (options : ParseOptions) (inner : Reading) : Reading where
  | leaf {token : Token} {node : Node} {rest : List Token} (plain : leafOf? token = some node) :
      Operand options inner (token :: rest) node rest
  | missingBase (mark : Token.ScriptMark) (rest : List Token) :
      Operand options inner (markToken mark :: rest) .empty (markToken mark :: rest)
  | group {body rest : List Token} {node : Node} (balanced : Balanced .openBrace .closeBrace body)
      (inside : Sequence inner options body node) :
      Operand options inner (.openBrace :: body ++ .closeBrace :: rest) node rest
  | command {command : String} {tokens rest : List Token} {node : Node}
      (read : CommandAt inner options command tokens node rest) :
      Operand options inner (⟨.command, command⟩ :: tokens) node rest
  | leftRight {tokens rest : List Token} {node : Node}
      (read : Delimited inner options tokens node rest) :
      Operand options inner (.left :: tokens) node rest
  | environment {tokens rest : List Token} {node : Node} (read : Environment inner tokens node rest) :
      Operand options inner (.beginEnvironment :: tokens) node rest

/-- What one operand can be with the given number of levels left. -/
def Reads (options : ParseOptions) : Nat → Reading
  | 0 => fun _ _ _ => False
  | depth + 1 => Operand options (Reads options depth)

section Tokens

@[simp]
theorem scriptMark?_markToken (mark : Token.ScriptMark) :
    (markToken mark).scriptMark? = some mark := by
  cases mark <;> decide

/-- A script mark is the token that announces the script. -/
theorem scriptMark?_eq_some_iff {token : Token} {mark : Token.ScriptMark} :
    token.scriptMark? = some mark ↔ token = markToken mark := by
  constructor
  · intro found
    unfold Token.scriptMark? at found
    split at found
    · rename_i isSub
      cases found
      exact isSub
    · split at found
      · rename_i isSup
        cases found
        exact isSup
      · cases found
  · rintro rfl
    exact scriptMark?_markToken mark

theorem kind_of_isLayout {token : Token} (blank : token.isLayout = true) :
    token.kind = .whitespace ∨ token.kind = .newline := by
  simpa [Token.isLayout] using blank

theorem kind_of_isDelimiter {token : Token} (delimits : token.isDelimiter = true) :
    token.kind = .element ∨ token.kind = .command := by
  unfold Token.isDelimiter at delimits
  split at delimits
  · rename_i isElement
    exact .inl isElement
  · rename_i isCommand
    exact .inr isCommand
  · cases delimits

/-- Splitting changes nothing, or puts two tokens in place of the first. -/
theorem splitFirst_cons (token : Token) (tail : List Token) :
    splitFirst (token :: tail) = token :: tail ∨
      ∃ digit remainder, Cursor.splitNumber? token = some (digit, remainder) ∧
        splitFirst (token :: tail) = digit :: remainder :: tail := by
  cases found : Cursor.splitNumber? token with
  | none => exact .inl (by simp [splitFirst, found])
  | some parts => exact .inr ⟨parts.1, parts.2, rfl, by simp [splitFirst, found]⟩

/-- A number that is split is an element, and so are both parts. -/
theorem splitNumber?_eq_some {token digit remainder : Token}
    (split : Cursor.splitNumber? token = some (digit, remainder)) :
    ∃ first second rest, first.isDigit = true ∧
      token = ⟨.element, String.ofList (first :: second :: rest)⟩ ∧
      digit = ⟨.element, String.ofList [first]⟩ ∧
      remainder = ⟨.element, String.ofList (second :: rest)⟩ := by
  obtain ⟨kind, value⟩ := token
  unfold Cursor.splitNumber? at split
  split at split
  · rename_i first second rest isElement characters
    split at split
    · rename_i isDigit
      simp only [Option.some.injEq, Prod.mk.injEq] at split
      refine ⟨first, second, rest, isDigit, ?_, split.1.symm, split.2.symm⟩
      change kind = .element at isElement
      rw [isElement, ← String.ofList_toList (s := value)]
      exact congrArg (fun text => Token.mk .element (String.ofList text)) characters
    · cases split
  · cases split

end Tokens

section Commands

/-- The commands that come in pairs take no argument. -/
theorem single_of_arity {name : String} (arity : Arity.ofName name ≠ .constant) :
    name ∉ pairedNames := by
  intro paired
  simp only [pairedNames, List.mem_cons, List.not_mem_nil, or_false] at paired
  rcases paired with rfl | rfl | rfl | rfl <;> exact arity (by decide)

/-- A command that is read by itself is no half of a pair. -/
theorem CommandAt.single {options : ParseOptions} {operand : Reading} {command : String}
    {input rest : List Token} {node : Node}
    (read : CommandAt operand options command input node rest) :
    commandName command ∉ pairedNames := by
  cases read with
  | constant arity single => exact single
  | unary arity read => exact single_of_arity (by simp [arity])
  | binary arity firstArgument secondArgument => exact single_of_arity (by simp [arity])

end Commands

section Progress

/-- A reading takes a token, unless it stops at a script mark that has no base. -/
def Progresses (reading : Reading) : Prop :=
  ∀ ⦃input node rest⦄, reading input node rest →
    rest.length < input.length ∨ ∃ mark tail, input = markToken mark :: tail ∧ rest = input

variable {options : ParseOptions} {inner : Reading}

theorem Progresses.length_le {input rest : List Token} {node : Node} (progresses : Progresses inner)
    (read : inner input node rest) : rest.length ≤ input.length := by
  rcases progresses read with shorter | ⟨mark, tail, rfl, rfl⟩
  · omega
  · exact Nat.le_refl _

/-- The scripts leave no more tokens than there were, and take one if a mark is there. -/
theorem ScriptsOf.length_le {input rest : List Token} {scripts : Parser.Scripts}
    (progresses : Progresses inner) (attached : ScriptsOf inner input scripts rest) :
    rest.length ≤ input.length ∧
      (rest.length < input.length ∨ rest = input) := by
  cases attached with
  | none primes rest =>
    cases primes with
    | zero => simp
    | succ count => simp
  | sub primes morePrimes script =>
    have shorter := progresses.length_le script
    simp at shorter ⊢
    omega
  | subSup primes morePrimes first second =>
    have shorter := progresses.length_le first
    have shorterStill := progresses.length_le second
    simp at shorter ⊢
    omega
  | sup primes script =>
    have shorter := progresses.length_le script
    simp at shorter ⊢
    omega
  | supSub primes first second =>
    have shorter := progresses.length_le first
    have shorterStill := progresses.length_le second
    simp at shorter ⊢
    omega

/-- An operand with its scripts takes a token: a mark without a base is taken with
its script. -/
theorem Scripted.length_lt {input rest : List Token} {node : Node}
    (progresses : Progresses inner) (read : Scripted inner input node rest) :
    rest.length < input.length := by
  obtain ⟨base, attached, settled⟩ := read
  obtain ⟨shorter, taken⟩ := attached.length_le progresses
  rcases progresses base with shorterBase | ⟨mark, tail, rfl, rfl⟩
  · omega
  · rcases taken with taken | rfl
    · exact taken
    · have marked := (settled (markToken mark) rfl).2
      simp at marked

/-- An argument leaves no more tokens than there were: a split number gives a token
back, but its digit is taken. -/
theorem Argument.length_le {input rest : List Token} {node : Node}
    (progresses : Progresses inner) (read : Argument inner input node rest) :
    rest.length ≤ input.length := by
  obtain ⟨passed, solid, inside, read⟩ := read
  rename_i layout tail token
  rcases splitFirst_cons token tail with same | ⟨digit, remainder, split, parts⟩
  · rw [same] at read
    have shorter := progresses.length_le read
    simp at shorter ⊢
    omega
  · rw [parts] at read
    obtain ⟨first, second, others, -, -, rfl, -⟩ := splitNumber?_eq_some split
    rcases progresses read with shorter | ⟨mark, rest, isMark, -⟩
    · simp at shorter ⊢
      omega
    · cases mark <;> cases isMark

theorem IndexAt.length_le {input rest : List Token} {index : Option Node}
    (read : IndexAt inner options input index rest) : rest.length ≤ input.length := by
  cases read with
  | some passed balanced inside =>
    simp
    omega
  | none absent => exact Nat.le_refl _

theorem CommandAt.length_le {command : String} {input rest : List Token} {node : Node}
    (progresses : Progresses inner) (read : CommandAt inner options command input node rest) :
    rest.length ≤ input.length := by
  cases read with
  | constant arity single => exact Nat.le_refl _
  | unary arity read =>
    cases read with
    | text isText content rest =>
      simp
      omega
    | operator isOperator content rest =>
      simp
      omega
    | root isRoot indexRead argument =>
      exact Nat.le_trans (argument.length_le progresses) indexRead.length_le
    | other math argument => exact argument.length_le progresses
  | binary arity firstArgument secondArgument =>
    exact Nat.le_trans (secondArgument.length_le progresses) (firstArgument.length_le progresses)

theorem Operand.progresses (progresses : Progresses inner) :
    Progresses (Operand options inner) := by
  intro input node rest read
  cases read with
  | leaf plain => exact .inl (by simp)
  | missingBase mark rest => exact .inr ⟨mark, rest, rfl, rfl⟩
  | group balanced inside => exact .inl (by simp; omega)
  | command read =>
    have shorter := read.length_le progresses
    exact .inl (by simp; omega)
  | leftRight read =>
    obtain ⟨passed, opens, balanced, inside, morePassed, closes⟩ := read
    exact .inl (by simp; omega)
  | environment read =>
    obtain ⟨rfl, balanced, specification, grid⟩ := read
    exact .inl (by simp; omega)

theorem Reads.progresses (options : ParseOptions) (depth : Nat) :
    Progresses (Reads options depth) := by
  induction depth with
  | zero => exact fun _ _ _ read => read.elim
  | succ depth inductionHypothesis => exact Operand.progresses inductionHypothesis

end Progress

section Widening

theorem Items.mono {α : Type} {item more : ReadingOf α} (widens : item ≤ more)
    {input : List Token} {values : List α} (items : Items item input values) :
    Items more input values := by
  induction items with
  | nil => exact .nil
  | cons first others inductionHypothesis => exact .cons (widens _ _ _ first) inductionHypothesis

variable {options : ParseOptions} {inner wider : Reading} (widens : inner ≤ wider) (limit : Int)

include widens

theorem ScriptsOf.mono : ScriptsOf inner ≤ ScriptsOf wider := by
  intro input scripts rest attached
  cases attached with
  | none primes rest => exact .none primes rest
  | sub primes morePrimes script => exact .sub primes morePrimes (widens _ _ _ script)
  | subSup primes morePrimes first second =>
    exact .subSup primes morePrimes (widens _ _ _ first) (widens _ _ _ second)
  | sup primes script => exact .sup primes (widens _ _ _ script)
  | supSub primes first second => exact .supSub primes (widens _ _ _ first) (widens _ _ _ second)

theorem Scripted.mono : Scripted inner ≤ Scripted wider := by
  rintro input node rest ⟨base, attached, settled⟩
  exact .intro (widens _ _ _ base) (ScriptsOf.mono widens _ _ _ attached) settled

/-- What is kept of a formula does not depend on the levels that are allowed. -/
theorem Sequence.mono :
    Sequence inner options ≤ Sequence wider { options with maxDepth := limit } := by
  rintro input node ⟨read, noMark⟩
  exact .intro (read.mono (Scripted.mono widens)) noMark

theorem Rows.mono : Rows inner ≤ Rows wider := by
  rintro input rows ⟨read⟩
  exact .intro (read.mono (Scripted.mono widens))

theorem Argument.mono : Argument inner ≤ Argument wider := by
  rintro input node rest ⟨passed, solid, inside, read⟩
  exact .intro passed solid inside (widens _ _ _ read)

theorem IndexAt.mono :
    IndexAt inner options ≤ IndexAt wider { options with maxDepth := limit } := by
  intro input index rest read
  cases read with
  | some passed balanced inside =>
    exact .some passed balanced (Sequence.mono widens limit _ _ inside)
  | none absent => exact .none absent

theorem CommandAt.mono (command : String) :
    CommandAt inner options command ≤
      CommandAt wider { options with maxDepth := limit } command := by
  have argument := Argument.mono widens
  intro input node rest read
  cases read with
  | constant arity single => exact .constant arity single
  | unary arity read =>
    refine .unary arity ?_
    cases read with
    | text isText content rest => exact .text isText content rest
    | operator isOperator content rest => exact .operator isOperator content rest
    | root isRoot indexRead read =>
      exact .root isRoot (IndexAt.mono widens limit _ _ _ indexRead) (argument _ _ _ read)
    | other math read => exact .other math (argument _ _ _ read)
  | binary arity first second =>
    exact .binary arity (argument _ _ _ first) (argument _ _ _ second)

theorem Operand.mono :
    Operand options inner ≤ Operand { options with maxDepth := limit } wider := by
  intro input node rest read
  cases read with
  | leaf plain => exact .leaf plain
  | missingBase mark rest => exact .missingBase mark rest
  | group balanced inside => exact .group balanced (Sequence.mono widens limit _ _ inside)
  | command read => exact .command (CommandAt.mono widens limit _ _ _ _ read)
  | leftRight read =>
    obtain ⟨passed, opens, balanced, inside, morePassed, closes⟩ := read
    exact .leftRight (.intro passed opens balanced (Sequence.mono widens limit _ _ inside)
      morePassed closes)
  | environment read =>
    obtain ⟨split, balanced, specification, grid⟩ := read
    exact .environment (.intro split balanced specification (Rows.mono widens _ _ grid))

omit widens in
/-- What is read with some levels is read with more levels. -/
theorem Reads.mono {shallow deep : Nat} (deeper : shallow ≤ deep) :
    Reads options shallow ≤ Reads { options with maxDepth := limit } deep := by
  induction shallow generalizing deep with
  | zero => exact fun _ _ _ read => read.elim
  | succ shallow inductionHypothesis =>
    obtain ⟨inside, rfl⟩ := Nat.exists_eq_add_one_of_ne_zero (Nat.ne_zero_of_lt deeper)
    exact Operand.mono (inductionHypothesis (Nat.le_of_succ_le_succ deeper)) limit

end Widening

end MathMarkup.Tex.Grammar
