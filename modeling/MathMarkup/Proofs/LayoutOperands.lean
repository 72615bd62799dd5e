import MathMarkup.Proofs.Failures
import MathMarkup.Proofs.ReadLines
import MathMarkup.Proofs.ScriptSpacing
import MathMarkup.Proofs.Shape

/-!
# Layout that is read as an operand

Space, line breaks and comments are parts of a formula that mean nothing, but a reader
that comes to an operand takes whatever token is next. `Exposes` lists the tokens that
make a base, a script or an argument of layout, and every such operand of a tree was read
from tokens on this list.
-/

namespace MathMarkup.Tex

open Lines

/-- What an operand is to the node that it belongs to. -/
inductive OperandRole where
  | base
  | script
  | argument
deriving DecidableEq, Repr

namespace Node

/-- The node is space, a line break or a comment. -/
def isLayout : Node → Bool
  | leaf kind _ => kind == .whitespace || kind == .newline || kind == .comment
  | _ => false

/-- The node is space. -/
def isSpace : Node → Bool
  | leaf kind _ => kind == .whitespace
  | _ => false

theorem isSpace_iff {node : Node} : node.isSpace = true ↔ ∃ content, node = leaf .whitespace content := by
  cases node <;> simp [isSpace]

theorem isLayout_iff {node : Node} :
    node.isLayout = true ↔ (∃ content, node = leaf .whitespace content) ∨
      (∃ content, node = leaf .newline content) ∨ ∃ content, node = leaf .comment content := by
  cases node <;> simp [isLayout, or_assoc]

/-- The first node is an operand of the second one. The index of a root is none. -/
inductive IsOperand : OperandRole → Node → Node → Prop where
  | base (content : String) (base : Node) (sup sub : Option Node) :
      IsOperand .base base (.supsub content base sup sub)
  | sup (content : String) (base sup : Node) (sub : Option Node) :
      IsOperand .script sup (.supsub content base (some sup) sub)
  | sub (content : String) (base sub : Node) (sup : Option Node) :
      IsOperand .script sub (.supsub content base sup (some sub))
  | arg (command : String) (arg : Node) (index : Option Node) :
      IsOperand .argument arg (.unaryFunc command arg index)
  | first (command : String) (first second : Node) :
      IsOperand .argument first (.binaryFunc command first second)
  | second (command : String) (first second : Node) :
      IsOperand .argument second (.binaryFunc command first second)

/-- The first node stands directly in the second one. -/
inductive IsPart : Node → Node → Prop where
  | operand {role : OperandRole} {operand whole : Node} (isOperand : IsOperand role operand whole) :
      IsPart operand whole
  | index (command : String) (arg index : Node) : IsPart index (.unaryFunc command arg (some index))
  | member (content : String) {part : Node} {parts : List Node} (member : part ∈ parts) :
      IsPart part (.ordgroup content parts)
  | opening (content : String) (opening body closing : Node) :
      IsPart opening (.leftright content opening body closing)
  | body (content : String) (opening body closing : Node) :
      IsPart body (.leftright content opening body closing)
  | closing (content : String) (opening body closing : Node) :
      IsPart closing (.leftright content opening body closing)
  | cell (name : String) {cell : Node} {row : List Node} {rows : List (List Node)}
      (isRow : row ∈ rows) (isCell : cell ∈ row) : IsPart cell (.beginend name rows)

/-- The first node is the second one or stands in it. -/
inductive Within : Node → Node → Prop where
  | refl (node : Node) : Within node node
  | part {node part whole : Node} (within : Within node part) (isPart : IsPart part whole) :
      Within node whole

end Node

open Node

namespace Grammar

/-- The tokens that are read as a line break: one, or one in braces with space around it. -/
inductive LineBreak : List Token → Prop where
  | token (value : String) : LineBreak [⟨.newline, value⟩]
  | braced {before inner after : List Token}
      (spaceBefore : ∀ token ∈ before, token.kind = .whitespace) (inside : LineBreak inner)
      (spaceAfter : ∀ token ∈ after, token.kind = .whitespace) :
      LineBreak (.openBrace :: (before ++ inner ++ after) ++ [.closeBrace])

/-- After a command its argument starts at the given tokens, past the layout before it. -/
inductive ArgumentPlace (options : ParseOptions) (command : String) :
    List Token → List Token → Prop where
  | first {layout rest : List Token} (takesArgument : Arity.ofName (commandName command) ≠ .constant)
      (passed : ∀ blank ∈ layout, blank.isLayout = true)
      (solid : ∀ token ∈ rest.head?, token.isLayout = false) :
      ArgumentPlace options command (layout ++ rest) rest
  | afterIndex {layout body moreLayout rest : List Token} (isRoot : command = "\\sqrt")
      (passed : ∀ blank ∈ layout, blank.isLayout = true)
      (balanced : Balanced .openBracket .closeBracket body)
      (morePassed : ∀ blank ∈ moreLayout, blank.isLayout = true)
      (solid : ∀ token ∈ rest.head?, token.isLayout = false) :
      ArgumentPlace options command
        (layout ++ .openBracket :: body ++ .closeBracket :: (moreLayout ++ rest)) rest
  | second {depth : Nat} {input layout rest : List Token} {first : Node}
      (takesTwo : Arity.ofName (commandName command) = .binary)
      (firstArgument : Argument (Reads options depth) input first (layout ++ rest))
      (passed : ∀ blank ∈ layout, blank.isLayout = true)
      (solid : ∀ token ∈ rest.head?, token.isLayout = false) :
      ArgumentPlace options command input rest

/-- The tokens that make layout an operand. -/
inductive Exposes (options : ParseOptions) : OperandRole → Node → List Token → Prop where
  /-- Space before a prime is the base of the prime. -/
  | spaceBeforePrime (content : String) :
      Exposes options .base (.leaf .whitespace content) [⟨.whitespace, content⟩, .prime]
  /-- A line break before a prime or a script mark is its base. -/
  | scriptedBreak {tokens : List Token} {token : Token} (isBreak : LineBreak tokens)
      (attaches : token = .prime ∨ token.isScriptMark = true) :
      Exposes options .base (.leaf .newline "\n") (tokens ++ [token])
  /-- A line break after a script mark is the script. -/
  | breakAsScript (mark : Token.ScriptMark) {tokens : List Token} (isBreak : LineBreak tokens) :
      Exposes options .script (.leaf .newline "\n") (markToken mark :: tokens)
  /-- A comment after a script mark is the script. -/
  | commentAsScript (mark : Token.ScriptMark) (content : String) :
      Exposes options .script (.leaf .comment content) [markToken mark, ⟨.comment, content⟩]
  /-- Braces around a line break are an argument. -/
  | breakAsArgument {command : String} {input tokens rest : List Token}
      (place : ArgumentPlace options command input (tokens ++ rest)) (isBreak : LineBreak tokens) :
      Exposes options .argument (.leaf .newline "\n") (⟨.command, command⟩ :: input)
  /-- A comment in the place of an argument is the argument. -/
  | commentAsArgument {command content : String} {input rest : List Token}
      (place : ArgumentPlace options command input (⟨.comment, content⟩ :: rest)) :
      Exposes options .argument (.leaf .comment content) (⟨.command, command⟩ :: input)

/-- Somewhere among the tokens layout is made the operand. -/
def Exposed (options : ParseOptions) (tokens : List Token) (role : OperandRole) (operand : Node) :
    Prop :=
  ∃ pattern, pattern <:+: tokens ∧ Exposes options role operand pattern

/-- The operands of the node that are layout are exposed by the tokens, and space is a part
of the node only as a base. -/
structure Placed (options : ParseOptions) (tokens : List Token) (node : Node) : Prop where
  operands : ∀ role operand, IsOperand role operand node → operand.isLayout = true →
    Exposed options tokens role operand
  spaces : ∀ part, IsPart part node → part.isSpace = true → IsOperand .base part node

/-- So it is with every node of the tree. -/
def AllPlaced (options : ParseOptions) (tokens : List Token) (tree : Node) : Prop :=
  ∀ node, Within node tree → Placed options tokens node

section Patterns

/-- The tokens hold every pattern that the part holds. A number that is split in the part
starts no pattern. -/
def Carries (tokens part : List Token) : Prop :=
  ∀ pattern, pattern <:+: part → (∀ token ∈ pattern.head?, token.kind ≠ .element) →
    pattern <:+: tokens

theorem Carries.of_inside {tokens part : List Token} (inside : part <:+: tokens) :
    Carries tokens part :=
  fun _ isPattern _ => isPattern.trans inside

theorem Carries.trans {tokens middle part : List Token} (first : Carries tokens middle)
    (second : Carries middle part) : Carries tokens part :=
  fun pattern isPattern starts => first pattern (second pattern isPattern starts) starts

theorem Carries.append_left {tokens part : List Token} (before : List Token)
    (carries : Carries tokens part) : Carries (before ++ tokens) part :=
  (Carries.of_inside (List.suffix_append before tokens).isInfix).trans carries

theorem Carries.cons {tokens part : List Token} (token : Token) (carries : Carries tokens part) :
    Carries (token :: tokens) part :=
  carries.append_left [token]

/-- Splitting a number brings no pattern. -/
theorem carries_splitFirst (token : Token) (tail : List Token) :
    Carries (token :: tail) (splitFirst (token :: tail)) := by
  rcases splitFirst_cons token tail with same | ⟨digit, remainder, split, parts⟩
  · rw [same]
    exact .of_inside (List.infix_refl _)
  · obtain ⟨first, second, rest, -, rfl, rfl, rfl⟩ := splitNumber?_eq_some split
    rw [parts]
    intro pattern isPattern starts
    have inTail : pattern <:+: tail := by
      cases pattern with
      | nil => exact List.nil_infix
      | cons head others =>
        have solid := starts head rfl
        rcases List.infix_cons_iff.mp isPattern with atDigit | later
        · exact absurd (by rw [(List.cons_prefix_cons.mp atDigit).1]) solid
        · rcases List.infix_cons_iff.mp later with atRemainder | inTail
          · exact absurd (by rw [(List.cons_prefix_cons.mp atRemainder).1]) solid
          · exact inTail
    exact inTail.trans (List.suffix_cons _ tail).isInfix

theorem LineBreak.exists_cons {tokens : List Token} (isBreak : LineBreak tokens) :
    ∃ first rest, tokens = first :: rest ∧ (first.kind = .newline ∨ first = .openBrace) := by
  cases isBreak with
  | token value => exact ⟨_, [], rfl, .inl rfl⟩
  | braced spaceBefore inside spaceAfter => exact ⟨.openBrace, _, rfl, .inr rfl⟩

theorem Exposes.kind_head {options : ParseOptions} {role : OperandRole} {operand : Node}
    {pattern : List Token} (exposes : Exposes options role operand pattern) :
    ∀ token ∈ pattern.head?, token.kind ≠ .element := by
  have mark (mark : Token.ScriptMark) : (markToken mark).kind ≠ .element := by cases mark <;> decide
  cases exposes with
  | spaceBeforePrime content => simp
  | scriptedBreak isBreak attaches =>
    obtain ⟨first, rest, rfl, isNewline | rfl⟩ := isBreak.exists_cons
    · simp [isNewline]
    · simp [Token.openBrace]
  | breakAsScript announced isBreak => simpa using mark announced
  | commentAsScript announced content => simpa using mark announced
  | breakAsArgument place isBreak => simp
  | commentAsArgument place => simp

variable {options : ParseOptions} {tokens part : List Token}

theorem Exposed.carry {role : OperandRole} {operand : Node}
    (exposed : Exposed options part role operand) (carries : Carries tokens part) :
    Exposed options tokens role operand := by
  obtain ⟨pattern, isPattern, exposes⟩ := exposed
  exact ⟨pattern, carries pattern isPattern exposes.kind_head, exposes⟩

theorem AllPlaced.carry {tree : Node} (placed : AllPlaced options part tree)
    (carries : Carries tokens part) : AllPlaced options tokens tree := by
  intro node within
  have here := placed node within
  exact ⟨fun role operand isOperand layout => (here.operands role operand isOperand layout).carry carries,
    here.spaces⟩

theorem Carries.scriptsClose (carries : Carries tokens part) (close : ScriptsClose tokens) :
    ScriptsClose part := by
  refine List.isChain_iff_forall_rel_of_append_cons_cons.mpr ?_
  rintro first second before after rfl spaced
  have inPart : [first, second] <:+: before ++ first :: second :: after := ⟨before, after, by simp⟩
  have notElement : first.kind ≠ .element := by
    rcases spaced with ⟨space, -⟩ | ⟨mark, -⟩
    · simp [space]
    · simp [kind_of_isScriptMark mark]
  have inTokens := carries _ inPart (by simpa using notElement)
  have pairCloses := List.IsChain.infix close inTokens
  exact List.isChain_pair.mp pairCloses spaced

end Patterns

section Nodes

variable {options : ParseOptions} {tokens : List Token}

theorem AllPlaced.of_parts {tree : Node} (here : Placed options tokens tree)
    (parts : ∀ part, IsPart part tree → AllPlaced options tokens part) :
    AllPlaced options tokens tree := by
  intro node within
  cases within with
  | refl => exact here
  | part inner isPart => exact parts _ isPart node inner

theorem allPlaced_leaf (kind : LeafKind) (content : String) :
    AllPlaced options tokens (.leaf kind content) := by
  have noOperand {role : OperandRole} {operand : Node} :
      ¬ IsOperand role operand (.leaf kind content) := by
    rintro ⟨⟩
  have noPart {part : Node} : ¬ IsPart part (.leaf kind content) := by
    rintro ⟨isOperand⟩
    exact noOperand isOperand
  exact .of_parts ⟨fun _ _ isOperand => (noOperand isOperand).elim, fun _ isPart => (noPart isPart).elim⟩
    fun _ isPart => (noPart isPart).elim

/-- A tree that can stand anywhere: all is placed in it, and it is not space. -/
structure Spaceless (options : ParseOptions) (tokens : List Token) (tree : Node) : Prop where
  placed : AllPlaced options tokens tree
  notSpace : tree.isSpace = false

theorem Spaceless.carry {part : List Token} {tree : Node} (spaceless : Spaceless options part tree)
    (carries : Carries tokens part) : Spaceless options tokens tree :=
  ⟨spaceless.placed.carry carries, spaceless.notSpace⟩

theorem spaceless_leaf {kind : LeafKind} (content : String) (notSpace : kind ≠ .whitespace) :
    Spaceless options tokens (.leaf kind content) :=
  ⟨allPlaced_leaf kind content, by simpa [isSpace] using notSpace⟩

theorem spaceless_of_parts {tree : Node} (notSpace : tree.isSpace = false)
    (exposed : ∀ role operand, IsOperand role operand tree → operand.isLayout = true →
      Exposed options tokens role operand)
    (parts : ∀ part, IsPart part tree → Spaceless options tokens part) : Spaceless options tokens tree := by
  refine ⟨.of_parts ⟨exposed, ?_⟩ fun part isPart => (parts part isPart).placed, notSpace⟩
  intro part isPart space
  rw [(parts part isPart).notSpace] at space
  cases space

theorem spaceless_ordgroup (content : String) {parts : List Node}
    (spaceless : ∀ part ∈ parts, Spaceless options tokens part) :
    Spaceless options tokens (.ordgroup content parts) := by
  refine spaceless_of_parts rfl (by rintro _ _ ⟨⟩) ?_
  rintro part (⟨⟨⟩⟩ | _ | ⟨_, member⟩)
  exact spaceless part member

theorem spaceless_group {parts : List Node} (spaceless : ∀ part ∈ parts, Spaceless options tokens part) :
    Spaceless options tokens (.group parts) := by
  match parts, spaceless with
  | [], _ => exact spaceless_leaf "" (by decide)
  | [part], spaceless => exact spaceless part (by simp)
  | _ :: _ :: _, spaceless => exact spaceless_ordgroup "" spaceless

theorem spaceless_leftright {opening body closing : Node} (content : String)
    (openingSpaceless : Spaceless options tokens opening) (bodySpaceless : Spaceless options tokens body)
    (closingSpaceless : Spaceless options tokens closing) :
    Spaceless options tokens (.leftright content opening body closing) := by
  refine spaceless_of_parts rfl (by rintro _ _ ⟨⟩) ?_
  rintro part (⟨⟨⟩⟩ | _ | _ | _ | _ | _)
  · exact openingSpaceless
  · exact bodySpaceless
  · exact closingSpaceless

theorem spaceless_beginend (name : String) {rows : List (List Node)}
    (spaceless : ∀ row ∈ rows, ∀ cell ∈ row, Spaceless options tokens cell) :
    Spaceless options tokens (.beginend name rows) := by
  refine spaceless_of_parts rfl (by rintro _ _ ⟨⟩) ?_
  rintro part (⟨⟨⟩⟩ | _ | _ | _ | _ | _ | ⟨_, isRow, isCell⟩)
  exact spaceless _ isRow part isCell

/-- An operand other than a base: it can stand anywhere, and if it is layout, the tokens
expose it. -/
structure SpacelessOperand (options : ParseOptions) (tokens : List Token) (role : OperandRole)
    (operand : Node) : Prop extends Spaceless options tokens operand where
  exposed : operand.isLayout = true → Exposed options tokens role operand

theorem SpacelessOperand.carry {part : List Token} {role : OperandRole} {operand : Node}
    (spaceless : SpacelessOperand options part role operand) (carries : Carries tokens part) :
    SpacelessOperand options tokens role operand :=
  ⟨spaceless.toSpaceless.carry carries, fun layout => (spaceless.exposed layout).carry carries⟩

theorem spaceless_unaryFunc (command : String) {arg : Node} {index : Option Node}
    (argSpaceless : SpacelessOperand options tokens .argument arg)
    (indexSpaceless : ∀ node ∈ index, Spaceless options tokens node) :
    Spaceless options tokens (.unaryFunc command arg index) := by
  refine spaceless_of_parts rfl ?_ ?_
  · rintro role operand ⟨⟩ layout
    exact argSpaceless.exposed layout
  · rintro part (⟨⟨⟩⟩ | _)
    · exact argSpaceless.toSpaceless
    · exact indexSpaceless part rfl

theorem spaceless_binaryFunc (command : String) {first second : Node}
    (firstSpaceless : SpacelessOperand options tokens .argument first)
    (secondSpaceless : SpacelessOperand options tokens .argument second) :
    Spaceless options tokens (.binaryFunc command first second) := by
  refine spaceless_of_parts rfl ?_ ?_
  · rintro role operand ⟨⟩ layout
    · exact firstSpaceless.exposed layout
    · exact secondSpaceless.exposed layout
  · rintro part ⟨⟨⟩⟩
    · exact firstSpaceless.toSpaceless
    · exact secondSpaceless.toSpaceless

/-- Only the base of scripts may be space. -/
theorem spaceless_supsub (content : String) {base : Node} {sup sub : Option Node}
    (basePlaced : AllPlaced options tokens base)
    (baseExposed : base.isLayout = true → Exposed options tokens .base base)
    (supSpaceless : ∀ script ∈ sup, SpacelessOperand options tokens .script script)
    (subSpaceless : ∀ script ∈ sub, SpacelessOperand options tokens .script script) :
    Spaceless options tokens (.supsub content base sup sub) := by
  refine ⟨.of_parts ⟨?_, ?_⟩ ?_, rfl⟩
  · rintro role operand ⟨⟩ layout
    · exact baseExposed layout
    · exact (supSpaceless operand rfl).exposed layout
    · exact (subSpaceless operand rfl).exposed layout
  · rintro part ⟨isOperand⟩ space
    cases isOperand with
    | base => exact .base content base sup sub
    | sup => simp [(supSpaceless part rfl).notSpace] at space
    | sub => simp [(subSpaceless part rfl).notSpace] at space
  · rintro part ⟨isOperand⟩
    cases isOperand with
    | base => exact basePlaced
    | sup => exact (supSpaceless part rfl).placed
    | sub => exact (subSpaceless part rfl).placed

end Nodes

section Readings

variable {options : ParseOptions} {depth : Nat} {next : Following}

/-- What is known of an operand: its layout is placed, it takes from the tokens what they
hold, and if it is layout itself, it takes nothing else. -/
structure OperandAt (options : ParseOptions) (input : List Token) (node : Node)
    (rest : List Token) : Prop where
  carries : Carries input rest
  placed : AllPlaced options input node
  space : ∀ content, node = .leaf .whitespace content → input = ⟨.whitespace, content⟩ :: rest
  lineBreak : ∀ content, node = .leaf .newline content →
    content = "\n" ∧ ∃ tokens, LineBreak tokens ∧ input = tokens ++ rest
  comment : ∀ content, node = .leaf .comment content → input = ⟨.comment, content⟩ :: rest

/-- Whatever is read from tokens in which comments end their lines and no space stands beside
a script mark is such an operand. -/
def Places (options : ParseOptions) (reading : Reading) : Prop :=
  ∀ ⦃input node rest⦄, reading input node rest → ∀ ⦃next⦄, endsLines next input = true →
    ScriptsClose input → OperandAt options input node rest

theorem OperandAt.of_leaf {token : Token} {node : Node} {rest : List Token}
    (plain : leafOf? token = some node) : OperandAt options (token :: rest) node rest := by
  have carries : Carries (token :: rest) rest := .of_inside (List.suffix_cons token rest).isInfix
  obtain ⟨kind, value⟩ := token
  cases kind with
  | command => cases plain
  | control =>
    change (if ["\\\\", "\\,", "&"].contains value then some (Node.leaf .control value) else none) =
      some node at plain
    split at plain
    · cases plain
      exact ⟨carries, allPlaced_leaf _ _, by simp, by simp, by simp⟩
    · cases plain
  | newline =>
    cases plain
    exact ⟨carries, allPlaced_leaf _ _, by simp, by simpa using ⟨_, .token value, rfl⟩, by simp⟩
  | element | unknown | text | comment | whitespace =>
    cases plain
    exact ⟨carries, allPlaced_leaf _ _, by simp, by simp, by simp⟩

/-- An operand that is no layout. -/
theorem OperandAt.of_spaceless {input rest : List Token} {node : Node} (carries : Carries input rest)
    (spaceless : Spaceless options input node) (noLayout : node.isLayout = false) :
    OperandAt options input node rest := by
  refine ⟨carries, spaceless.placed, ?_, ?_, ?_⟩
  all_goals
    rintro content rfl
    cases noLayout

/-- Scripts are there exactly if a prime or a script mark is. -/
theorem ScriptsOf.starts {inner : Reading} {input rest : List Token} {scripts : Parser.Scripts}
    (attached : ScriptsOf inner input scripts rest) :
    (scripts = {} ∧ rest = input) ∨
      ((scripts.superscript.isSome = true ∨ scripts.sub.isSome = true) ∧
        ∃ token tail, input = token :: tail ∧ (token = .prime ∨ token.isScriptMark = true)) := by
  have starts (primes : Nat) (mark : Token.ScriptMark) (tokens : List Token) :
      ∃ token tail, List.replicate primes .prime ++ markToken mark :: tokens = token :: tail ∧
        (token = .prime ∨ token.isScriptMark = true) := by
    cases primes with
    | zero => exact ⟨_, _, rfl, .inr (by simp [Token.isScriptMark])⟩
    | succ count => exact ⟨_, _, rfl, .inl rfl⟩
  cases attached with
  | none primes rest =>
    cases primes with
    | zero => exact .inl ⟨rfl, rfl⟩
    | succ count => exact .inr ⟨.inl rfl, _, _, rfl, .inl rfl⟩
  | sub primes morePrimes script => exact .inr ⟨.inr rfl, starts _ _ _⟩
  | subSup primes morePrimes first second => exact .inr ⟨.inr rfl, starts _ _ _⟩
  | sup primes script =>
    refine .inr ⟨.inl ?_, starts _ _ _⟩
    cases primes <;> rfl
  | supSub primes first second => exact .inr ⟨.inr rfl, starts _ _ _⟩

theorem attach_of_scripted (base : Node) {scripts : Parser.Scripts}
    (scripted : scripts.superscript.isSome = true ∨ scripts.sub.isSome = true) :
    scripts.attach base = .supsub "" base scripts.superscript scripts.sub := by
  unfold Parser.Scripts.attach
  split
  · rename_i noSup noSub
    simp [noSup, noSub] at scripted
  · rfl

section Composition

variable (keeps : KeepsLines (Reads options depth)) (places : Places options (Reads options depth))

include keeps places

/-- What is read as a script right after its mark. -/
theorem placed_script {input rest : List Token} {script : Node} {mark : Token.ScriptMark}
    (read : Reads options depth input script rest)
    (ended : endsLines next (markToken mark :: input) = true)
    (close : ScriptsClose (markToken mark :: input)) :
    SpacelessOperand options (markToken mark :: input) .script script ∧
      Carries (markToken mark :: input) rest ∧ endsLines next rest = true := by
  have inside : Carries (markToken mark :: input) input :=
    .of_inside (List.suffix_cons _ input).isInfix
  have operand := places read (endsLines_tail ended) close.tail
  have isMark : (markToken mark).isScriptMark = true := by simp [Token.isScriptMark]
  have notSpace (content : String) : script ≠ .leaf .whitespace content := by
    intro isSpace
    rw [operand.space content isSpace] at close
    exact (List.isChain_cons_cons.mp close).1 (.inr ⟨isMark, rfl⟩)
  refine ⟨⟨⟨operand.placed.carry inside, ?_⟩, ?_⟩, inside.trans operand.carries,
    (keeps read (endsLines_tail ended)).lines⟩
  · simpa [← Bool.not_eq_true, isSpace_iff] using notSpace
  · intro layout
    rcases isLayout_iff.mp layout with ⟨content, isSpace⟩ | ⟨content, isBreak⟩ | ⟨content, isComment⟩
    · exact absurd isSpace (notSpace content)
    · obtain ⟨rfl, tokens, breaks, rfl⟩ := operand.lineBreak content isBreak
      rw [isBreak]
      exact ⟨_, (List.prefix_append (markToken mark :: tokens) rest).isInfix, .breakAsScript mark breaks⟩
    · rw [isComment, operand.comment content isComment]
      exact ⟨_, (List.prefix_append [markToken mark, _] rest).isInfix, .commentAsScript mark content⟩

/-- Scripts that can stand after any base. -/
structure ScriptsAt (options : ParseOptions) (input : List Token) (scripts : Parser.Scripts)
    (rest : List Token) : Prop where
  carries : Carries input rest
  sup : ∀ script ∈ scripts.sup, SpacelessOperand options input .script script
  sub : ∀ script ∈ scripts.sub, SpacelessOperand options input .script script

theorem ScriptsOf.placed {input rest : List Token} {scripts : Parser.Scripts}
    (attached : ScriptsOf (Reads options depth) input scripts rest)
    (ended : endsLines next input = true) (close : ScriptsClose input) :
    ScriptsAt options input scripts rest := by
  have later (before after : List Token) : Carries (before ++ after) after :=
    .of_inside (List.suffix_append before after).isInfix
  cases attached with
  | none primes rest => exact ⟨later _ _, by simp, by simp⟩
  | @sub primes morePrimes input rest sub script =>
    have atMark := later (List.replicate primes .prime) (markToken .subscript :: input)
    obtain ⟨below, carries, -⟩ :=
      placed_script keeps places script (endsLines_right ended) (atMark.scriptsClose close)
    exact ⟨atMark.trans (carries.trans (later _ _)), by simp, by simpa using below.carry atMark⟩
  | @subSup primes morePrimes input middle rest sub sup first second =>
    have atMark := later (List.replicate primes .prime) (markToken .subscript :: input)
    obtain ⟨below, carries, middleEnded⟩ :=
      placed_script keeps places first (endsLines_right ended) (atMark.scriptsClose close)
    have atSecond := atMark.trans
      (carries.trans (later (List.replicate morePrimes .prime) (markToken .superscript :: middle)))
    obtain ⟨above, moreCarries, -⟩ :=
      placed_script keeps places second (endsLines_right middleEnded) (atSecond.scriptsClose close)
    exact ⟨atSecond.trans moreCarries, by simpa using above.carry atSecond,
      by simpa using below.carry atMark⟩
  | @sup primes input rest sup script =>
    have atMark := later (List.replicate primes .prime) (markToken .superscript :: input)
    obtain ⟨above, carries, -⟩ :=
      placed_script keeps places script (endsLines_right ended) (atMark.scriptsClose close)
    exact ⟨atMark.trans carries, by simpa using above.carry atMark, by simp⟩
  | @supSub primes input middle rest sub sup first second =>
    have atMark := later (List.replicate primes .prime) (markToken .superscript :: input)
    obtain ⟨above, carries, middleEnded⟩ :=
      placed_script keeps places first (endsLines_right ended) (atMark.scriptsClose close)
    have atSecond := atMark.trans carries
    obtain ⟨below, moreCarries, -⟩ :=
      placed_script keeps places second middleEnded (atSecond.scriptsClose close)
    exact ⟨atSecond.trans moreCarries, by simpa using above.carry atMark,
      by simpa using below.carry atSecond⟩

omit keeps places in
/-- The primes before a superscript can stand anywhere. -/
theorem ScriptsAt.superscript {input rest : List Token} {scripts : Parser.Scripts}
    (attached : ScriptsAt options input scripts rest) :
    ∀ script ∈ scripts.superscript, SpacelessOperand options input .script script := by
  unfold Parser.Scripts.superscript
  split
  · exact attached.sup
  · rename_i hasPrimes
    obtain ⟨count, isCount⟩ := Nat.exists_eq_add_one_of_ne_zero hasPrimes
    rintro script ⟨⟩
    refine ⟨spaceless_group fun part member => ?_, ?_⟩
    · rcases List.mem_append.mp member with isPrime | isSup
      · rw [List.eq_of_mem_replicate isPrime]
        exact spaceless_leaf _ (by decide)
      · exact (attached.sup part (Option.mem_toList.mp isSup)).toSpaceless
    · rw [isCount, List.replicate_succ, List.cons_append]
      cases List.replicate count (Node.symbol "\\prime") ++ scripts.sup.toList with
      | nil => simp [isLayout, Node.group]
      | cons part parts => simp [isLayout, Node.group]

/-- A base is layout only where something attaches to it. -/
theorem Scripted.placed : Places options (Scripted (Reads options depth)) := by
  rintro input node rest ⟨baseRead, attached, -⟩ next ended close
  rename_i middle base scripts
  have operand := places baseRead ended close
  have scriptsPlaced := attached.placed keeps places (keeps baseRead ended).lines
    (operand.carries.scriptsClose close)
  rcases attached.starts with ⟨rfl, rfl⟩ | ⟨scripted, token, tail, rfl, attaches⟩
  · exact operand
  rw [attach_of_scripted base scripted]
  refine .of_spaceless (operand.carries.trans scriptsPlaced.carries) ?_ rfl
  refine spaceless_supsub "" operand.placed ?_
    (fun script member => (scriptsPlaced.superscript script member).carry operand.carries)
    fun script member => (scriptsPlaced.sub script member).carry operand.carries
  intro layout
  rcases isLayout_iff.mp layout with ⟨content, isSpace⟩ | ⟨content, isBreak⟩ | ⟨content, isComment⟩
  · have starts := operand.space content isSpace
    rw [starts] at close
    have isPrime : token = .prime :=
      attaches.resolve_right fun mark => (List.isChain_cons_cons.mp close).1 (.inl ⟨rfl, mark⟩)
    rw [isSpace, starts, isPrime]
    exact ⟨_, (List.prefix_append [_, Token.prime] tail).isInfix, .spaceBeforePrime content⟩
  · obtain ⟨rfl, tokens, breaks, rfl⟩ := operand.lineBreak content isBreak
    rw [isBreak]
    exact ⟨tokens ++ [token], ⟨[], tail, by simp⟩, .scriptedBreak breaks attaches⟩
  · rw [operand.comment content isComment] at ended
    have stops := opening_cons_ne_other_iff.mp (opening_of_comment rfl ended)
    rcases attaches with rfl | mark
    · cases stops
    · have isControl := kind_of_isScriptMark mark
      rw [role_eq_lineBreak_iff, isControl] at stops
      cases stops

theorem Parts.placed {input : List Token} {parts : List Node}
    (read : Parts (Reads options depth) input parts) (ended : endsLines next input = true)
    (close : ScriptsClose input) : ∀ part ∈ parts, AllPlaced options input part := by
  induction read with
  | nil => simp
  | cons first others inductionHypothesis =>
    have operand := Scripted.placed keeps places first ended close
    have restEnded := (Scripted.lines keeps first ended).1
    intro part member
    rcases List.mem_cons.mp member with rfl | inRest
    · exact operand.placed
    · exact (inductionHypothesis restEnded (operand.carries.scriptsClose close) part inRest).carry
        operand.carries

/-- Parts that are space are read from space. -/
theorem Parts.space {input : List Token} {parts : List Node}
    (read : Parts (Reads options depth) input parts) (ended : endsLines next input = true)
    (close : ScriptsClose input) (spaces : ∀ part ∈ parts, part.isSpace = true) :
    ∀ token ∈ input, token.kind = .whitespace := by
  induction read with
  | nil => simp
  | cons first others inductionHypothesis =>
    rw [List.forall_mem_cons] at spaces
    have operand := Scripted.placed keeps places first ended close
    have restEnded := (Scripted.lines keeps first ended).1
    obtain ⟨content, isSpace⟩ := isSpace_iff.mp spaces.1
    have restSpace := inductionHypothesis restEnded (operand.carries.scriptsClose close) spaces.2
    rw [operand.space content isSpace]
    simpa using restSpace

/-- A line break with nothing but space around it is read from one. -/
theorem Parts.lineBreak {input : List Token} {parts : List Node} {content : String}
    (read : Parts (Reads options depth) input parts) (ended : endsLines next input = true)
    (close : ScriptsClose input)
    (single : parts.filter (!·.isSpace) = [.leaf .newline content]) :
    content = "\n" ∧ ∃ before inner after, input = before ++ inner ++ after ∧ LineBreak inner ∧
      (∀ token ∈ before, token.kind = .whitespace) ∧ ∀ token ∈ after, token.kind = .whitespace := by
  induction read with
  | nil => cases single
  | @cons token tail rest part parts first others inductionHypothesis =>
    have operand := Scripted.placed keeps places first ended close
    have restEnded := (Scripted.lines keeps first ended).1
    have restClose := operand.carries.scriptsClose close
    cases space : part.isSpace with
    | true =>
      obtain ⟨blank, isSpace⟩ := isSpace_iff.mp space
      obtain ⟨isBreak, before, inner, after, rfl, breaks, spaceBefore, spaceAfter⟩ :=
        inductionHypothesis restEnded restClose (by simpa [space] using single)
      refine ⟨isBreak, ⟨.whitespace, blank⟩ :: before, inner, after, ?_, breaks, ?_, spaceAfter⟩
      · rw [operand.space blank isSpace]
        simp
      · simpa using spaceBefore
    | false =>
      have isPart : part = .leaf .newline content ∧ ∀ other ∈ parts, other.isSpace = true := by
        simpa [space] using single
      obtain ⟨isBreak, tokens, breaks, split⟩ := operand.lineBreak content isPart.1
      exact ⟨isBreak, [], tokens, rest, by simpa using split, breaks, by simp,
        Parts.space keeps places others restEnded restClose isPart.2⟩

omit keeps places in
/-- Space is all that is left out of a sequence. -/
theorem keeps_eq_not_isSpace (dropsSpace : options.keepSpace = false)
    (keepsNewlines : options.keepNewlines = true) :
    Parser.keeps options = fun part => !part.isSpace := by
  funext part
  unfold Parser.keeps
  split
  · rw [dropsSpace]
    rfl
  · rw [keepsNewlines]
    rfl
  · rename_i notSpace notBreak
    symm
    simpa [← Bool.not_eq_true, isSpace_iff] using notSpace

omit keeps places in
theorem eq_singleton_of_group {parts : List Node} {kind : LeafKind} {content : String}
    (isLeaf : Node.group parts = .leaf kind content) (full : kind ≠ .empty) :
    parts = [.leaf kind content] := by
  match parts, isLeaf with
  | [], isLeaf =>
    cases isLeaf
    exact absurd rfl full
  | [part], isLeaf => exact congrArg (fun part => [part]) isLeaf

theorem Sequence.placed {input : List Token} {node : Node} (dropsSpace : options.keepSpace = false)
    (keepsNewlines : options.keepNewlines = true)
    (read : Sequence (Reads options depth) options input node) (ended : endsLines next input = true)
    (close : ScriptsClose input) : Spaceless options input node := by
  obtain ⟨partsRead, -⟩ := read
  rw [keeps_eq_not_isSpace dropsSpace keepsNewlines]
  refine spaceless_group fun part member => ?_
  obtain ⟨isPart, notSpace⟩ := List.mem_filter.mp member
  exact ⟨Parts.placed keeps places partsRead ended close part isPart, by simpa using notSpace⟩

/-- Braces around a line break are read as one. -/
theorem Sequence.lineBreak {input : List Token} {content : String}
    (dropsSpace : options.keepSpace = false) (keepsNewlines : options.keepNewlines = true)
    (read : Sequence (Reads options depth) options input (.leaf .newline content))
    (ended : endsLines next input = true) (close : ScriptsClose input) :
    content = "\n" ∧ LineBreak (.openBrace :: input ++ [.closeBrace]) := by
  generalize isNode : Node.leaf .newline content = node at read
  obtain ⟨partsRead, -⟩ := read
  rw [keeps_eq_not_isSpace dropsSpace keepsNewlines] at isNode
  have single := eq_singleton_of_group isNode.symm (by decide)
  obtain ⟨isBreak, before, inner, after, rfl, breaks, spaceBefore, spaceAfter⟩ :=
    Parts.lineBreak keeps places partsRead ended close single
  exact ⟨isBreak, .braced spaceBefore breaks spaceAfter⟩

omit keeps places in
/-- Space does not change a grid. -/
theorem ofParts_filter_space (parts : List Node) :
    Grid.ofParts (parts.filter (!·.isSpace)) = Grid.ofParts parts := by
  have same : (fun (draft : Grid.Draft) (part : Node) =>
      if !part.isSpace then draft.add part else draft) = Grid.Draft.add := by
    funext draft part
    cases space : part.isSpace with
    | false => rfl
    | true =>
      obtain ⟨content, rfl⟩ := isSpace_iff.mp space
      rfl
  unfold Grid.ofParts
  rw [List.foldl_filter, same]

theorem Rows.placed {input : List Token} {rows : List (List Node)}
    (read : Rows (Reads options depth) input rows) (ended : endsLines next input = true)
    (close : ScriptsClose input) (name : String) : Spaceless options input (.beginend name rows) := by
  obtain ⟨partsRead⟩ := read
  rename_i parts
  rw [← ofParts_filter_space]
  have kept : ∀ part ∈ parts.filter (!·.isSpace), Spaceless options input part := by
    intro part member
    obtain ⟨isPart, notSpace⟩ := List.mem_filter.mp member
    exact ⟨Parts.placed keeps places partsRead ended close part isPart, by simpa using notSpace⟩
  have cells := Grid.cells_ofParts (Spaceless options input) fun part member _ => kept part member
  refine spaceless_beginend name fun row isRow cell isCell => ?_
  obtain ⟨items, rfl, spaceless⟩ := cells row isRow cell isCell
  cases items with
  | nil => exact spaceless_ordgroup "" spaceless
  | cons first rest => exact spaceless_group spaceless

omit keeps places in
/-- If the first token is no element, then no number was split. -/
theorem eq_of_splitFirst {token first : Token} {tail others : List Token}
    (split : splitFirst (token :: tail) = first :: others) (other : first.kind ≠ .element) :
    token :: tail = first :: others := by
  rcases splitFirst_cons token tail with same | ⟨digit, remainder, isNumber, parts⟩
  · rw [← same, split]
  · obtain ⟨_, _, _, -, -, rfl, -⟩ := splitNumber?_eq_some isNumber
    rw [parts] at split
    cases split
    exact absurd rfl other

omit keeps in
/-- An argument is not space, and layout only in braces or as a comment. -/
theorem Argument.placed {input rest : List Token} {arg : Node}
    (read : Argument (Reads options depth) input arg rest) (ended : endsLines next input = true)
    (close : ScriptsClose input) :
    Spaceless options input arg ∧ Carries input rest ∧ (arg.isLayout = true →
      ∃ layout place, input = layout ++ place ∧ (∀ blank ∈ layout, blank.isLayout = true) ∧
        (∀ token ∈ place.head?, token.isLayout = false) ∧
        ((arg = .leaf .newline "\n" ∧ ∃ tokens, LineBreak tokens ∧ place = tokens ++ rest) ∨
          ∃ content, arg = .leaf .comment content ∧ place = ⟨.comment, content⟩ :: rest)) := by
  obtain ⟨passed, solid, inside, read⟩ := read
  rename_i layout tail token
  have atPlace : Carries (layout ++ token :: tail) (token :: tail) :=
    .of_inside (List.suffix_append layout _).isInfix
  have atSplit := atPlace.trans (carries_splitFirst token tail)
  have operand := places read (endsLines_splitFirst (endsLines_right ended))
    (atSplit.scriptsClose close)
  have notSpace (content : String) : arg ≠ .leaf .whitespace content := by
    intro isSpace
    cases eq_of_splitFirst (operand.space content isSpace) (by simp)
    cases solid
  refine ⟨⟨operand.placed.carry atSplit, ?_⟩, atSplit.trans operand.carries, fun isLayout => ?_⟩
  · simpa [← Bool.not_eq_true, isSpace_iff] using notSpace
  · refine ⟨layout, token :: tail, rfl, passed, by simpa using solid, ?_⟩
    rcases isLayout_iff.mp isLayout with ⟨content, isSpace⟩ | ⟨content, isBreak⟩ | ⟨content, isComment⟩
    · exact absurd isSpace (notSpace content)
    · obtain ⟨rfl, tokens, breaks, split⟩ := operand.lineBreak content isBreak
      obtain ⟨first, others, rfl, starts⟩ := breaks.exists_cons
      have notElement : first.kind ≠ .element := by
        rcases starts with isNewline | rfl
        · simp [isNewline]
        · simp [Token.openBrace]
      exact .inl ⟨isBreak, first :: others, breaks, eq_of_splitFirst split notElement⟩
    · exact .inr ⟨content, isComment, eq_of_splitFirst (operand.comment content isComment) (by simp)⟩

omit keeps in
/-- An argument that starts where an argument of the command can start. -/
theorem Argument.spacelessOperand {command : String} {whole input rest : List Token} {arg : Node}
    (read : Argument (Reads options depth) input arg rest) (ended : endsLines next input = true)
    (close : ScriptsClose input) (carries : Carries whole input)
    (reaches : ∀ layout place, input = layout ++ place → (∀ blank ∈ layout, blank.isLayout = true) →
      (∀ token ∈ place.head?, token.isLayout = false) → ArgumentPlace options command whole place) :
    SpacelessOperand options (⟨.command, command⟩ :: whole) .argument arg := by
  obtain ⟨spaceless, -, layoutCases⟩ := read.placed places ended close
  refine ⟨spaceless.carry (carries.cons _), fun isLayout => ⟨_, List.infix_refl _, ?_⟩⟩
  obtain ⟨layout, place, split, passed, solid, isBreak | isComment⟩ := layoutCases isLayout
  · obtain ⟨rfl, tokens, breaks, rfl⟩ := isBreak
    exact .breakAsArgument (reaches layout _ split passed solid) breaks
  · obtain ⟨content, rfl, rfl⟩ := isComment
    exact .commentAsArgument (reaches layout _ split passed solid)

/-- The index of a root and its argument. -/
theorem spaceless_root {command : String} {input middle rest : List Token} {index : Option Node}
    {arg : Node} (dropsSpace : options.keepSpace = false)
    (keepsNewlines : options.keepNewlines = true) (isRoot : command = "\\sqrt")
    (indexRead : IndexAt (Reads options depth) options input index middle)
    (argument : Argument (Reads options depth) middle arg rest)
    (ended : endsLines next input = true) (close : ScriptsClose input) :
    Spaceless options (⟨.command, command⟩ :: input) (.unaryFunc command arg index) ∧
      Carries input rest := by
  have takesArgument : Arity.ofName (commandName command) ≠ .constant := by
    rw [isRoot]
    decide
  have middleEnded := (indexRead.lines keepsNewlines keeps ended).1
  cases indexRead with
  | none absent =>
    have arg := argument.spacelessOperand places ended close (.of_inside (List.infix_refl _)) <| by
      rintro layout place rfl passed solid
      exact .first takesArgument passed solid
    exact ⟨spaceless_unaryFunc command arg (by simp), (argument.placed places ended close).2.1⟩
  | @some layout body middle index passed balanced inside =>
    have atMiddle : Carries (layout ++ .openBracket :: body ++ .closeBracket :: middle) middle :=
      .of_inside ⟨layout ++ .openBracket :: body ++ [.closeBracket], [], by simp⟩
    have atBody : Carries (layout ++ .openBracket :: body ++ .closeBracket :: middle) body :=
      .of_inside ⟨layout ++ [.openBracket], .closeBracket :: middle, by simp⟩
    have middleClose := atMiddle.scriptsClose close
    have bodyEnded : endsLines .other body = true := by
      rw [List.append_assoc] at ended
      exact endsLines_left (endsLines_tail (endsLines_right ended)) rfl
    have indexPlaced := inside.placed keeps places dropsSpace keepsNewlines bodyEnded
      (atBody.scriptsClose close)
    have arg := argument.spacelessOperand places middleEnded middleClose atMiddle <| by
      rintro moreLayout place rfl morePassed solid
      exact .afterIndex isRoot passed balanced morePassed solid
    refine ⟨spaceless_unaryFunc command arg ?_,
      atMiddle.trans (argument.placed places middleEnded middleClose).2.1⟩
    rintro node ⟨⟩
    exact indexPlaced.carry (atBody.cons _)

/-- A command with its arguments is no layout. -/
theorem CommandAt.placed {command : String} {input rest : List Token} {node : Node}
    (dropsSpace : options.keepSpace = false) (keepsNewlines : options.keepNewlines = true)
    (read : CommandAt (Reads options depth) options command input node rest)
    (ended : endsLines next input = true) (close : ScriptsClose input) :
    OperandAt options (⟨.command, command⟩ :: input) node rest := by
  have start : Carries input input := .of_inside (List.infix_refl _)
  have atFirst (takesArgument : Arity.ofName (commandName command) ≠ .constant) :
      ∀ layout place, input = layout ++ place → (∀ blank ∈ layout, blank.isLayout = true) →
        (∀ token ∈ place.head?, token.isLayout = false) →
        ArgumentPlace options command input place := by
    rintro layout place rfl passed solid
    exact .first takesArgument passed solid
  cases read with
  | constant arity single =>
    refine .of_spaceless (start.cons _) ?_ ?_
    · split <;> exact spaceless_leaf _ (by decide)
    · split <;> rfl
  | unary arity read =>
    cases read with
    | text isText content rest =>
      exact .of_spaceless (.of_inside (List.suffix_append [_, _, _, _] rest).isInfix)
        (spaceless_leaf _ (by decide)) rfl
    | operator isOperator content rest =>
      have name : SpacelessOperand options (⟨.command, command⟩ :: .openBrace :: ⟨.text, content⟩ ::
          .closeBrace :: rest) .argument (.text content) :=
        ⟨spaceless_leaf _ (by decide), by simp [isLayout]⟩
      exact .of_spaceless (.of_inside (List.suffix_append [_, _, _, _] rest).isInfix)
        (spaceless_unaryFunc command name (by simp)) rfl
    | root isRoot indexRead argument =>
      obtain ⟨spaceless, carries⟩ := spaceless_root keeps places dropsSpace keepsNewlines isRoot indexRead
        argument ended close
      exact .of_spaceless (carries.cons _) spaceless rfl
    | other math argument =>
      have arg := argument.spacelessOperand places ended close start (atFirst (by simp [arity]))
      exact .of_spaceless ((argument.placed places ended close).2.1.cons _)
        (spaceless_unaryFunc command arg (by simp)) rfl
  | @binary _ middle rest first second arity firstArgument secondArgument =>
    obtain ⟨-, carries, -⟩ := firstArgument.placed places ended close
    have middleEnded := (firstArgument.lines keeps ended).1
    have middleClose := carries.scriptsClose close
    have firstArg := firstArgument.spacelessOperand places ended close start (atFirst (by simp [arity]))
    have secondArg := secondArgument.spacelessOperand places middleEnded middleClose carries <| by
      rintro layout place rfl passed solid
      exact .second arity firstArgument passed solid
    have atRest := carries.trans (secondArgument.placed places middleEnded middleClose).2.1
    exact .of_spaceless (atRest.cons _) (spaceless_binaryFunc command firstArg secondArg) rfl

theorem Delimited.placed {input rest : List Token} {node : Node}
    (dropsSpace : options.keepSpace = false) (keepsNewlines : options.keepNewlines = true)
    (read : Delimited (Reads options depth) options input node rest)
    (ended : endsLines next input = true) (close : ScriptsClose input) :
    OperandAt options (.left :: input) node rest := by
  obtain ⟨passed, opens, balanced, inside, morePassed, closes⟩ := read
  rename_i layout body moreLayout opening closing node
  have atBody : Carries (layout ++ opening :: (body ++ .right :: (moreLayout ++ closing :: rest))) body :=
    .of_inside ⟨layout ++ [opening], .right :: (moreLayout ++ closing :: rest), by simp⟩
  have atRest : Carries (layout ++ opening :: (body ++ .right :: (moreLayout ++ closing :: rest))) rest :=
    .of_inside ⟨layout ++ opening :: body ++ .right :: moreLayout ++ [closing], [], by simp⟩
  have bodyPlaced := inside.placed keeps places dropsSpace keepsNewlines
    (endsLines_left (endsLines_tail (endsLines_right ended)) rfl) (atBody.scriptsClose close)
  have delimiter (token : Token) {tokens : List Token} :
      Spaceless options tokens (Parser.delimiter token) :=
    spaceless_leaf _ (by split <;> decide)
  exact .of_spaceless (atRest.cons _)
    (spaceless_leftright "" (delimiter opening) (bodyPlaced.carry (atBody.cons _)) (delimiter closing)) rfl

theorem Environment.placed {input rest : List Token} {node : Node}
    (read : Environment (Reads options depth) input node rest)
    (ended : endsLines next input = true) (close : ScriptsClose input) :
    OperandAt options (.beginEnvironment :: input) node rest := by
  obtain ⟨rfl, balanced, specification, grid⟩ := read
  rename_i name inside columns rows
  generalize columns + _ = start at grid
  obtain ⟨trailing, split, -⟩ := eq_withoutTrailingLayout_append (inside.drop start)
  have insideEnded : endsLines .other inside = true :=
    endsLines_left (endsLines_afterBracedText ended) rfl
  have bodyEnded : endsLines .other (inside.drop start) = true := by
    rw [← List.take_append_drop start inside] at insideEnded
    exact endsLines_right insideEnded
  rw [split, endsLines_append, Bool.and_eq_true] at bodyEnded
  have inInside : Parser.withoutTrailingLayout (inside.drop start) <:+: inside :=
    (split ▸ List.prefix_append _ trailing).isInfix.trans (List.drop_suffix start inside).isInfix
  have atInside : inside <:+: .openBrace :: ⟨.text, name⟩ :: .closeBrace ::
      (inside ++ .endEnvironment :: .openBrace :: ⟨.text, name⟩ :: .closeBrace :: rest) :=
    ⟨[.openBrace, ⟨.text, name⟩, .closeBrace], _, by simp; rfl⟩
  have atBody := Carries.of_inside (inInside.trans atInside)
  have bodyPlaced := grid.placed keeps places bodyEnded.1 (atBody.scriptsClose close) name
  refine .of_spaceless (.cons _ (.of_inside ?_)) (bodyPlaced.carry (atBody.cons _)) rfl
  exact ⟨.openBrace :: ⟨.text, name⟩ :: .closeBrace :: inside ++
    [.endEnvironment, .openBrace, ⟨.text, name⟩, .closeBrace], [], by simp⟩

/-- Braces are read as what they hold. -/
theorem Operand.placed (dropsSpace : options.keepSpace = false)
    (keepsNewlines : options.keepNewlines = true) :
    Places options (Operand options (Reads options depth)) := by
  intro input node rest read next ended close
  have comment := (Operand.keepsLines keepsNewlines keeps read ended).comment
  cases read with
  | leaf plain => exact .of_leaf plain
  | missingBase mark rest =>
    exact .of_spaceless (.of_inside (List.infix_refl _)) (spaceless_leaf "" (by decide)) rfl
  | @group body rest node balanced inside =>
    have atBody : Carries (.openBrace :: body ++ .closeBrace :: rest) body :=
      .of_inside ⟨[.openBrace], .closeBrace :: rest, by simp⟩
    have bodyEnded : endsLines .other body = true := endsLines_left (endsLines_tail ended) rfl
    have bodyClose := atBody.scriptsClose close
    have spaceless := inside.placed keeps places dropsSpace keepsNewlines bodyEnded bodyClose
    refine ⟨.of_inside ⟨.openBrace :: body ++ [.closeBrace], [], by simp⟩,
      spaceless.placed.carry atBody, ?_, ?_, ?_⟩
    · rintro content rfl
      cases spaceless.notSpace
    · rintro content rfl
      obtain ⟨isBreak, breaks⟩ :=
        inside.lineBreak keeps places dropsSpace keepsNewlines bodyEnded bodyClose
      exact ⟨isBreak, _, breaks, by simp⟩
    · rintro content rfl
      obtain ⟨token, starts, isComment⟩ := comment rfl
      rw [← (List.cons.inj starts).1] at isComment
      cases isComment
  | command read =>
    exact read.placed keeps places dropsSpace keepsNewlines (endsLines_tail ended) close.tail
  | leftRight read =>
    exact read.placed keeps places dropsSpace keepsNewlines (endsLines_tail ended) close.tail
  | environment read => exact read.placed keeps places (endsLines_tail ended) close.tail

end Composition

theorem Reads.placed (dropsSpace : options.keepSpace = false)
    (keepsNewlines : options.keepNewlines = true) (depth : Nat) :
    Places options (Reads options depth) := by
  induction depth with
  | zero => exact fun _ _ _ read => read.elim
  | succ depth inductionHypothesis =>
    exact Operand.placed (Reads.keepsLines keepsNewlines depth) inductionHypothesis dropsSpace
      keepsNewlines

end Readings

/-- Layout is an operand only where the tokens of the source expose it, and space is in the
tree only as the base of a prime. -/
theorem layoutOperand_exposed (symbols : Symbol.Table) (maxDepth : Int) (source : String)
    (tree : Node) (parsed : parseSource { symbols, maxDepth } [] source = .ok tree) :
    ∃ tokens, sourceTokens [] source = .ok tokens ∧ tree.isSpace = false ∧
      (∀ node role operand, Within node tree → IsOperand role operand node →
        operand.isLayout = true → ∃ pattern, pattern <:+: tokens ∧
          Exposes { symbols, maxDepth } role operand pattern) ∧
      ∀ node part, Within node tree → IsPart part node → part.isSpace = true →
        IsOperand .base part node := by
  obtain ⟨tokens, read, parsedTokens⟩ := Formula.bind_eq_ok_iff.mp parsed
  obtain ⟨lexed, lexes, replaced⟩ := Formula.bind_eq_ok_iff.mp read
  rw [MacroTable.expand_nil] at replaced
  cases replaced
  have ended := endsLines_dropScriptSpacingAfter none (Lexer.endsLines_tokens lexes)
  have close := scriptsClose_dropScriptSpacing lexes
  have spaceless := (parseTokens_eq_ok_iff.mp parsedTokens).placed (Reads.keepsLines rfl _)
    (Reads.placed rfl rfl _) rfl rfl ended close
  refine ⟨_, read, spaceless.notSpace, ?_, ?_⟩
  · intro node role operand within isOperand isLayout
    exact (spaceless.placed node within).operands role operand isOperand isLayout
  · intro node part within isPart isSpace
    exact (spaceless.placed node within).spaces part isPart isSpace

/-- A line break in braces is the numerator, and the space before the prime its base. -/
theorem layoutOperand_exposed_fraction :
    parseSource { symbols := [] } [] "\\frac\x7b\n\x7d2 '" = .ok (.ordgroup "" [
      .binaryFunc "\\frac" (.leaf .newline "\n") (.element "2"),
      .supsub "" (.leaf .whitespace " ") (some (.symbol "\\prime")) none]) ∧
    ∃ tokens, sourceTokens [] "\\frac\x7b\n\x7d2 '" = .ok tokens ∧
      (∃ pattern, pattern <:+: tokens ∧ Exposes { symbols := [] } .argument (.leaf .newline "\n") pattern) ∧
      ∃ pattern, pattern <:+: tokens ∧ Exposes { symbols := [] } .base (.leaf .whitespace " ") pattern := by
  have parsed : parseSource { symbols := [] } [] "\\frac\x7b\n\x7d2 '" = .ok (.ordgroup "" [
      .binaryFunc "\\frac" (.leaf .newline "\n") (.element "2"),
      .supsub "" (.leaf .whitespace " ") (some (.symbol "\\prime")) none]) := by
    have lexed : tokenize "\\frac\x7b\n\x7d2 '" = .ok [⟨.command, "\\frac"⟩, .openBrace,
        ⟨.newline, "\n"⟩, .closeBrace, ⟨.element, "2"⟩, ⟨.whitespace, " "⟩, .prime] := by
      cbv
    unfold parseSource sourceTokens
    rw [lexed]
    cbv
  obtain ⟨tokens, read, -, exposed, -⟩ := layoutOperand_exposed _ _ _ _ parsed
  refine ⟨parsed, tokens, read, ?_, ?_⟩
  · exact exposed _ _ _ (.part (.refl _) (.member "" List.mem_cons_self)) (.first "\\frac" _ _) rfl
  · exact exposed _ _ _ (.part (.refl _) (.member "" (.tail _ List.mem_cons_self))) (.base "" _ _ _) rfl

/-- The space before a prime is in the tree, and has the prime. -/
theorem space_has_prime :
    parseSource { symbols := Symbol.standard } [] "x '" = .ok (.ordgroup "" [.element "x",
      .supsub "" (.leaf .whitespace " ") (some (.symbol "\\prime")) none]) := by
  have lexed : tokenize "x '" = .ok [⟨.element, "x"⟩, ⟨.whitespace, " "⟩, .prime] := by
    cbv
  -- The table is never asked, and too large to be evaluated.
  generalize Symbol.standard = symbols
  unfold parseSource sourceTokens
  rw [lexed]
  cbv

end Grammar
end MathMarkup.Tex
