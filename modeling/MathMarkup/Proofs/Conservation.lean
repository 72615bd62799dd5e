import MathMarkup.Proofs.Realization

/-!
# Reading keeps the content of a formula

The signs, commands and comments of a formula are its atoms. Reading moves each atom of
the tokens to one node of the tree, except for those that only give structure; a prime
may become a command on the way, and a number may be split. So a kind of atom that is
none of these occurs in the tree as often as in the tokens.
-/

namespace MathMarkup.Tex

/-- What a token carries into the tree. -/
inductive Atom where
  | sign (content : String)
  | command (name : String)
  | comment (content : String)
deriving DecidableEq, Repr

namespace Token

/-- The atom of a token, if it carries one. -/
def atom? : Token → Option Atom
  | ⟨.element, value⟩ | ⟨.unknown, value⟩ => some (.sign value)
  | ⟨.command, value⟩ => some (.command value)
  | ⟨.comment, value⟩ => some (.comment value)
  | ⟨.text, _⟩ | ⟨.whitespace, _⟩ | ⟨.newline, _⟩ | ⟨.control, _⟩ => none

/-- The atoms of some tokens. -/
def atoms (tokens : List Token) : List Atom :=
  tokens.filterMap atom?

end Token

namespace Node

/-- The atom of a leaf, if it carries one. -/
def leafAtom? : LeafKind → String → Option Atom
  | .element, content => some (.sign content)
  | .symbol, content | .unknownMacro, content => some (.command content)
  | .comment, content => some (.comment content)
  | .text, _ | .whitespace, _ | .newline, _ | .control, _ | .empty, _ => none

mutual

/-- The atoms of a tree: those of its leaves, the commands of its calls and its
delimiters. -/
def atoms : Node → List Atom
  | leaf kind content => (leafAtom? kind content).toList
  | ordgroup _ args => atomsOfEach args
  | supsub _ base sup sub => atoms base ++ atomsOfOptional sup ++ atomsOfOptional sub
  | unaryFunc command arg index => .command command :: atomsOfOptional index ++ atoms arg
  | binaryFunc command first second => .command command :: atoms first ++ atoms second
  | leftright _ opening body closing => atoms opening ++ atoms body ++ atoms closing
  | beginend _ rows => atomsOfRows rows

/-- The atoms of a tree that may be absent. -/
def atomsOfOptional : Option Node → List Atom
  | none => []
  | some node => atoms node

/-- The atoms of each of some trees. -/
def atomsOfEach : List Node → List Atom
  | [] => []
  | node :: rest => atoms node ++ atomsOfEach rest

/-- The atoms of the cells of some rows. -/
def atomsOfRows : List (List Node) → List Atom
  | [] => []
  | row :: rest => atomsOfEach row ++ atomsOfRows rest

end

end Node

namespace Grammar

section Tallies

variable (counted : Atom → Bool)

/-- How many of the atoms of some tokens are counted. -/
def tokenTally (tokens : List Token) : Nat :=
  (Token.atoms tokens).countP counted

/-- How many of the atoms of a tree are counted. -/
def tally (node : Node) : Nat :=
  node.atoms.countP counted

/-- How many of the atoms of some trees are counted. -/
def tallyEach (nodes : List Node) : Nat :=
  (Node.atomsOfEach nodes).countP counted

/-- How many of the atoms of a tree that may be absent are counted. -/
def tallyOptional (node : Option Node) : Nat :=
  (Node.atomsOfOptional node).countP counted

@[simp]
theorem tokenTally_nil : tokenTally counted [] = 0 := rfl

@[simp]
theorem tokenTally_append (first second : List Token) :
    tokenTally counted (first ++ second) =
      tokenTally counted first + tokenTally counted second := by
  simp [tokenTally, Token.atoms]

theorem tokenTally_cons (token : Token) (rest : List Token) :
    tokenTally counted (token :: rest) = tokenTally counted [token] + tokenTally counted rest :=
  tokenTally_append counted [token] rest

theorem countP_toList (atom : Option Atom) :
    atom.toList.countP counted = (atom.any counted).toNat := by
  cases atom with
  | none => rfl
  | some atom => cases holds : counted atom <;> simp [holds]

theorem tokenTally_singleton (token : Token) :
    tokenTally counted [token] = (token.atom?.any counted).toNat := by
  rw [← countP_toList]
  cases atom : token.atom? <;> simp [tokenTally, Token.atoms, atom]

theorem tokenTally_command_cons (command : String) (rest : List Token) :
    tokenTally counted (⟨.command, command⟩ :: rest) =
      (counted (.command command)).toNat + tokenTally counted rest := by
  rw [tokenTally_cons, tokenTally_singleton]
  rfl

/-- Tokens without an atom add nothing. -/
theorem tokenTally_eq_zero {tokens : List Token} (bare : ∀ token ∈ tokens, token.atom? = none) :
    tokenTally counted tokens = 0 := by
  have noAtoms : Token.atoms tokens = [] := List.filterMap_eq_nil_iff.mpr bare
  rw [tokenTally, noAtoms]
  rfl

@[simp]
theorem tokenTally_text_cons (value : String) (rest : List Token) :
    tokenTally counted (⟨.text, value⟩ :: rest) = tokenTally counted rest := rfl

theorem tokenTally_layout {layout : List Token}
    (passed : ∀ blank ∈ layout, blank.isLayout = true) : tokenTally counted layout = 0 := by
  refine tokenTally_eq_zero counted fun token member => ?_
  obtain ⟨kind, value⟩ := token
  have isLayout : kind = .whitespace ∨ kind = .newline := kind_of_isLayout (passed _ member)
  rcases isLayout with rfl | rfl <;> rfl

@[simp]
theorem tokenTally_primes (count : Nat) :
    tokenTally counted (List.replicate count .prime) =
      count * (counted (.sign "'")).toNat := by
  induction count with
  | zero => simp
  | succ count inductionHypothesis =>
    rw [List.replicate_succ, tokenTally_cons, inductionHypothesis, tokenTally_singleton,
      Nat.succ_mul, Nat.add_comm]
    rfl

@[simp]
theorem tallyEach_nil : tallyEach counted [] = 0 := rfl

@[simp]
theorem tallyEach_cons (node : Node) (rest : List Node) :
    tallyEach counted (node :: rest) = tally counted node + tallyEach counted rest :=
  List.countP_append

@[simp]
theorem tallyEach_append (first second : List Node) :
    tallyEach counted (first ++ second) = tallyEach counted first + tallyEach counted second := by
  induction first with
  | nil => simp
  | cons node rest inductionHypothesis => simp [inductionHypothesis, Nat.add_assoc]

theorem tally_leaf (kind : LeafKind) (content : String) :
    tally counted (.leaf kind content) = ((Node.leafAtom? kind content).any counted).toNat :=
  countP_toList counted _

theorem tally_supsub (content : String) (base : Node) (sup sub : Option Node) :
    tally counted (.supsub content base sup sub) =
      tally counted base + tallyOptional counted sup + tallyOptional counted sub := by
  change (base.atoms ++ Node.atomsOfOptional sup ++ Node.atomsOfOptional sub).countP counted = _
  rw [List.countP_append, List.countP_append]
  rfl

theorem countP_command_cons (command : String) (atoms : List Atom) :
    (Atom.command command :: atoms).countP counted =
      (counted (.command command)).toNat + atoms.countP counted := by
  rw [List.countP_cons, Nat.add_comm]
  cases counted (.command command) <;> rfl

theorem tally_unaryFunc (command : String) (arg : Node) (index : Option Node) :
    tally counted (.unaryFunc command arg index) =
      (counted (.command command)).toNat + (tallyOptional counted index + tally counted arg) := by
  change (.command command :: (Node.atomsOfOptional index ++ arg.atoms)).countP counted = _
  rw [countP_command_cons, List.countP_append]
  rfl

theorem tally_binaryFunc (command : String) (first second : Node) :
    tally counted (.binaryFunc command first second) =
      (counted (.command command)).toNat + (tally counted first + tally counted second) := by
  change (.command command :: (first.atoms ++ second.atoms)).countP counted = _
  rw [countP_command_cons, List.countP_append]
  rfl

theorem tally_leftright (content : String) (opening body closing : Node) :
    tally counted (.leftright content opening body closing) =
      tally counted opening + tally counted body + tally counted closing := by
  change (opening.atoms ++ body.atoms ++ closing.atoms).countP counted = _
  rw [List.countP_append, List.countP_append]
  rfl

@[simp]
theorem tally_ordgroup (content : String) (args : List Node) :
    tally counted (.ordgroup content args) = tallyEach counted args := rfl

@[simp]
theorem tally_group (parts : List Node) :
    tally counted (.group parts) = tallyEach counted parts := by
  match parts with
  | [] => rfl
  | [part] => exact (tallyEach_cons counted part []).symm
  | first :: second :: rest => exact tally_ordgroup counted "" _

@[simp]
theorem tally_beginend (name : String) (rows : List (List Node)) :
    tally counted (.beginend name rows) = tallyEach counted rows.flatten := by
  have rowsTally : (Node.atomsOfRows rows).countP counted = tallyEach counted rows.flatten := by
    induction rows with
    | nil => rfl
    | cons row rest inductionHypothesis =>
      change (Node.atomsOfEach row ++ Node.atomsOfRows rest).countP counted = _
      rw [List.countP_append, inductionHypothesis, List.flatten_cons, tallyEach_append]
      rfl
  exact rowsTally

end Tallies

section Grids

open Grid

variable (counted : Atom → Bool)

/-- How many of the atoms of a draft are counted. -/
def draftTally (draft : Draft) : Nat :=
  tallyEach counted draft.rows.flatten + tallyEach counted draft.row +
    tallyEach counted draft.parts

theorem tally_cell (parts : List Node) : tally counted (cell parts) = tallyEach counted parts := by
  cases parts with
  | nil => exact tally_ordgroup counted "" []
  | cons first rest => exact tally_group counted (first :: rest)

theorem draftTally_endCell (draft : Draft) :
    draftTally counted draft.endCell = draftTally counted draft := by
  simp [draftTally, Draft.endCell, tally_cell, Nat.add_assoc]

theorem draftTally_endRow (draft : Draft) :
    draftTally counted draft.endRow = draftTally counted draft := by
  rw [← draftTally_endCell counted draft]
  simp [draftTally, Draft.endRow, Draft.endCell]

/-- Marks carry nothing. -/
theorem tally_eq_zero_of_mark {part : Node}
    (isMark : isRowMark part = true ∨ isCellMark part = true) : tally counted part = 0 := by
  rcases isMark with isMark | isMark
  · unfold isRowMark at isMark
    split at isMark
    · rfl
    · cases isMark
  · unfold isCellMark at isMark
    split at isMark
    · rfl
    · cases isMark

/-- Layout carries nothing. -/
theorem tally_eq_zero_of_ignored {parts : List Node} {part : Node}
    (ignored : isIgnored parts part = true) : tally counted part = 0 := by
  unfold isIgnored at ignored
  split at ignored
  · rfl
  · rfl
  · cases ignored

theorem draftTally_add (draft : Draft) (part : Node) :
    draftTally counted (draft.add part) = draftTally counted draft + tally counted part := by
  unfold Draft.add
  split
  · rename_i ignored
    rw [tally_eq_zero_of_ignored counted ignored, Nat.add_zero]
  split
  · rename_i isMark
    rw [draftTally_endRow, tally_eq_zero_of_mark counted (.inl isMark), Nat.add_zero]
  split
  · rename_i isMark
    rw [draftTally_endCell, tally_eq_zero_of_mark counted (.inr isMark), Nat.add_zero]
  · simp [draftTally, Nat.add_assoc]

theorem draftTally_foldl_add (parts : List Node) (draft : Draft) :
    draftTally counted (parts.foldl Draft.add draft) =
      draftTally counted draft + tallyEach counted parts := by
  induction parts generalizing draft with
  | nil => simp
  | cons part rest inductionHypothesis =>
    rw [List.foldl_cons, inductionHypothesis, draftTally_add, tallyEach_cons, Nat.add_assoc]

/-- The cells of a grid carry what its parts carry. A row that is dropped at the end is
empty. -/
theorem tallyEach_ofParts (parts : List Node) :
    tallyEach counted (ofParts parts).flatten = tallyEach counted parts := by
  have folded := draftTally_foldl_add counted parts {}
  unfold ofParts
  generalize parts.foldl Draft.add {} = draft at folded
  have allRows : tallyEach counted draft.endRow.rows.flatten = tallyEach counted parts := by
    have ended := draftTally_endRow counted draft
    rw [folded] at ended
    simpa [draftTally, Draft.endRow] using ended
  unfold Draft.finish
  split
  · rename_i first others only rowsShape rowShape
    split
    · rename_i isEmpty
      have nothing : tally counted only = 0 := by
        unfold isEmptyCell at isEmpty
        split at isEmpty
        · exact tally_ordgroup counted _ []
        · cases isEmpty
      simpa [Draft.endRow, rowShape, nothing] using allRows
    · exact allRows
  · exact allRows

end Grids

section Neutrality

/-- The atom is not the mark of a structure: atoms that only give structure are not
counted, nor are numbers, and primes are counted in both of their forms or in none. -/
structure Content (counted : Atom → Bool) : Prop where
  structural : ∀ name ∈ ["\\left", "\\right", "\\begin", "\\end", "\\text"],
    counted (.command name) = false
  openBracket : counted (.sign "[") = false
  closeBracket : counted (.sign "]") = false
  primes : counted (.sign "'") = counted (.command "\\prime")
  numbers : ∀ first rest, first.isDigit = true →
    counted (.sign (String.ofList (first :: rest))) = false

/-- The tokens that give structure and are not carried into the tree. -/
def structuralTokens : List Token :=
  [.openBrace, .closeBrace, .openBracket, .closeBracket, .left, .right, .beginEnvironment,
    .endEnvironment, ⟨.command, "\\text"⟩]

/-- A token that gives structure is not counted. -/
theorem Content.skip {counted : Atom → Bool} (content : Content counted) (token : Token)
    (structural : token ∈ structuralTokens) (rest : List Token) :
    tokenTally counted (token :: rest) = tokenTally counted rest := by
  have uncounted : token.atom?.any counted = false := by
    simp only [structuralTokens, List.mem_cons, List.not_mem_nil, or_false] at structural
    rcases structural with rfl | rfl | rfl | rfl | rfl | rfl | rfl | rfl | rfl
    · rfl
    · rfl
    · exact content.openBracket
    · exact content.closeBracket
    all_goals exact content.structural _ (by decide)
  rw [Grammar.tokenTally_cons, tokenTally_singleton, uncounted, Bool.toNat_false, Nat.zero_add]

/-- The tokens at which an array starts. -/
def arrayOpening : List Token :=
  [.beginEnvironment, .openBrace, ⟨.text, "array"⟩, .closeBrace]

/-- What is counted is not hidden in the tokens: no array starts, which would drop its
column specification, and no sign that is counted follows the digits of a number. -/
structure Faithful (counted : Atom → Bool) (tokens : List Token) : Prop where
  noArray : ¬ arrayOpening <:+: tokens
  unsplit : ∀ digits rest, digits ≠ [] → (∀ digit ∈ digits, digit.isDigit = true) → rest ≠ [] →
    ⟨.element, String.ofList (digits ++ rest)⟩ ∈ tokens →
    counted (.sign (String.ofList rest)) = false

variable {counted : Atom → Bool} {tokens : List Token}

theorem Faithful.inside {part : List Token} (faithful : Faithful counted tokens)
    (within : part <:+: tokens) : Faithful counted part where
  noArray starts := faithful.noArray (starts.trans within)
  unsplit digits rest some areDigits nonempty member :=
    faithful.unsplit digits rest some areDigits nonempty (within.subset member)

theorem Faithful.right {first second : List Token} (faithful : Faithful counted (first ++ second)) :
    Faithful counted second :=
  faithful.inside (List.suffix_append first second).isInfix

theorem Faithful.left {first second : List Token} (faithful : Faithful counted (first ++ second)) :
    Faithful counted first :=
  faithful.inside (List.prefix_append first second).isInfix

theorem Faithful.tail {token : Token} (faithful : Faithful counted (token :: tokens)) :
    Faithful counted tokens :=
  faithful.inside (List.suffix_cons token tokens).isInfix

/-- An array that starts after an element starts in the tokens after it. -/
theorem not_arrayOpening_cons {token : Token} (isElement : token.kind = .element)
    (noArray : ¬ arrayOpening <:+: tokens) : ¬ arrayOpening <:+: token :: tokens := by
  intro starts
  rcases List.infix_cons_iff.mp starts with atFront | later
  · have same := (List.cons_prefix_cons.mp atFront).1
    rw [← same] at isElement
    cases isElement
  · exact noArray later

/-- Splitting a number at the front keeps what is counted. -/
theorem Faithful.splitFirst (content : Content counted) (faithful : Faithful counted tokens) :
    Faithful counted (Grammar.splitFirst tokens) ∧
      tokenTally counted (Grammar.splitFirst tokens) = tokenTally counted tokens := by
  cases tokens with
  | nil => exact ⟨faithful, rfl⟩
  | cons token tail =>
    rcases splitFirst_cons token tail with same | ⟨digit, remainder, split, parts⟩
    · rw [same]
      exact ⟨faithful, rfl⟩
    · obtain ⟨first, second, rest, isDigit, rfl, rfl, rfl⟩ := splitNumber?_eq_some split
      have hidden : counted (.sign (String.ofList (second :: rest))) = false :=
        faithful.unsplit [first] (second :: rest) (by simp) (by simpa using isDigit) (by simp)
          (by simp)
      rw [parts]
      refine ⟨⟨?_, ?_⟩, ?_⟩
      · exact not_arrayOpening_cons rfl (not_arrayOpening_cons rfl faithful.tail.noArray)
      · intro digits others some areDigits nonempty member
        rcases List.mem_cons.mp member with isDigit | member
        · -- A single digit is no number with something after it.
          have same : digits ++ others = [first] :=
            String.ofList_inj.mp (Token.mk.inj isDigit).2
          have lengths := congrArg List.length same
          have longDigits := List.length_pos_iff.mpr some
          have longOthers := List.length_pos_iff.mpr nonempty
          simp only [List.length_append, List.length_singleton] at lengths
          omega
        rcases List.mem_cons.mp member with isRemainder | inTail
        · have same : digits ++ others = second :: rest :=
            String.ofList_inj.mp (Token.mk.inj isRemainder).2
          refine faithful.unsplit (first :: digits) others (by simp) ?_ nonempty ?_
          · simpa using ⟨isDigit, areDigits⟩
          · rw [List.cons_append, same]
            exact List.mem_cons_self
        · exact faithful.tail.unsplit digits others some areDigits nonempty inTail
      · have whole := content.numbers first (second :: rest) isDigit
        have digit := content.numbers first [] isDigit
        simp only [tokenTally_cons counted _ (_ :: _), tokenTally_cons counted _ tail,
          tokenTally_singleton, Token.atom?, Option.any_some, whole, digit, hidden,
          Bool.toNat_false, Nat.zero_add]

end Neutrality

section Conservation

variable {counted : Atom → Bool} {options : ParseOptions} {inner : Reading}

/-- What is read has as many of the counted atoms as the tokens that are taken, and
the tokens that are left are as faithful as those before. -/
def ConservesAs {α : Type} (counted : Atom → Bool) (weigh : α → Nat) (reading : ReadingOf α) :
    Prop :=
  ∀ ⦃input value rest⦄, reading input value rest → Faithful counted input →
    Faithful counted rest ∧ tokenTally counted input = weigh value + tokenTally counted rest

/-- A reading of nodes conserves what is counted. -/
abbrev Conserves (counted : Atom → Bool) (reading : Reading) : Prop :=
  ConservesAs counted (tally counted) reading

/-- How many of the atoms of some scripts are counted. -/
def scriptTally (counted : Atom → Bool) (scripts : Parser.Scripts) : Nat :=
  scripts.primes * (counted (.sign "'")).toNat + tallyOptional counted scripts.sup +
    tallyOptional counted scripts.sub

@[simp]
theorem tokenTally_markToken_cons (mark : Token.ScriptMark) (rest : List Token) :
    tokenTally counted (markToken mark :: rest) = tokenTally counted rest := by
  cases mark <;> rfl

@[simp]
theorem tallyOptional_none : tallyOptional counted none = 0 := rfl

@[simp]
theorem tallyOptional_some (node : Node) : tallyOptional counted (some node) = tally counted node :=
  rfl

theorem tallyEach_primes (content : Content counted) (count : Nat) :
    tallyEach counted (List.replicate count (.symbol "\\prime")) =
      count * (counted (.sign "'")).toNat := by
  induction count with
  | zero => simp
  | succ count inductionHypothesis =>
    rw [List.replicate_succ, tallyEach_cons, inductionHypothesis, tally_leaf, content.primes,
      Nat.succ_mul, Nat.add_comm]
    rfl

/-- The primes of some scripts are counted in the superscript. -/
theorem tallyOptional_superscript (content : Content counted) (scripts : Parser.Scripts) :
    tallyOptional counted scripts.superscript =
      scripts.primes * (counted (.sign "'")).toNat + tallyOptional counted scripts.sup := by
  unfold Parser.Scripts.superscript
  split
  · rename_i none
    simp [none]
  · rw [tallyOptional_some, tally_group, tallyEach_append, tallyEach_primes content]
    cases scripts.sup <;> simp

theorem tally_attach (content : Content counted) (scripts : Parser.Scripts) (base : Node) :
    tally counted (scripts.attach base) = tally counted base + scriptTally counted scripts := by
  have superscript := tallyOptional_superscript content scripts
  unfold scriptTally
  rw [← superscript]
  unfold Parser.Scripts.attach
  split
  · rename_i noSup noSub
    simp [noSup, noSub]
  · rw [tally_supsub, Nat.add_assoc]

theorem ScriptsOf.conserves (conserves : Conserves counted inner) :
    ConservesAs counted (scriptTally counted) (ScriptsOf inner) := by
  intro input scripts rest attached faithful
  cases attached with
  | none primes rest => exact ⟨faithful.right, by simp [scriptTally]⟩
  | sub primes morePrimes script =>
    obtain ⟨restFaithful, same⟩ := conserves script faithful.right.tail
    refine ⟨restFaithful.right, ?_⟩
    simp [scriptTally, same, Nat.add_mul]
    omega
  | subSup primes morePrimes first second =>
    obtain ⟨middleFaithful, firstSame⟩ := conserves first faithful.right.tail
    obtain ⟨restFaithful, secondSame⟩ := conserves second middleFaithful.right.tail
    refine ⟨restFaithful, ?_⟩
    simp [scriptTally, firstSame, secondSame, Nat.add_mul]
    omega
  | sup primes script =>
    obtain ⟨restFaithful, same⟩ := conserves script faithful.right.tail
    refine ⟨restFaithful, ?_⟩
    simp [scriptTally, same]
    omega
  | supSub primes first second =>
    obtain ⟨middleFaithful, firstSame⟩ := conserves first faithful.right.tail
    obtain ⟨restFaithful, secondSame⟩ := conserves second middleFaithful.tail
    refine ⟨restFaithful, ?_⟩
    simp [scriptTally, firstSame, secondSame]
    omega

theorem Scripted.conserves (content : Content counted) (conserves : Conserves counted inner) :
    Conserves counted (Scripted inner) := by
  rintro input node rest ⟨base, attached, -⟩ faithful
  obtain ⟨middleFaithful, baseSame⟩ := conserves base faithful
  obtain ⟨restFaithful, scriptsSame⟩ := ScriptsOf.conserves conserves attached middleFaithful
  refine ⟨restFaithful, ?_⟩
  rw [tally_attach content, baseSame, scriptsSame, Nat.add_assoc]

theorem Parts.conserves {input : List Token} {parts : List Node} (content : Content counted)
    (conserves : Conserves counted inner) (read : Parts inner input parts)
    (faithful : Faithful counted input) : tokenTally counted input = tallyEach counted parts := by
  induction read with
  | nil => simp
  | cons first others inductionHypothesis =>
    obtain ⟨restFaithful, same⟩ := Scripted.conserves content conserves first faithful
    rw [same, tallyEach_cons, inductionHypothesis restFaithful]

theorem tallyEach_filter_keeps (parts : List Node) :
    tallyEach counted (parts.filter (Parser.keeps options)) = tallyEach counted parts := by
  induction parts with
  | nil => rfl
  | cons part rest inductionHypothesis =>
    rw [List.filter_cons]
    split
    · rw [tallyEach_cons, tallyEach_cons, inductionHypothesis]
    · rename_i dropped
      have nothing : tally counted part = 0 := by
        unfold Parser.keeps at dropped
        split at dropped
        · rfl
        · rfl
        · exact absurd rfl dropped
      rw [tallyEach_cons, inductionHypothesis, nothing, Nat.zero_add]

theorem Sequence.conserves {input : List Token} {node : Node} (content : Content counted)
    (conserves : Conserves counted inner) (read : Sequence inner options input node)
    (faithful : Faithful counted input) : tokenTally counted input = tally counted node := by
  obtain ⟨partsRead, noMark⟩ := read
  rw [tally_group, tallyEach_filter_keeps]
  exact Parts.conserves content conserves partsRead faithful

theorem Rows.conserves {input : List Token} {rows : List (List Node)} (content : Content counted)
    (conserves : Conserves counted inner) (read : Rows inner input rows)
    (faithful : Faithful counted input) :
    tokenTally counted input = tallyEach counted rows.flatten := by
  obtain ⟨partsRead⟩ := read
  rw [tallyEach_ofParts]
  exact Parts.conserves content conserves partsRead faithful

theorem Argument.conserves (content : Content counted) (conserves : Conserves counted inner) :
    Conserves counted (Argument inner) := by
  rintro input node rest ⟨passed, solid, inside, read⟩ faithful
  obtain ⟨splitFaithful, splitSame⟩ := faithful.right.splitFirst content
  obtain ⟨restFaithful, same⟩ := conserves read splitFaithful
  refine ⟨restFaithful, ?_⟩
  rw [tokenTally_append, tokenTally_layout counted passed, Nat.zero_add, ← splitSame, same]

theorem IndexAt.conserves (content : Content counted) (conserves : Conserves counted inner) :
    ConservesAs counted (tallyOptional counted) (IndexAt inner options) := by
  intro input index rest read faithful
  cases read with
  | @some layout body rest index passed balanced inside =>
    have same := inside.conserves content conserves faithful.left.right.tail
    refine ⟨faithful.right.tail, ?_⟩
    rw [tokenTally_append, tokenTally_append, tokenTally_layout counted passed,
      content.skip .openBracket (by decide), content.skip .closeBracket (by decide), same]
    simp
  | none absent => exact ⟨faithful, by simp⟩

/-- A command and what it is applied to, with the tokens of the command itself. -/
theorem CommandAt.conserves {command : String} {input rest : List Token} {node : Node}
    (content : Content counted) (conserves : Conserves counted inner)
    (read : CommandAt inner options command input node rest) (faithful : Faithful counted input) :
    Faithful counted rest ∧
      tokenTally counted (⟨.command, command⟩ :: input) =
        tally counted node + tokenTally counted rest := by
  have argumentConserves := Argument.conserves content conserves
  cases read with
  | constant arity single =>
    refine ⟨faithful, ?_⟩
    rw [tokenTally_command_cons, tally_leaf]
    split <;> rfl
  | unary arity read =>
    cases read with
    | text isText text rest =>
      refine ⟨faithful.tail.tail.tail, ?_⟩
      rw [isText, content.skip ⟨.command, "\\text"⟩ (by decide),
        content.skip .openBrace (by decide), tokenTally_text_cons,
        content.skip .closeBrace (by decide), tally_leaf]
      simp [Node.leafAtom?]
    | operator isOperator text rest =>
      refine ⟨faithful.tail.tail.tail, ?_⟩
      rw [tokenTally_command_cons, content.skip .openBrace (by decide), tokenTally_text_cons,
        content.skip .closeBrace (by decide), tally_unaryFunc, tally_leaf]
      simp [Node.leafAtom?]
    | root isRoot indexRead argument =>
      obtain ⟨middleFaithful, indexSame⟩ := IndexAt.conserves content conserves indexRead faithful
      obtain ⟨restFaithful, argSame⟩ := argumentConserves argument middleFaithful
      refine ⟨restFaithful, ?_⟩
      rw [tokenTally_command_cons, tally_unaryFunc, indexSame, argSame]
      omega
    | other math argument =>
      obtain ⟨restFaithful, argSame⟩ := argumentConserves argument faithful
      refine ⟨restFaithful, ?_⟩
      rw [tokenTally_command_cons, tally_unaryFunc, argSame, tallyOptional_none]
      omega
  | binary arity firstArgument secondArgument =>
    obtain ⟨middleFaithful, firstSame⟩ := argumentConserves firstArgument faithful
    obtain ⟨restFaithful, secondSame⟩ := argumentConserves secondArgument middleFaithful
    refine ⟨restFaithful, ?_⟩
    rw [tokenTally_command_cons, tally_binaryFunc, firstSame, secondSame]
    omega

theorem tally_delimiter {token : Token} (delimits : token.isDelimiter = true) :
    tally counted (Parser.delimiter token) = tokenTally counted [token] := by
  rw [Parser.delimiter, tally_leaf, tokenTally_singleton]
  obtain ⟨kind, value⟩ := token
  have isDelimiter : kind = .element ∨ kind = .command := kind_of_isDelimiter delimits
  rcases isDelimiter with rfl | rfl <;> rfl

theorem Delimited.conserves (content : Content counted) (conserves : Conserves counted inner) :
    Conserves counted (Delimited inner options) := by
  rintro input node rest ⟨passed, opens, balanced, inside, morePassed, closes⟩ faithful
  have bodyFaithful := faithful.right.tail.left
  have restFaithful := faithful.right.tail.right.tail.right.tail
  refine ⟨restFaithful, ?_⟩
  have same := inside.conserves content conserves bodyFaithful
  rw [tally_leftright, tally_delimiter opens, tally_delimiter closes, ← same, tokenTally_append,
    tokenTally_layout counted passed, tokenTally_cons, tokenTally_append,
    content.skip .right (by decide), tokenTally_append, tokenTally_layout counted morePassed,
    tokenTally_cons counted _ rest]
  omega

theorem tokenTally_leaf {token : Token} {node : Node} (plain : leafOf? token = some node) :
    tokenTally counted [token] = tally counted node := by
  obtain ⟨kind, value⟩ := token
  cases kind with
  | command => cases plain
  | control =>
    obtain ⟨listed, same⟩ : _ ∧ Node.leaf .control value = node := by
      simpa [leafOf?] using plain
    rw [← same]
    rfl
  | element | unknown | text | comment | whitespace | newline =>
    cases plain
    rw [tokenTally_singleton, tally_leaf]
    rfl

/-- After the column specification of an environment its layout is passed over. -/
theorem drop_specification (specified others tail : List Token) :
    (specified ++ others).drop (specified.length + Token.layoutLength ((specified ++ others ++
      .endEnvironment :: tail).drop specified.length)) = others.dropWhile Token.isLayout := by
  have stops : Token.layoutLength (others ++ .endEnvironment :: tail) =
      Token.layoutLength others := by
    unfold Token.layoutLength
    rw [List.takeWhile_append]
    split
    · rename_i whole
      have noLayout : (Token.endEnvironment :: tail).takeWhile Token.isLayout = [] := rfl
      rw [noLayout, List.append_nil, whole]
    · rfl
  rw [List.append_assoc, List.drop_left' rfl, List.drop_length_add_append, stops, drop_layoutLength]

/-- The body of an environment is all that stands in it after the column specification,
without the layout at both ends. -/
theorem environment_body (specified others tail : List Token) :
    ∃ leading trailing, (∀ blank ∈ leading, blank.isLayout = true) ∧
      (∀ blank ∈ trailing, blank.isLayout = true) ∧
      others = leading ++ (Parser.withoutTrailingLayout ((specified ++ others).drop
        (specified.length + Token.layoutLength ((specified ++ others ++
          .endEnvironment :: tail).drop specified.length))) ++ trailing) := by
  obtain ⟨leading, split, passed, -⟩ := eq_layout_append others
  obtain ⟨trailing, ends, trailingPassed⟩ := eq_withoutTrailingLayout_append
    (others.dropWhile Token.isLayout)
  refine ⟨leading, trailing, passed, trailingPassed, ?_⟩
  rw [drop_specification, ← ends, ← split]

/-- Only an array has a column specification. -/
theorem columnSpecificationLength_of_ne {name : String} (noArray : name ≠ "array")
    (tokens : List Token) : Parser.columnSpecificationLength name tokens = .ok 0 := by
  cases tokens with
  | nil => rfl
  | cons first rest => exact if_neg fun isArray => noArray isArray.1

/-- The body of an environment that is no array is all that stands in it, without the
layout at both ends. -/
theorem environment_body_of_noArray {name : String} {inside tail : List Token} {columns : Nat}
    (noArray : name ≠ "array")
    (specification : Parser.columnSpecificationLength name (inside ++ .endEnvironment :: tail) =
      .ok columns) :
    ∃ leading trailing, (∀ blank ∈ leading, blank.isLayout = true) ∧
      (∀ blank ∈ trailing, blank.isLayout = true) ∧
      inside = leading ++ (Parser.withoutTrailingLayout (inside.drop (columns +
        Token.layoutLength ((inside ++ .endEnvironment :: tail).drop columns))) ++ trailing) := by
  obtain rfl := Except.ok.inj ((columnSpecificationLength_of_ne noArray _).symm.trans specification)
  exact environment_body [] inside tail

theorem Environment.conserves (content : Content counted) (conserves : Conserves counted inner)
    {tokens rest : List Token} {node : Node} (read : Environment inner tokens node rest)
    (faithful : Faithful counted (.beginEnvironment :: tokens)) :
    Faithful counted rest ∧
      tokenTally counted tokens = tally counted node + tokenTally counted rest := by
  obtain ⟨rfl, balanced, specification, grid⟩ := read
  rename_i name inside columns rows
  have noArray : name ≠ "array" := by
    rintro rfl
    exact faithful.noArray ⟨[], _, rfl⟩
  obtain ⟨leading, trailing, leadingPassed, trailingPassed, parts⟩ :=
    environment_body_of_noArray noArray specification
  have insideFaithful := faithful.tail.tail.tail.tail
  have bodyFaithful := insideFaithful.left
  rw [parts] at bodyFaithful
  have bodySame := grid.conserves content conserves bodyFaithful.right.left
  have insideSame : tokenTally counted inside = tallyEach counted rows.flatten := by
    rw [parts]
    simp only [tokenTally_append, tokenTally_layout counted leadingPassed,
      tokenTally_layout counted trailingPassed, bodySame, Nat.zero_add, Nat.add_zero]
  refine ⟨insideFaithful.right.tail.tail.tail.tail, ?_⟩
  simp only [content.skip .openBrace (by decide), tokenTally_text_cons,
    content.skip .closeBrace (by decide), tokenTally_append,
    content.skip .endEnvironment (by decide), insideSame, tally_beginend]

theorem Operand.conserves (content : Content counted) (conserves : Conserves counted inner) :
    Conserves counted (Operand options inner) := by
  intro input node rest read faithful
  cases read with
  | leaf plain =>
    refine ⟨faithful.tail, ?_⟩
    rw [tokenTally_cons, tokenTally_leaf plain]
  | missingBase mark rest =>
    refine ⟨faithful, ?_⟩
    rw [tally_leaf]
    simp [Node.leafAtom?]
  | group balanced inside =>
    have same := inside.conserves content conserves faithful.left.tail
    refine ⟨faithful.right.tail, ?_⟩
    rw [tokenTally_append, content.skip .openBrace (by decide),
      content.skip .closeBrace (by decide), same]
  | command read => exact read.conserves content conserves faithful.tail
  | leftRight read =>
    obtain ⟨restFaithful, same⟩ := Delimited.conserves content conserves read faithful.tail
    refine ⟨restFaithful, ?_⟩
    rw [content.skip .left (by decide), same]
  | environment read =>
    obtain ⟨restFaithful, same⟩ := read.conserves content conserves faithful
    refine ⟨restFaithful, ?_⟩
    rw [content.skip .beginEnvironment (by decide), same]

theorem Reads.conserves (content : Content counted) (options : ParseOptions) (depth : Nat) :
    Conserves counted (Reads options depth) := by
  induction depth with
  | zero => exact fun _ _ _ read => read.elim
  | succ depth inductionHypothesis => exact Operand.conserves content inductionHypothesis

/-- What is counted occurs in the tree as often as in the tokens. -/
theorem tokenTally_of_parseTokens {tokens : List Token} {tree : Node} (content : Content counted)
    (faithful : Faithful counted tokens) (parsed : parseTokens options tokens = .ok tree) :
    tokenTally counted tokens = tally counted tree :=
  (parseTokens_eq_ok_iff.mp parsed).conserves content (Reads.conserves content options _) faithful

end Conservation

section Counts

/-- No element of the tokens is a number with the sign after its digits. -/
def NoNumberBefore (sign : String) (tokens : List Token) : Prop :=
  sign ≠ "" → ∀ token ∈ tokens, token.kind = .element →
    token.value.toList.takeWhile Char.isDigit ≠ [] →
    token.value.toList.dropWhile Char.isDigit ≠ sign.toList

instance (sign : String) (tokens : List Token) : Decidable (NoNumberBefore sign tokens) :=
  inferInstanceAs (Decidable (sign ≠ "" → ∀ token ∈ tokens, token.kind = .element →
    token.value.toList.takeWhile Char.isDigit ≠ [] →
    token.value.toList.dropWhile Char.isDigit ≠ sign.toList))

/-- The digits of a number end where a sign without digits starts. -/
theorem span_digits {digits rest : List Char} (areDigits : ∀ digit ∈ digits, digit.isDigit = true)
    (noDigit : ∀ character ∈ rest, character.isDigit = false) :
    (digits ++ rest).takeWhile Char.isDigit = digits ∧
      (digits ++ rest).dropWhile Char.isDigit = rest := by
  rw [List.takeWhile_append_of_pos areDigits, List.dropWhile_append_of_pos areDigits]
  cases rest with
  | nil => simp
  | cons first others =>
    have stops := noDigit first List.mem_cons_self
    simp [stops]

theorem Faithful.ofNoNumberBefore {counted : Atom → Bool} {tokens : List Token} {sign : String}
    (noArray : ¬ arrayOpening <:+: tokens) (noNumber : NoNumberBefore sign tokens)
    (noDigit : ∀ character ∈ sign.toList, character.isDigit = false)
    (only : ∀ other, counted (.sign other) = true → other = sign) : Faithful counted tokens where
  noArray := noArray
  unsplit digits rest some areDigits nonempty member := by
    cases isCounted : counted (.sign (String.ofList rest)) with
    | false => rfl
    | true =>
      have same : sign.toList = rest := by
        rw [← only _ isCounted, String.toList_ofList]
      have notEmpty : sign ≠ "" := by
        rintro rfl
        exact nonempty same.symm
      rw [same] at noDigit
      obtain ⟨taken, left⟩ := span_digits areDigits noDigit
      refine absurd ?_ (noNumber notEmpty _ member rfl ?_)
      · rw [String.toList_ofList, left, same]
      · rw [String.toList_ofList, taken]
        exact some

/-- A sign without digits is not what a number starts with. -/
theorem number_ne_sign {sign : String}
    (noDigit : ∀ character ∈ sign.toList, character.isDigit = false) {first : Char}
    (isDigit : first.isDigit = true) (rest : List Char) :
    (Atom.sign (String.ofList (first :: rest)) == .sign sign) = false := by
  rw [beq_eq_false_iff_ne]
  intro same
  have starts : first ∈ sign.toList := by
    rw [← Atom.sign.inj same, String.toList_ofList]
    exact List.mem_cons_self
  rw [noDigit first starts] at isDigit
  cases isDigit

theorem count_sign {options : ParseOptions} {tokens : List Token} {tree : Node} {sign : String}
    (noArray : ¬ arrayOpening <:+: tokens) (parsed : parseTokens options tokens = .ok tree)
    (noDigit : ∀ character ∈ sign.toList, character.isDigit = false)
    (plain : sign ∉ ["'", "[", "]"]) (noNumber : NoNumberBefore sign tokens) :
    tree.atoms.count (.sign sign) = (Token.atoms tokens).count (.sign sign) := by
  simp only [List.mem_cons, List.not_mem_nil, or_false, not_or] at plain
  obtain ⟨noPrime, noOpening, noClosing⟩ := plain
  have content : Content (· == .sign sign) := by
    have unequal : (Atom.sign "'" == .sign sign) = false := by simpa using Ne.symm noPrime
    refine ⟨by simp, by simpa using Ne.symm noOpening, by simpa using Ne.symm noClosing,
      unequal.trans rfl, fun first rest isDigit => number_ne_sign noDigit isDigit rest⟩
  exact (tokenTally_of_parseTokens content
    (.ofNoNumberBefore noArray noNumber noDigit (by simp)) parsed).symm

theorem count_command {options : ParseOptions} {tokens : List Token} {tree : Node} {name : String}
    (noArray : ¬ arrayOpening <:+: tokens) (parsed : parseTokens options tokens = .ok tree)
    (plain : name ∉ ["\\left", "\\right", "\\begin", "\\end", "\\text", "\\prime"]) :
    tree.atoms.count (.command name) = (Token.atoms tokens).count (.command name) := by
  simp only [List.mem_cons, List.not_mem_nil, or_false, not_or] at plain
  have content : Content (· == .command name) := by
    have unequal : (Atom.command "\\prime" == .command name) = false := by
      simpa using Ne.symm plain.2.2.2.2.2
    refine ⟨?_, by simp, by simp, unequal.symm, by simp⟩
    simp only [List.mem_cons, List.not_mem_nil, or_false]
    rintro other (rfl | rfl | rfl | rfl | rfl) <;>
      simp [Ne.symm plain.1, Ne.symm plain.2.1, Ne.symm plain.2.2.1, Ne.symm plain.2.2.2.1,
        Ne.symm plain.2.2.2.2.1]
  have faithful : Faithful (· == .command name) tokens := ⟨noArray, by simp⟩
  exact (tokenTally_of_parseTokens content faithful parsed).symm

theorem count_comment {options : ParseOptions} {tokens : List Token} {tree : Node}
    (noArray : ¬ arrayOpening <:+: tokens) (parsed : parseTokens options tokens = .ok tree)
    (text : String) :
    tree.atoms.count (.comment text) = (Token.atoms tokens).count (.comment text) := by
  have content : Content (· == .comment text) :=
    ⟨by simp, by simp, by simp, rfl, by simp⟩
  have faithful : Faithful (· == .comment text) tokens := ⟨noArray, by simp⟩
  exact (tokenTally_of_parseTokens content faithful parsed).symm

/-- Atoms of two kinds, counted together. -/
theorem countP_or {first second : Atom} (distinct : first ≠ second) (atoms : List Atom) :
    atoms.countP (fun atom => atom == first || atom == second) =
      atoms.count first + atoms.count second := by
  induction atoms with
  | nil => rfl
  | cons atom rest inductionHypothesis =>
    rw [List.countP_cons, List.count_cons, List.count_cons, inductionHypothesis]
    by_cases isFirst : atom = first
    · subst isFirst
      simp [distinct]
      omega
    · simp [isFirst]
      omega

theorem count_primes {options : ParseOptions} {tokens : List Token} {tree : Node}
    (noArray : ¬ arrayOpening <:+: tokens) (parsed : parseTokens options tokens = .ok tree)
    (noNumber : NoNumberBefore "'" tokens) :
    (Token.atoms tokens).count (.sign "'") + (Token.atoms tokens).count (.command "\\prime") =
      tree.atoms.count (.sign "'") + tree.atoms.count (.command "\\prime") := by
  have noDigit : ∀ character ∈ "'".toList, character.isDigit = false := by simp
  have content : Content fun atom => atom == .sign "'" || atom == .command "\\prime" := by
    refine ⟨by simp, by simp, by simp, by simp, fun first rest isDigit => ?_⟩
    rw [number_ne_sign noDigit isDigit rest]
    rfl
  have faithful : Faithful (fun atom => atom == .sign "'" || atom == .command "\\prime") tokens :=
    .ofNoNumberBefore noArray noNumber noDigit (by simp)
  have same := tokenTally_of_parseTokens content faithful parsed
  rwa [tokenTally, tally, countP_or (by simp), countP_or (by simp)] at same

/-- Parsing neither loses nor duplicates content. In the absence of arrays, a sign that
is no number, prime or bracket, a command that does not only give structure, and a
comment occur in the tree as often as in the tokens, and so do primes and the commands
that stand for them, taken together. A sign has to stand on its own, not behind the
digits of a number. -/
theorem atoms_of_parseTokens (options : ParseOptions) (tokens : List Token) (tree : Node)
    (noArray : ¬ arrayOpening <:+: tokens) (parsed : parseTokens options tokens = .ok tree) :
    (∀ sign, (∀ character ∈ sign.toList, character.isDigit = false) → sign ∉ ["'", "[", "]"] →
      NoNumberBefore sign tokens →
      tree.atoms.count (.sign sign) = (Token.atoms tokens).count (.sign sign)) ∧
    (∀ name, name ∉ ["\\left", "\\right", "\\begin", "\\end", "\\text", "\\prime"] →
      tree.atoms.count (.command name) = (Token.atoms tokens).count (.command name)) ∧
    (∀ text, tree.atoms.count (.comment text) = (Token.atoms tokens).count (.comment text)) ∧
    (NoNumberBefore "'" tokens →
      (Token.atoms tokens).count (.sign "'") + (Token.atoms tokens).count (.command "\\prime") =
        tree.atoms.count (.sign "'") + tree.atoms.count (.command "\\prime")) :=
  ⟨fun _ noDigit plain noNumber => count_sign noArray parsed noDigit plain noNumber,
    fun _ plain => count_command noArray parsed plain,
    fun text => count_comment noArray parsed text,
    fun noNumber => count_primes noArray parsed noNumber⟩

/-- A fraction of a number that is split, a prime, a comment and a matrix. -/
def mixedTokens : List Token :=
  [⟨.command, "\\frac"⟩, ⟨.element, "12"⟩, ⟨.element, "x"⟩, .prime, ⟨.comment, "c"⟩,
    ⟨.newline, "\n"⟩, .beginEnvironment, .openBrace, ⟨.text, "matrix"⟩, .closeBrace,
    ⟨.element, "x"⟩, ⟨.control, "&"⟩, ⟨.command, "\\alpha"⟩, .endEnvironment, .openBrace,
    ⟨.text, "matrix"⟩, .closeBrace]

/-- The tree of `mixedTokens`. -/
def mixedTree : Node :=
  .ordgroup "" [.binaryFunc "\\frac" (.element "1") (.element "2"),
    .supsub "" (.element "x") (some (.symbol "\\prime")) none, .leaf .comment "c",
    .leaf .newline "\n", .beginend "matrix" [[.element "x", .symbol "\\alpha"]]]

theorem atoms_of_parseTokens_mixed :
    ¬ arrayOpening <:+: mixedTokens ∧
      parseTokens { symbols := [("alpha", "alpha")] } mixedTokens = .ok mixedTree ∧
      mixedTree.atoms.count (.sign "x") = (Token.atoms mixedTokens).count (.sign "x") ∧
      mixedTree.atoms.count (.command "\\frac") =
        (Token.atoms mixedTokens).count (.command "\\frac") ∧
      (Token.atoms mixedTokens).count (.sign "'") +
          (Token.atoms mixedTokens).count (.command "\\prime") =
        mixedTree.atoms.count (.sign "'") + mixedTree.atoms.count (.command "\\prime") := by
  have noArray : ¬ arrayOpening <:+: mixedTokens := by decide
  have parsed : parseTokens { symbols := [("alpha", "alpha")] } mixedTokens = .ok mixedTree := by
    cbv
  obtain ⟨signs, commands, -, primes⟩ := atoms_of_parseTokens _ mixedTokens mixedTree noArray parsed
  exact ⟨noArray, parsed, signs "x" (by simp) (by decide) (by decide),
    commands "\\frac" (by decide), primes (by decide)⟩

/-- A sign behind the digits of a number is set free when the number is split. -/
theorem count_sign_after_digits :
    ¬ arrayOpening <:+: [⟨.command, "\\sqrt"⟩, ⟨.element, "1x"⟩] ∧
      (∀ character ∈ "x".toList, character.isDigit = false) ∧ "x" ∉ ["'", "[", "]"] ∧
      ∃ tree, parseTokens {} [⟨.command, "\\sqrt"⟩, ⟨.element, "1x"⟩] = .ok tree ∧
        tree.atoms.count (.sign "x") ≠
          (Token.atoms [⟨.command, "\\sqrt"⟩, ⟨.element, "1x"⟩]).count (.sign "x") := by
  -- The symbols play no part, so that their table need not be evaluated.
  have parsed (symbols : Symbol.Table) :
      parseTokens { symbols } [⟨.command, "\\sqrt"⟩, ⟨.element, "1x"⟩] =
        .ok (.ordgroup "" [.unaryFunc "\\sqrt" (.element "1") none, .element "x"]) := by
    cbv
  exact ⟨by decide, by simp, by decide, _, parsed Symbol.standard, by decide⟩

end Counts

end Grammar
end MathMarkup.Tex
