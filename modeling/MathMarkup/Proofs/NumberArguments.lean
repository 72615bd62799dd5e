import MathMarkup.Proofs.Lexemes
import MathMarkup.Proofs.NumberSplits
import MathMarkup.Proofs.ScriptSpacing
import MathMarkup.Proofs.Sight

/-!
# Numbers as arguments without braces

A command takes the first digit of a number that follows it without braces, and the rest of
the number stays as one element. If the number has at least two digits before its point, this
is what braces around the digit give. If the point comes second, the rest starts with the
point, and the lexer does not make one token of a point and the digits after it: the two
formulas then fail in the same way or are different.
-/

namespace MathMarkup.Tex

/-- The element with the given text. -/
abbrev Token.element (value : String) : Token := ⟨.element, value⟩

namespace Lexer

theorem ofList_ne_of_head? {first : Char} {rest : List Char} {text : String}
    (differs : text.toList.head? ≠ some first) : String.ofList (first :: rest) ≠ text := by
  rintro rfl
  simp at differs

theorem ofList_ne_of_isDigit {first : Char} {rest : List Char} {text : String}
    (isDigit : first.isDigit = true) (noDigit : text.toList.head?.all Char.isDigit = false) :
    String.ofList (first :: rest) ≠ text := by
  refine ofList_ne_of_head? fun same => ?_
  rw [same] at noDigit
  simp [isDigit] at noDigit

/-- Digits, or digits with a point and digits after it. -/
inductive NumericLiteral : List Char → Prop where
  | whole {first : Char} {others : List Char} (starts : first.isDigit = true)
      (digits : ∀ character ∈ others, character.isDigit = true) : NumericLiteral (first :: others)
  | decimal {first digit : Char} {others places : List Char} (starts : first.isDigit = true)
      (digits : ∀ character ∈ others, character.isDigit = true) (fraction : digit.isDigit = true)
      (moreDigits : ∀ character ∈ places, character.isDigit = true) :
      NumericLiteral (first :: others ++ '.' :: digit :: places)

/-- The text goes on with characters that make a longer literal. -/
def Extends (literal text : List Char) : Prop :=
  ∃ more rest, more ≠ [] ∧ text = more ++ rest ∧ NumericLiteral (literal ++ more)

namespace NumericLiteral

variable {first second : Char} {rest literal after : List Char}

theorem isDigit_first (isLiteral : NumericLiteral (first :: rest)) : first.isDigit = true := by
  cases isLiteral with
  | whole starts digits => exact starts
  | decimal starts digits fraction moreDigits => exact starts

/-- A digit before a literal makes a longer one. -/
theorem cons (starts : first.isDigit = true) (isLiteral : NumericLiteral literal) :
    NumericLiteral (first :: literal) := by
  cases isLiteral with
  | whole isDigit digits => exact .whole starts (List.forall_mem_cons.mpr ⟨isDigit, digits⟩)
  | @decimal second digit others places isDigit digits fraction moreDigits =>
    have longer : ∀ character ∈ second :: others, character.isDigit = true :=
      List.forall_mem_cons.mpr ⟨isDigit, digits⟩
    exact .decimal starts longer fraction moreDigits

/-- Without its first digit a literal is a literal, or starts with its point. -/
theorem tail (isLiteral : NumericLiteral (first :: second :: rest)) :
    NumericLiteral (second :: rest) ∨ second = '.' ∧ ∃ digit places, rest = digit :: places ∧
      digit.isDigit = true ∧ ∀ character ∈ places, character.isDigit = true := by
  generalize same : first :: second :: rest = literal at isLiteral
  cases isLiteral with
  | whole starts digits =>
    cases same
    rw [List.forall_mem_cons] at digits
    exact .inl (.whole digits.1 digits.2)
  | @decimal _ digit others places starts digits fraction moreDigits =>
    cases others with
    | nil =>
      cases same
      exact .inr ⟨rfl, digit, places, rfl, fraction, moreDigits⟩
    | cons next others =>
      cases same
      rw [List.forall_mem_cons] at digits
      exact .inl (.decimal digits.1 digits.2 fraction moreDigits)

/-- What is left of a literal is no prime. -/
theorem tail_ne_prime (isLiteral : NumericLiteral (first :: second :: rest)) :
    String.ofList (second :: rest) ≠ "'" := by
  rcases isLiteral.tail with isLiteral | ⟨rfl, -⟩
  · exact ofList_ne_of_isDigit isLiteral.isDigit_first rfl
  · exact ofList_ne_of_head? (by decide)

/-- A digit after a literal makes a longer one. -/
theorem concat (isLiteral : NumericLiteral literal) {digit : Char} (isDigit : digit.isDigit = true) :
    NumericLiteral (literal ++ [digit]) := by
  cases isLiteral with
  | whole starts digits =>
    exact .whole starts (List.forall_mem_append.mpr ⟨digits, by simpa using isDigit⟩)
  | decimal starts digits fraction moreDigits =>
    rw [List.append_assoc]
    exact .decimal starts digits fraction
      (List.forall_mem_append.mpr ⟨moreDigits, by simpa using isDigit⟩)

/-- What does not extend a literal does not start with a digit. -/
theorem stops (isLiteral : NumericLiteral literal) (ends : ¬ Extends literal after) :
    Stops Char.isDigit after := by
  intro character isNext
  obtain ⟨rest, rfl⟩ := List.head?_eq_some_iff.mp isNext
  rw [← Bool.not_eq_true]
  exact fun isDigit => ends ⟨[character], rest, by simp, rfl, isLiteral.concat isDigit⟩

/-- A literal that the text does not extend is read as one element. -/
theorem lexeme (isLiteral : NumericLiteral literal) (ends : ¬ Extends literal after) :
    Lexeme literal (.element (String.ofList literal)) after := by
  have stops := isLiteral.stops ends
  cases isLiteral with
  | whole starts digits =>
    refine .whole starts digits stops ?_
    rintro fraction rfl character isNext
    obtain ⟨rest, rfl⟩ := List.head?_eq_some_iff.mp isNext
    rw [← Bool.not_eq_true]
    intro isDigit
    exact ends ⟨['.', character], rest, by simp, rfl, .decimal starts digits isDigit (by simp)⟩
  | decimal starts digits fraction moreDigits =>
    exact .decimal starts digits fraction moreDigits stops

end NumericLiteral

/-- What does not extend a literal does not extend the rest of it. -/
theorem not_extends_tail {first second : Char} {rest after : List Char}
    (starts : first.isDigit = true) (ends : ¬ Extends (first :: second :: rest) after) :
    ¬ Extends (second :: rest) after := by
  rintro ⟨more, text, nonempty, rfl, longer⟩
  exact ends ⟨more, text, nonempty, rfl, longer.cons starts⟩

theorem map_nil_append (lexed : Except ParseError (List Token)) : lexed = lexed.map ([] ++ ·) := by
  cases lexed <;> rfl

theorem map_append_map (lexed : Except ParseError (List Token)) (first second : List Token) :
    (lexed.map (second ++ ·)).map (first ++ ·) = lexed.map (first ++ second ++ ·) := by
  cases lexed <;> simp [Except.map]

/-- The tokens of a lexeme that takes no text stand before those of the text after it. -/
theorem Lexeme.tokens_append {span rest : List Char} {token : Token} {others : List Token}
    {lexed : Except ParseError (List Token)} (lexeme : Lexeme span token rest)
    (plain : takesText token = false) (read : Lexer.tokens rest = lexed.map (others ++ ·)) :
    Lexer.tokens (span ++ rest) = lexed.map (token :: others ++ ·) := by
  rw [(Segment.single lexeme plain).tokens_append, read, map_append_map, List.singleton_append]

theorem not_isAlpha_of_isDigit {character : Char} (isDigit : character.isDigit = true) :
    character.isAlpha = false := by
  rw [← Bool.not_eq_true]
  intro isLetter
  rw [not_isDigit_of_isAlpha isLetter] at isDigit
  cases isDigit

/-- A letter or digit in braces gives three tokens. -/
theorem tokens_braced {character : Char} {rest : List Char} {others : List Token}
    {lexed : Except ParseError (List Token)}
    (lexeme : Lexeme [character] (.element (String.ofList [character])) ('}' :: rest))
    (read : Lexer.tokens rest = lexed.map (others ++ ·)) :
    Lexer.tokens ('{' :: character :: '}' :: rest) =
      lexed.map (.openBrace :: .element (String.ofList [character]) :: .closeBrace :: others ++ ·) := by
  have closer : Lexeme ['}'] .closeBrace rest := .control (by decide) rest
  have opener : Lexeme ['{'] .openBrace (character :: '}' :: rest) := .control (by decide) _
  exact opener.tokens_append rfl (lexeme.tokens_append rfl (closer.tokens_append rfl read))

/-- Digits before a text are elements together with the points and numbers that the text goes
on with, whichever way these pair up. The rest is read as it is without the digits. -/
theorem exists_elements_before (after : List Char) (stops : Stops Char.isDigit after) {digit : Char}
    {places : List Char} (isDigit : digit.isDigit = true)
    (digits : ∀ character ∈ places, character.isDigit = true) :
    ∃ (lexed : Except ParseError (List Token)) (value : String) (others passed : List String),
      "'" ∉ value :: others ∧ "'" ∉ passed ∧
      Lexer.tokens (digit :: places ++ after) =
        lexed.map ((value :: others).map Token.element ++ ·) ∧
      Lexer.tokens after = lexed.map (passed.map Token.element ++ ·) := by
  -- A point and a number belong together from the one start on and apart from the other, so
  -- the two readings change places with each number.
  induction size : after.length using Nat.strongRecOn generalizing after digit places with
  | ind size inductionHypothesis =>
    subst size
    by_cases fraction : ∃ place tail, after = '.' :: place :: tail ∧ place.isDigit = true
    · obtain ⟨place, tail, rfl, isPlace⟩ := fraction
      obtain ⟨more, rest, rfl, morePlaces, ends⟩ := exists_run Char.isDigit tail
      have shorter : rest.length < ('.' :: place :: (more ++ rest)).length := by simp; omega
      obtain ⟨lexed, value, others, passed, noPrime, noPrimePassed, whole, without⟩ :=
        inductionHypothesis _ shorter rest ends isPlace morePlaces rfl
      have point : Lexeme ['.'] (.element ".") (place :: more ++ rest) := .sign (by decide) _
      have decimal := Lexeme.decimal isDigit digits isPlace morePlaces ends
      refine ⟨lexed, String.ofList (digit :: places ++ '.' :: place :: more), passed,
        "." :: value :: others, ?_, ?_, ?_, point.tokens_append rfl whole⟩
      · exact List.not_mem_cons_of_ne_of_not_mem (ofList_ne_of_isDigit isDigit rfl).symm noPrimePassed
      · exact List.not_mem_cons_of_ne_of_not_mem (by decide) noPrime
      · have read := decimal.tokens_append rfl without
        simpa using read
    · have whole : Lexeme (digit :: places) (.element (String.ofList (digit :: places))) after := by
        refine .whole isDigit digits stops ?_
        rintro places rfl place isFirst
        obtain ⟨more, rfl⟩ := List.head?_eq_some_iff.mp isFirst
        rw [← Bool.not_eq_true]
        exact fun isPlace => fraction ⟨place, more, rfl, isPlace⟩
      have unchanged := map_nil_append (Lexer.tokens after)
      refine ⟨Lexer.tokens after, String.ofList (digit :: places), [], [], ?_, by simp,
        whole.tokens_append rfl unchanged, unchanged⟩
      simpa using (ofList_ne_of_isDigit isDigit rfl).symm

theorem NumericLiteral.isDigit_or_point {literal : List Char} (isLiteral : NumericLiteral literal) :
    ∀ character ∈ literal, character.isDigit = true ∨ character = '.' := by
  cases isLiteral with
  | whole starts digits => exact fun character member => .inl (by grind)
  | decimal starts digits fraction moreDigits => exact fun character member => by grind

/-- A text that goes on with neither a digit nor a point extends no literal. -/
theorem not_extends_of_head? {literal after : List Char}
    (stops : ∀ character ∈ after.head?, character.isDigit = false ∧ character ≠ '.') :
    ¬ Extends literal after := by
  rintro ⟨more, rest, nonempty, rfl, longer⟩
  obtain ⟨character, others, rfl⟩ := List.exists_cons_of_ne_nil nonempty
  have stopped := stops character rfl
  have goesOn := longer.isDigit_or_point character (by simp)
  simp [stopped] at goesOn

end Lexer

section Preparation

variable {macros : MacroTable}

/-- The token comes unchanged to where the tokens are read, and has no effect on the others on
the way: it is neither space nor a script mark nor a macro. -/
structure IsPlain (macros : MacroTable) (token : Token) : Prop where
  solid : token.kind ≠ .whitespace
  unmarked : token.isScriptMark = false
  kept : macros.replaces token = false

theorem isPlain_element (value : String) : IsPlain macros (.element value) where
  solid := by simp
  unmarked := by simp [Token.isScriptMark, Token.scriptMark?]
  kept := rfl

theorem isPlain_braced (value : String) {others : List Token}
    (plain : ∀ other ∈ others, IsPlain macros other) :
    ∀ other ∈ .openBrace :: .element value :: .closeBrace :: others, IsPlain macros other := by
  have opener : IsPlain macros .openBrace := ⟨by decide, by decide, rfl⟩
  have closer : IsPlain macros .closeBrace := ⟨by decide, by decide, rfl⟩
  simp only [List.forall_mem_cons]
  exact ⟨opener, isPlain_element value, closer, plain⟩

theorem isPlain_elements (values : List String) :
    ∀ other ∈ values.map Token.element, IsPlain macros other :=
  List.forall_mem_map.mpr fun value _ => isPlain_element value

theorem expand_plain_append {plain : List Token} (isPlain : ∀ token ∈ plain, IsPlain macros token)
    (rest : List Token) :
    macros.expand (dropScriptSpacing (plain ++ rest)) =
      (macros.expand (dropScriptSpacing rest)).map (plain ++ ·) := by
  induction plain with
  | nil =>
    rw [List.nil_append]
    cases macros.expand (dropScriptSpacing rest) <;> rfl
  | cons token others inductionHypothesis =>
    rw [List.forall_mem_cons] at isPlain
    obtain ⟨⟨solid, unmarked, kept⟩, othersPlain⟩ := isPlain
    have silent : announcesScript (some token) = false := unmarked
    rw [List.cons_append, dropScriptSpacing, dropScriptSpacingAfter_of_solid none solid,
      dropScriptSpacingAfter_unmarked silent, MacroTable.expand,
      MacroTable.expandToken_of_not_replaces kept, inductionHypothesis othersPlain]
    cases macros.expand (dropScriptSpacing rest) <;> rfl

/-- Plain tokens at the front of a text stand before what the rest of it is prepared to. -/
theorem parseSource_plain {options : ParseOptions} {text : List Char} {plain : List Token}
    {lexed : Except ParseError (List Token)} (isPlain : ∀ token ∈ plain, IsPlain macros token)
    (read : Lexer.tokens text = lexed.map (plain ++ ·)) :
    parseSource options macros (String.ofList text) =
      (lexed.bind fun tokens => macros.expand (dropScriptSpacing tokens)).bind
        fun tokens => parseTokens options (plain ++ tokens) := by
  simp only [parseSource, sourceTokens, tokenize, String.toList_ofList, read, bind]
  cases lexed with
  | error cause => rfl
  | ok tokens =>
    simp only [Except.map, Except.bind, expand_plain_append isPlain]
    cases macros.expand (dropScriptSpacing tokens) <;> rfl

end Preparation

section Elements

open MathMarkup.Tex.Parser Grammar

variable {options : ParseOptions}

/-- Reads all the scripts of a base. -/
def allScripts (operand : Reader Node) : Reader Scripts := do
  let attached ← scripts operand
  refuseScriptMark
  return attached

/-- The scripts at the front of the tokens and the parts after them. -/
def scriptsAndParts (options : ParseOptions) (tokens : List Token) :
    Except ParseError (Scripts × List Node) :=
  match allScripts (operand options) (Cursor.ofTokens tokens) with
  | .error cause _ => .error cause
  | .ok attached place => (partsOf options place.after).map (attached, ·)

/-- The elements as nodes, with scripts on the last of them. -/
def scriptedElements : String → List String → Scripts → List Node
  | value, [], attached => [attached.attach (.element value)]
  | value, next :: others, attached => .element value :: scriptedElements next others attached

theorem isCellMark_attach_element (attached : Scripts) (value : String) :
    Grid.isCellMark (attached.attach (.element value)) = false := by
  unfold Scripts.attach
  split <;> rfl

/-- An element is read together with its scripts. -/
theorem scripted_element (deep : options.maxDepth.toNat ≠ 0) (value : String)
    (before rest : List Token) :
    scripted (operand options) ⟨before, .element value :: rest⟩ =
      match allScripts (operand options) ⟨.element value :: before, rest⟩ with
      | .error cause place => .error cause place
      | .ok attached place => .ok (attached.attach (.element value)) place := by
  obtain ⟨depth, isDepth⟩ := Nat.exists_eq_succ_of_ne_zero deep
  rw [operand, isDepth]
  change EStateM.bind (scripts (operandAt options (depth + 1))) _
    ⟨.element value :: before, rest⟩ = _
  simp only [allScripts, bind, EStateM.bind]
  cases scripts (operandAt options (depth + 1)) ⟨.element value :: before, rest⟩ with
  | error cause place => rfl
  | ok attached place =>
    dsimp only
    cases refuseScriptMark place <;> rfl

theorem part_element (deep : options.maxDepth.toNat ≠ 0) (value : String)
    (before rest : List Token) :
    part (operand options) ⟨before, .element value :: rest⟩ =
      match allScripts (operand options) ⟨.element value :: before, rest⟩ with
      | .error cause place => .error cause place
      | .ok attached place => .ok (attached.attach (.element value)) place := by
  change EStateM.bind (scripted (operand options)) _ ⟨before, .element value :: rest⟩ = _
  unfold EStateM.bind
  rw [scripted_element deep]
  cases allScripts (operand options) ⟨.element value :: before, rest⟩ with
  | error cause place => rfl
  | ok attached place =>
    simp only [isCellMark_attach_element]
    rfl

/-- The scripts after an element do not depend on the element. -/
theorem partsOf_element (deep : options.maxDepth.toNat ≠ 0) (value : String) (rest : List Token) :
    partsOf options (.element value :: rest) = (scriptsAndParts options rest).map
      fun (attached, others) => attached.attach (.element value) :: others := by
  have alike : Alike [.element value] [] (allScripts (operand options) ⟨[.element value], rest⟩)
      (allScripts (operand options) ⟨[], rest⟩) :=
    keeps_allScripts Terms.lawful_free (sight_operandAt options _) id trivial _ _ (.far _ _)
  have takes : TakesToken (part (operand options)) := takesToken_part options _
  have shorter := takes ⟨[], .element value :: rest⟩
  rw [partsOf, scriptsAndParts, Cursor.ofTokens, Cursor.ofTokens, Reader.untilEnd]
  rw [part_element deep] at shorter ⊢
  generalize allScripts (operand options) ⟨[.element value], rest⟩ = one at alike shorter ⊢
  generalize allScripts (operand options) ⟨[], rest⟩ = another at alike ⊢
  cases alike with
  | error cause place stop => rfl
  | ok attached passed after =>
    have others := outcome_untilEnd options (passed ++ [.element value]) after
    simp only [if_pos (shorter _ _ rfl), ← others]
    cases Reader.untilEnd (part (operand options)) ⟨passed ++ [.element value], after⟩ <;> rfl

theorem settled_element {value : String} (noPrime : value ≠ "'") (rest : List Token) :
    Settled (.element value :: rest) := by
  rintro token ⟨⟩
  refine ⟨?_, by simp [Token.scriptMark?]⟩
  rintro ⟨⟩
  exact noPrime rfl

/-- Elements side by side are parts of their own, up to the last, which has the scripts. -/
theorem partsOf_elements (deep : options.maxDepth.toNat ≠ 0) (value : String) {others : List String}
    (noPrime : "'" ∉ others) (rest : List Token) :
    partsOf options ((value :: others).map Token.element ++ rest) =
      (scriptsAndParts options rest).map
        fun (attached, parts) => scriptedElements value others attached ++ parts := by
  induction others generalizing value with
  | nil => exact partsOf_element deep value rest
  | cons next others inductionHypothesis =>
    obtain ⟨depth, isDepth⟩ := Nat.exists_eq_succ_of_ne_zero deep
    rw [List.mem_cons, not_or] at noPrime
    have settled := settled_element (Ne.symm noPrime.1) (others.map Token.element ++ rest)
    have read : Scripted (Reads options options.maxDepth.toNat)
        ((value :: next :: others).map Token.element ++ rest) (.element value)
        ((next :: others).map Token.element ++ rest) := by
      rw [isDepth]
      exact .intro (.leaf rfl) (.none 0 _) settled
    rw [partsOf_of_scripted read rfl, inductionHypothesis next noPrime.2]
    cases scriptsAndParts options rest <;> rfl

/-- The first of the elements is the first of the nodes, with scripts or without. -/
theorem exists_scriptedElements (value : String) (others : List String) (attached : Scripts) :
    ∃ (scripts : Scripts) (tail : List Node),
      scriptedElements value others attached = scripts.attach (.element value) :: tail := by
  cases others with
  | nil => exact ⟨attached, [], rfl⟩
  | cons next others => exact ⟨{}, scriptedElements next others attached, rfl⟩

theorem attach_element_eq_element {attached : Scripts} {value other : String}
    (same : attached.attach (.element value) = .element other) : value = other := by
  unfold Scripts.attach at same
  split at same
  · cases same
    rfl
  · cases same

end Elements

section Arguments

open MathMarkup.Tex.Parser Grammar

variable {options : ParseOptions} {macros : MacroTable}

/-- An element in braces is an argument. -/
theorem argument_braced (depth : Nat) (value : String) (rest : List Token) :
    Argument (Reads options (depth + 2)) (.openBrace :: .element value :: .closeBrace :: rest)
      (.element value) rest := by
  have balanced : Balanced .openBrace .closeBrace [.element value] :=
    .ofNeutral (by simp [Token.openBrace, Token.closeBrace])
  have part : Scripted (Reads options (depth + 1)) [.element value] (.element value) [] :=
    .intro (.leaf rfl) (.none 0 []) (by simp [Settled])
  have inside : Sequence (Reads options (depth + 1)) options [.element value] (.element value) :=
    .intro (.cons part .nil) (by simp [Grid.isCellMark])
  exact @Argument.intro _ [] _ _ _ _ (by simp) rfl (by decide) (.group balanced inside)

/-- Of a number the first digit is an argument, and the rest of the number is left. -/
theorem argument_number (depth : Nat) {number digit remainder : Token}
    (isSplit : IsSplit number digit remainder) (tail : List Token) :
    Argument (Reads options (depth + 1)) (number :: tail) (.element digit.value)
      (remainder :: tail) := by
  have split := isSplit.splitFirst_eq tail
  obtain ⟨first, second, rest, -, rfl, rfl, rfl⟩ := isSplit
  refine @Argument.intro _ [] _ _ _ _ (by simp) rfl (by simp [Token.closeBrace]) ?_
  rw [split]
  exact .leaf rfl

/-- The text is a command with all of its arguments but the last, which completes it. -/
structure Front (options : ParseOptions) (macros : MacroTable) (text : List Char)
    (tokens : List Token) (complete : Node → Node) : Prop where
  lexed : ∀ {rest : List Char} {lexed : Except ParseError (List Token)} {others : List Token},
    Lexer.Stops Char.isAlpha rest → Lexer.tokens rest = lexed.map (others ++ ·) →
      Lexer.tokens (text ++ rest) = lexed.map (tokens ++ others ++ ·)
  plain : ∀ token ∈ tokens, IsPlain macros token
  reads : ∀ {token : Token} {tail rest : List Token} {arg : Node}, token.isLayout = false →
    token ≠ .openBracket →
    Argument (Reads options (options.maxDepth.toNat - 1)) (token :: tail) arg rest →
      Reads options options.maxDepth.toNat (tokens ++ token :: tail) (complete arg) rest
  unmarked : ∀ arg, Grid.isCellMark (complete arg) = false
  kept : ∀ arg, keeps options (complete arg) = true

variable {text : List Char} {tokens : List Token} {complete : Node → Node}
  {lexed : Except ParseError (List Token)}

/-- After the last argument comes what is left of the tokens. -/
theorem Front.parseTokens_eq {token : Token} {tail rest : List Token} {arg : Node}
    (front : Front options macros text tokens complete)
    (solid : token.isLayout = false) (noBracket : token ≠ .openBracket)
    (argument : Argument (Reads options (options.maxDepth.toNat - 1)) (token :: tail) arg rest)
    (settled : Settled rest) :
    parseTokens options (tokens ++ token :: tail) = (partsOf options rest).map
      fun parts => .group (complete arg :: parts.filter (keeps options)) := by
  have read : Scripted (Reads options options.maxDepth.toNat) (tokens ++ token :: tail)
      (complete arg) rest :=
    .intro (front.reads solid noBracket argument) (.none 0 rest) settled
  rw [parseTokens_eq_map, partsOf_of_scripted read (front.unmarked arg)]
  cases partsOf options rest with
  | error cause => rfl
  | ok parts => simp [Except.map, front.kept arg]

/-- The scripts and parts after elements at the front of a text, given the tokens after the
elements as the lexer gives them. -/
def partsAfterElements (options : ParseOptions) (macros : MacroTable)
    (lexed : Except ParseError (List Token)) : Except ParseError (Scripts × List Node) :=
  (lexed.bind fun tokens => macros.expand (dropScriptSpacing tokens)).bind (scriptsAndParts options)

/-- The formula of a node, elements and what follows them. -/
def formulaOf (options : ParseOptions) (node : Node) (value : String) (others : List String) :
    Scripts × List Node → Node
  | (attached, parts) =>
    .group (node :: (scriptedElements value others attached ++ parts).filter (keeps options))

/-- If the text goes on with an argument that leaves elements, the formula is the command with
that argument, the elements and what follows them. -/
theorem Front.parseSource_eq {span : List Char} {token : Token} {taken : List Token} {arg : Node}
    {value : String} {others : List String} (front : Front options macros text tokens complete)
    (deep : options.maxDepth.toNat ≠ 0) (noLetter : Lexer.Stops Char.isAlpha span)
    (read : Lexer.tokens span = lexed.map (token :: taken ++ ·))
    (plain : ∀ other ∈ token :: taken, IsPlain macros other) (solid : token.isLayout = false)
    (noBracket : token ≠ .openBracket) (noPrime : "'" ∉ value :: others)
    (argument : ∀ tail, Argument (Reads options (options.maxDepth.toNat - 1))
      (token :: taken ++ tail) arg ((value :: others).map Token.element ++ tail)) :
    parseSource options macros (String.ofList (text ++ span)) =
      (partsAfterElements options macros lexed).map
        (formulaOf options (complete arg) value others) := by
  have allPlain : ∀ other ∈ tokens ++ token :: taken, IsPlain macros other :=
    List.forall_mem_append.mpr ⟨front.plain, plain⟩
  rw [List.mem_cons, not_or] at noPrime
  rw [parseSource_plain allPlain (front.lexed noLetter read), partsAfterElements]
  cases lexed.bind fun tokens => macros.expand (dropScriptSpacing tokens) with
  | error cause => rfl
  | ok tail =>
    have settled : Settled ((value :: others).map Token.element ++ tail) :=
      settled_element (Ne.symm noPrime.1) _
    have parsed := front.parseTokens_eq solid noBracket (argument tail) settled
    rw [partsOf_elements deep value noPrime.2 tail] at parsed
    simp only [Except.bind, List.append_assoc]
    refine parsed.trans ?_
    cases scriptsAndParts options tail <;> rfl

/-- Of a number without braces the first digit is the argument. -/
theorem Front.parseSource_number {first second : Char} {rest after : List Char}
    {passed : List String} (front : Front options macros text tokens complete)
    (deep : 3 ≤ options.maxDepth.toNat) (literal : Lexer.NumericLiteral (first :: second :: rest))
    (ends : ¬ Lexer.Extends (first :: second :: rest) after) (noPrime : "'" ∉ passed)
    (read : Lexer.tokens after = lexed.map (passed.map Token.element ++ ·)) :
    parseSource options macros (String.ofList (text ++ (first :: second :: rest ++ after))) =
      (partsAfterElements options macros lexed).map
        (formulaOf options (complete (.element (String.ofList [first])))
          (String.ofList (second :: rest)) passed) := by
  obtain ⟨depth, isDepth⟩ := Nat.exists_eq_add_of_le' deep
  have isDigit := literal.isDigit_first
  have span := (literal.lexeme ends).tokens_append rfl read
  refine front.parseSource_eq (by omega) ?_ span ?_ rfl ?_ ?_ fun tail => ?_
  · rintro character ⟨⟩
    exact Lexer.not_isAlpha_of_isDigit isDigit
  · exact isPlain_elements (String.ofList (first :: second :: rest) :: passed)
  · intro isBracket
    exact Lexer.ofList_ne_of_isDigit isDigit rfl (Token.mk.inj isBracket).2
  · exact List.not_mem_cons_of_ne_of_not_mem literal.tail_ne_prime.symm noPrime
  · rw [isDepth]
    exact argument_number (depth + 1) ⟨first, second, rest, isDigit, rfl, rfl, rfl⟩ _

/-- A digit in braces is the argument. -/
theorem Front.parseSource_braced {digit : Char} {after : List Char} {value : String}
    {others : List String} (front : Front options macros text tokens complete)
    (deep : 3 ≤ options.maxDepth.toNat) (isDigit : digit.isDigit = true)
    (noPrime : "'" ∉ value :: others)
    (read : Lexer.tokens after = lexed.map ((value :: others).map Token.element ++ ·)) :
    parseSource options macros (String.ofList (text ++ '{' :: digit :: '}' :: after)) =
      (partsAfterElements options macros lexed).map
        (formulaOf options (complete (.element (String.ofList [digit]))) value others) := by
  obtain ⟨depth, isDepth⟩ := Nat.exists_eq_add_of_le' deep
  have span := Lexer.tokens_braced (.whole isDigit (by simp) (by simp [Lexer.Stops]) (by simp)) read
  refine front.parseSource_eq (by omega) (by simp [Lexer.Stops]) span
    (isPlain_braced _ (isPlain_elements (value :: others))) rfl (by decide) noPrime fun tail => ?_
  rw [isDepth]
  exact argument_braced depth _ _

/-- A command of one argument, or a command of two arguments with the first of them in braces,
and the formula that a last argument gives. Commands that take text are left out. -/
inductive AwaitsArgument (name : String) : String → (Node → Node) → Prop where
  | unary (listed : name ∈ unaryCommands) (math : name ≠ "text" ∧ name ≠ "operatorname") :
      AwaitsArgument name ("\\" ++ name) fun arg => .unaryFunc ("\\" ++ name) arg none
  | binary (listed : name ∈ binaryCommands) :
      AwaitsArgument name ("\\" ++ name ++ "\x7bx\x7d") (.binaryFunc ("\\" ++ name) (.element "x"))

/-- The commands of one or two arguments that take no text. -/
def mathCommands : List String :=
  unaryCommands.filter (fun name => name ≠ "text" ∧ name ≠ "operatorname") ++ binaryCommands

theorem commandName_append (name : String) : commandName ("\\" ++ name) = name := by
  simp [commandName]

/-- A command is read up to its last letter. -/
theorem tokens_command {name : String} (listed : name ∈ mathCommands) {rest : List Char}
    {others : List Token} (noLetter : Lexer.Stops Char.isAlpha rest)
    (read : Lexer.tokens rest = lexed.map (others ++ ·)) :
    Lexer.tokens (("\\" ++ name).toList ++ rest) =
      lexed.map (⟨.command, "\\" ++ name⟩ :: others ++ ·) := by
  have letters : ∀ name ∈ mathCommands, name.toList ≠ [] ∧ name.toList.all Char.isAlpha = true := by
    decide
  have noText : ∀ name ∈ mathCommands, Lexer.takesText ⟨.command, "\\" ++ name⟩ = false := by
    decide
  have spelled : ("\\" ++ name).toList = '\\' :: name.toList := by simp
  obtain ⟨nonempty, allLetters⟩ := letters name listed
  obtain ⟨first, following, characters⟩ := List.exists_cons_of_ne_nil nonempty
  rw [characters, List.all_cons, Bool.and_eq_true, List.all_eq_true] at allLetters
  have lexeme : Lexer.Lexeme ("\\" ++ name).toList ⟨.command, "\\" ++ name⟩ rest := by
    rw [← String.ofList_toList (s := "\\" ++ name), String.toList_ofList, spelled, characters]
    exact .command allLetters.1 allLetters.2 noLetter
  exact lexeme.tokens_append (noText name listed) read

/-- The command token of a name that is no macro. -/
theorem isPlain_command {name : String} (noMacro : macros.find? ("\\" ++ name) = none) :
    IsPlain macros ⟨.command, "\\" ++ name⟩ where
  solid := by simp
  unmarked := by simp [Token.isScriptMark, Token.scriptMark?]
  kept := by simp [MacroTable.replaces, noMacro]

theorem front_unary {name : String} (listed : name ∈ unaryCommands)
    (math : name ≠ "text" ∧ name ≠ "operatorname")
    (noMacro : macros.find? ("\\" ++ name) = none) (deep : 3 ≤ options.maxDepth.toNat) :
    Front options macros ("\\" ++ name).toList [⟨.command, "\\" ++ name⟩]
      fun arg => .unaryFunc ("\\" ++ name) arg none where
  lexed := tokens_command (by simp [mathCommands, listed, math])
  plain := by simpa using isPlain_command noMacro
  reads := by
    intro token tail rest arg solid noBracket argument
    obtain ⟨depth, isDepth⟩ := Nat.exists_eq_add_of_le' deep
    rw [isDepth] at argument ⊢
    have arity : Arity.ofName (commandName ("\\" ++ name)) = .unary := by
      simp [commandName_append, Arity.ofName, listed]
    refine .command (.unary arity ?_)
    by_cases isRoot : "\\" ++ name = "\\sqrt"
    · refine .root isRoot (.none ?_) argument
      simpa [solid] using noBracket
    · refine .other ⟨?_, ?_, isRoot⟩ argument
      · exact fun same => math.1 ((commandName_append name).symm.trans (congrArg commandName same))
      · exact fun same => math.2 ((commandName_append name).symm.trans (congrArg commandName same))
  unmarked := fun _ => rfl
  kept := fun _ => rfl

theorem front_binary {name : String} (listed : name ∈ binaryCommands)
    (noMacro : macros.find? ("\\" ++ name) = none) (deep : 3 ≤ options.maxDepth.toNat) :
    Front options macros ("\\" ++ name ++ "\x7bx\x7d").toList
      [⟨.command, "\\" ++ name⟩, .openBrace, .element "x", .closeBrace]
      (.binaryFunc ("\\" ++ name) (.element "x")) where
  lexed := by
    intro rest lexed others noLetter read
    have letter : Lexer.Lexeme ['x'] (.element "x") ('}' :: rest) := .letter (by decide) _
    have braced := Lexer.tokens_braced letter read
    have known : name ∈ mathCommands := by simp [mathCommands, listed]
    have named := tokens_command known (by simp [Lexer.Stops]) braced
    simpa using named
  plain := List.forall_mem_cons.mpr ⟨isPlain_command noMacro, isPlain_braced "x" (by simp)⟩
  reads := by
    intro token tail rest arg solid noBracket argument
    obtain ⟨depth, isDepth⟩ := Nat.exists_eq_add_of_le' deep
    rw [isDepth] at argument ⊢
    have arities : ∀ name ∈ binaryCommands, Arity.ofName name = .binary := by decide
    have arity : Arity.ofName (commandName ("\\" ++ name)) = .binary := by
      rw [commandName_append, arities name listed]
    exact .command (.binary arity (argument_braced depth "x" _) argument)
  unmarked := fun _ => rfl
  kept := fun _ => rfl

theorem AwaitsArgument.front {name text : String}
    (awaits : AwaitsArgument name text complete) (noMacro : macros.find? ("\\" ++ name) = none)
    (deep : 3 ≤ options.maxDepth.toNat) :
    ∃ tokens, Front options macros text.toList tokens complete := by
  cases awaits with
  | unary listed math => exact ⟨_, front_unary listed math noMacro deep⟩
  | binary listed => exact ⟨_, front_binary listed noMacro deep⟩

/-- The formulas start with the same node and the first of the elements. -/
theorem exists_formulaOf (options : ParseOptions) (node : Node) (value : String) (others : List String)
    (outcome : Scripts × List Node) :
    ∃ (scripts : Scripts) (parts : List Node), formulaOf options node value others outcome =
      .ordgroup "" (node :: scripts.attach (.element value) :: parts) := by
  obtain ⟨attached, parts⟩ := outcome
  obtain ⟨scripts, tail, nodes⟩ := exists_scriptedElements value others attached
  refine ⟨scripts, (tail ++ parts).filter (keeps options), ?_⟩
  rw [formulaOf, nodes, List.cons_append, List.filter_cons_of_pos (keeps_attach rfl _)]
  rfl

/-- Formulas that go on with a different element are different. -/
theorem formulaOf_ne {node : Node} {value other : String} (differs : value ≠ other)
    (following : List String) {others : List String} (nonempty : others ≠ [])
    (outcome : Scripts × List Node) :
    formulaOf options node value following outcome ≠ formulaOf options node other others outcome := by
  obtain ⟨next, others, rfl⟩ := List.exists_cons_of_ne_nil nonempty
  obtain ⟨scripts, parts, one⟩ := exists_formulaOf options node value following outcome
  have another : formulaOf options node other (next :: others) outcome =
      .ordgroup "" (node :: .element other ::
        (scriptedElements next others outcome.1 ++ outcome.2).filter (keeps options)) := rfl
  rw [one, another]
  intro same
  have heads := (List.cons.inj (List.cons.inj (Node.ordgroup.inj same).2).2).1
  exact differs (attach_element_eq_element heads)

/-- With and without braces around the first digit of a number the same scripts and parts
follow the last elements, and the elements are the same unless the point comes second. -/
theorem Front.exists_outcome {first second : Char} {rest after : List Char}
    (front : Front options macros text tokens complete) (deep : 3 ≤ options.maxDepth.toNat)
    (literal : Lexer.NumericLiteral (first :: second :: rest))
    (ends : ¬ Lexer.Extends (first :: second :: rest) after) :
    ∃ (outcome : Except ParseError (Scripts × List Node)) (passed : List String) (value : String)
      (others : List String),
      parseSource options macros (String.ofList (text ++ (first :: second :: rest ++ after))) =
        outcome.map (formulaOf options (complete (.element (String.ofList [first])))
          (String.ofList (second :: rest)) passed) ∧
      parseSource options macros
          (String.ofList (text ++ '{' :: first :: '}' :: (second :: rest ++ after))) =
        outcome.map (formulaOf options (complete (.element (String.ofList [first]))) value others) ∧
      if second.isDigit then value = String.ofList (second :: rest) ∧ others = passed
      else String.ofList (second :: rest) ≠ value ∧ others ≠ [] := by
  have isDigit := literal.isDigit_first
  rcases literal.tail with isLiteral | ⟨rfl, digit, places, rfl, isPlace, digits⟩
  · have unchanged := Lexer.map_nil_append (Lexer.tokens after)
    have lexeme := isLiteral.lexeme (Lexer.not_extends_tail isDigit ends)
    have noPrime : "'" ∉ [String.ofList (second :: rest)] := by simpa using literal.tail_ne_prime.symm
    refine ⟨_, [], _, [], front.parseSource_number deep literal ends (by simp) unchanged,
      front.parseSource_braced deep isDigit noPrime (lexeme.tokens_append rfl unchanged), ?_⟩
    rw [if_pos isLiteral.isDigit_first]
    exact ⟨rfl, rfl⟩
  · obtain ⟨lexed, value, others, passed, noPrime, noPrimePassed, whole, without⟩ :=
      Lexer.exists_elements_before after (literal.stops ends) isPlace digits
    have point : Lexer.Lexeme ['.'] (.element ".") (digit :: places ++ after) := .sign (by decide) _
    have noPrimeAtAll : "'" ∉ "." :: value :: others :=
      List.not_mem_cons_of_ne_of_not_mem (by decide) noPrime
    refine ⟨_, passed, ".", value :: others,
      front.parseSource_number deep literal ends noPrimePassed without,
      front.parseSource_braced deep isDigit noPrimeAtAll (point.tokens_append rfl whole), ?_⟩
    rw [if_neg (by decide)]
    refine ⟨?_, by simp⟩
    intro same
    have characters := congrArg String.toList same
    simp at characters

end Arguments

/-- A command takes the first digit of a number that follows it without braces as its last
argument, and the rest of the number is the next element. With braces around the digit the
text gives the same formula, or the same error, exactly if the second character of the number
is a digit too, or reading fails. -/
theorem unbraced_number_argument (options : ParseOptions) (deep : 3 ≤ options.maxDepth)
    (macros : MacroTable) {name front : String} {complete : Node → Node}
    (awaits : AwaitsArgument name front complete) (noMacro : macros.find? ("\\" ++ name) = none)
    {first second : Char} {rest : List Char}
    (literal : Lexer.NumericLiteral (first :: second :: rest)) (after : String)
    (ends : ¬ Lexer.Extends (first :: second :: rest) after.toList) :
    let unbraced := front ++ String.ofList (first :: second :: rest) ++ after
    let braced := front ++ "\x7b" ++ String.ofList [first] ++ "\x7d" ++
      String.ofList (second :: rest) ++ after
    (parseSource options macros unbraced = parseSource options macros braced ↔
      second.isDigit = true ∨ ∃ cause, parseSource options macros unbraced = .error cause) ∧
    ∀ tree, parseSource options macros unbraced = .ok tree →
      ∃ (scripts : Parser.Scripts) (parts : List Node),
        tree = .ordgroup "" (complete (.element (String.ofList [first])) ::
          scripts.attach (.element (String.ofList (second :: rest))) :: parts) := by
  intro unbraced braced
  have enough : 3 ≤ options.maxDepth.toNat := by omega
  obtain ⟨tokens, isFront⟩ : ∃ tokens, Front options macros front.toList tokens complete :=
    awaits.front noMacro enough
  obtain ⟨outcome, passed, value, others, withoutBraces, withBraces, same⟩ :=
    isFront.exists_outcome enough literal ends
  have spelled : unbraced =
      String.ofList (front.toList ++ (first :: second :: rest ++ after.toList)) := by
    rw [← String.toList_inj]
    simp [unbraced]
  have spelledBraced : braced =
      String.ofList (front.toList ++ '{' :: first :: '}' :: (second :: rest ++ after.toList)) := by
    rw [← String.toList_inj]
    simp [braced]
  rw [spelled, spelledBraced, withoutBraces, withBraces]
  cases outcome with
  | error cause => simp [Except.map]
  | ok outcome =>
    constructor
    · split at same
      · rename_i isDigit
        obtain ⟨rfl, rfl⟩ := same
        simp [isDigit]
      · rename_i noDigit
        simpa [Except.map, noDigit] using formulaOf_ne same.1 passed same.2 outcome
    · rintro tree ⟨⟩
      exact exists_formulaOf options _ _ passed outcome

/-- The denominator is the first digit, and the prime belongs to the rest of the number. -/
theorem unbraced_number_argument_fraction :
    AwaitsArgument "frac" "\\frac\x7bx\x7d" (.binaryFunc "\\frac" (.element "x")) ∧
    Lexer.NumericLiteral ['1', '2', '.', '5'] ∧ ¬ Lexer.Extends ['1', '2', '.', '5'] ['\''] ∧
    parseSource {} [] "\\frac\x7bx\x7d12.5'" = parseSource {} [] "\\frac\x7bx\x7d\x7b1\x7d2.5'" := by
  have awaits : AwaitsArgument "frac" "\\frac\x7bx\x7d" (.binaryFunc "\\frac" (.element "x")) :=
    .binary (by decide)
  have literal : Lexer.NumericLiteral ['1', '2', '.', '5'] := by
    have digits : ∀ character ∈ ['2'], character.isDigit = true := List.forall_mem_singleton.mpr rfl
    exact .decimal rfl digits rfl (by simp)
  have ends : ¬ Lexer.Extends ['1', '2', '.', '5'] ['\''] := by
    refine Lexer.not_extends_of_head? ?_
    rintro character ⟨⟩
    exact ⟨rfl, by decide⟩
  exact ⟨awaits, literal, ends,
    (unbraced_number_argument {} (by decide) [] awaits rfl literal "'" ends).1.mpr (.inl rfl)⟩

/-- If the point comes second, it stays with the digits after it. With braces around the first
digit it does not. -/
theorem decimal_argument_unlike_braced :
    parseSource { symbols := [] } [] "\\sqrt1.5" = .ok (.ordgroup "" [
      .unaryFunc "\\sqrt" (.element "1") none, .element ".5"]) ∧
    parseSource { symbols := [] } [] "\\sqrt\x7b1\x7d.5" = .ok (.ordgroup "" [
      .unaryFunc "\\sqrt" (.element "1") none, .element ".", .element "5"]) := by
  have lexed : tokenize "\\sqrt1.5" = .ok [⟨.command, "\\sqrt"⟩, .element "1.5"] := by cbv
  have lexedBraced : tokenize "\\sqrt\x7b1\x7d.5" = .ok [⟨.command, "\\sqrt"⟩, .openBrace,
      .element "1", .closeBrace, .element ".", .element "5"] := by
    cbv
  constructor
  · unfold parseSource sourceTokens
    rw [lexed]
    cbv
  · unfold parseSource sourceTokens
    rw [lexedBraced]
    cbv

end MathMarkup.Tex
