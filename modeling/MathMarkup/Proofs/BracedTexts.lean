import MathMarkup.Proofs.Lockstep
import MathMarkup.Proofs.ReadLines
import MathMarkup.Proofs.ScriptSpacing

/-!
# Braced texts in the tokens of a source

A command that takes text is followed by a brace, its text and a brace in the tokens of a
source. Neither the space that is taken out nor the macros that are replaced can separate
them, and no reader cuts between them. So the errors about tokens that no source has are
never met.
-/

namespace MathMarkup.Tex.Grammar

section Texts

variable {token : Token} {tokens first second : List Token}

/-- The tokens start with a text between braces. -/
def StartsWithText (tokens : List Token) : Prop :=
  ∃ content rest, tokens = .openBrace :: ⟨.text, content⟩ :: .closeBrace :: rest

/-- A text between braces follows each command that takes text. -/
def TextsFollow (tokens : List Token) : Prop :=
  ∀ before command after, tokens = before ++ command :: after →
    Lexer.takesText command = true → StartsWithText after

/-- What the tokens of a source have in common. -/
structure Lexical (tokens : List Token) : Prop where
  texts : TextsFollow tokens
  controls : ∀ token ∈ tokens, token.kind = .control → token.value ∈ knownControls

theorem StartsWithText.append (starts : StartsWithText first) (second : List Token) :
    StartsWithText (first ++ second) := by
  obtain ⟨content, rest, rfl⟩ := starts
  exact ⟨content, rest ++ second, rfl⟩

theorem takesText_of_kind (noCommand : token.kind ≠ .command) : Lexer.takesText token = false := by
  simp [Lexer.takesText, noCommand]

theorem TextsFollow.nil : TextsFollow [] := by
  intro before command after split
  simp at split

theorem textsFollow_cons_iff :
    TextsFollow (token :: tokens) ↔
      (Lexer.takesText token = true → StartsWithText tokens) ∧ TextsFollow tokens := by
  constructor
  · intro follow
    refine ⟨follow [] token tokens rfl, fun before command after split => ?_⟩
    exact follow (token :: before) command after (by rw [split]; rfl)
  · rintro ⟨here, later⟩ before command after split
    cases before with
    | nil =>
      cases split
      exact here
    | cons other before =>
      cases split
      exact later before command after rfl

theorem TextsFollow.append (firstFollow : TextsFollow first) (secondFollow : TextsFollow second) :
    TextsFollow (first ++ second) := by
  induction first with
  | nil => exact secondFollow
  | cons token rest inductionHypothesis =>
    obtain ⟨here, later⟩ := textsFollow_cons_iff.mp firstFollow
    exact textsFollow_cons_iff.mpr
      ⟨fun takes => (here takes).append second, inductionHypothesis later⟩

theorem TextsFollow.right (follow : TextsFollow (first ++ second)) : TextsFollow second := by
  intro before command after split
  exact follow (first ++ before) command after (by rw [split, List.append_assoc])

/-- Where a list is cut, a text stays with its command: unless the second part starts with a
token of the three, or with the last brace while the first ends with the other two. -/
theorem TextsFollow.left (follow : TextsFollow (first ++ second))
    (uncut : ∀ token ∈ second.head?, token ≠ .openBrace ∧ token.kind ≠ .text ∧
      (token = .closeBrace → ∀ before content, first ≠ before ++ [.openBrace, ⟨.text, content⟩])) :
    TextsFollow first := by
  intro before command after split takes
  subst split
  obtain ⟨content, rest, starts⟩ := follow before command (after ++ second) (by simp) takes
  match after with
  | [] =>
    obtain rfl : second = _ := starts
    exact absurd rfl (uncut .openBrace rfl).1
  | [opener] =>
    simp only [List.cons_append, List.nil_append, List.cons.injEq] at starts
    obtain ⟨rfl, rfl⟩ := starts
    exact absurd rfl (uncut ⟨.text, content⟩ rfl).2.1
  | [opener, text] =>
    simp only [List.cons_append, List.nil_append, List.cons.injEq] at starts
    obtain ⟨rfl, rfl, rfl⟩ := starts
    exact absurd (by simp) ((uncut .closeBrace rfl).2.2 rfl (before ++ [command]) content)
  | opener :: text :: closer :: others =>
    simp only [List.cons_append, List.cons.injEq] at starts
    obtain ⟨rfl, rfl, rfl, -⟩ := starts
    exact ⟨content, others, rfl⟩

/-- Braces are not balanced in front of a brace that closes a text. -/
theorem not_balanced_before_text (before : List Token) (content : String) :
    ¬ Balanced .openBrace .closeBrace (before ++ [.openBrace, ⟨.text, content⟩]) := by
  intro balanced
  unfold Balanced Nesting.Balanced at balanced
  rw [Nesting.depthAfter?_append] at balanced
  cases reached : Nesting.depthAfter? (· == Token.openBrace) (· == Token.closeBrace) 0 before with
  | none => simp [reached] at balanced
  | some depth =>
    rw [reached] at balanced
    simp [Nesting.depthAfter?, Token.openBrace, Token.closeBrace] at balanced

theorem Lexical.nil : Lexical [] := ⟨.nil, by simp⟩

theorem Lexical.append (firstLexical : Lexical first) (secondLexical : Lexical second) :
    Lexical (first ++ second) := by
  refine ⟨firstLexical.texts.append secondLexical.texts, fun token member => ?_⟩
  rcases List.mem_append.mp member with inFirst | inSecond
  · exact firstLexical.controls token inFirst
  · exact secondLexical.controls token inSecond

theorem Lexical.right (lexical : Lexical (first ++ second)) : Lexical second :=
  ⟨lexical.texts.right, fun token member => lexical.controls token (List.mem_append_right _ member)⟩

end Texts

section Source

open Lexer

variable {token : Token} {tokens : List Token}

theorem lexical_cons_iff :
    Lexical (token :: tokens) ↔
      (takesText token = true → StartsWithText tokens) ∧
        (token.kind = .control → token.value ∈ knownControls) ∧ Lexical tokens := by
  constructor
  · rintro ⟨texts, controls⟩
    obtain ⟨here, later⟩ := textsFollow_cons_iff.mp texts
    exact ⟨here, controls token List.mem_cons_self,
      later, fun other member => controls other (List.mem_cons_of_mem _ member)⟩
  · rintro ⟨here, known, later⟩
    refine ⟨textsFollow_cons_iff.mpr ⟨here, later.texts⟩, fun other member => ?_⟩
    rcases List.mem_cons.mp member with rfl | member
    · exact known
    · exact later.controls other member

/-- A token that is no command, and no control token without a rule. -/
theorem Lexical.cons (noCommand : token.kind ≠ .command)
    (known : token.kind = .control → token.value ∈ knownControls) (lexical : Lexical tokens) :
    Lexical (token :: tokens) :=
  lexical_cons_iff.mpr ⟨by simp [takesText_of_kind noCommand], known, lexical⟩

/-- A command with the three tokens of its text. -/
theorem Lexical.text {command : Token} (isCommand : command.kind = .command) (content : String)
    (lexical : Lexical tokens) :
    Lexical (command :: .openBrace :: ⟨.text, content⟩ :: .closeBrace :: tokens) := by
  have closer : Lexical (.closeBrace :: tokens) := lexical.cons (by decide) (by decide)
  have text : Lexical (⟨.text, content⟩ :: .closeBrace :: tokens) := closer.cons (by simp) (by simp)
  have opener : Lexical (.openBrace :: ⟨.text, content⟩ :: .closeBrace :: tokens) :=
    text.cons (by decide) (by decide)
  exact lexical_cons_iff.mpr ⟨fun _ => ⟨content, tokens, rfl⟩, by simp [isCommand], opener⟩

theorem mem_knownControls_escapedToken {text : List Char}
    (isControl : (escapedToken text).kind = .control) :
    (escapedToken text).value ∈ knownControls := by
  cases text with
  | nil => cases isControl
  | cons character rest =>
    by_cases escapes : controlEscapes.contains character = true
    · have listed : character = '\\' ∨ character = ',' := by simpa [controlEscapes] using escapes
      rcases listed with rfl | rfl <;> simp [escapedToken, controlEscapes, knownControls]
    · exfalso
      simp only [escapedToken, if_neg escapes] at isControl
      repeat' split at isControl
      all_goals cases isControl

/-- A control token of a source is one that the grammar has a rule for. -/
theorem mem_knownControls_firstToken {character : Char} {rest tail : List Char}
    (found : firstToken character rest = (token, tail)) (isControl : token.kind = .control) :
    token.value ∈ knownControls := by
  unfold firstToken at found
  split at found
  · cases found
    cases isControl
  split at found
  · rename_i listed
    cases found
    simp only [controlCharacters, List.contains_cons, List.contains_nil, Bool.or_false,
      Bool.or_eq_true, beq_iff_eq] at listed
    rcases listed with rfl | rfl | rfl | rfl | rfl <;> decide
  split at found
  · cases found
    cases isControl
  split at found
  · split at found <;> (cases found; cases isControl)
  split at found
  · cases found
    cases isControl
  split at found
  · cases found
    exact mem_knownControls_escapedToken isControl
  split at found
  · cases found
    cases isControl
  split at found <;> (cases found; cases isControl)

/-- The tokens of one unit stand before those of the others. -/
theorem Lexical.unit {character : Char} {rest after : List Char} {unit : List Token}
    (read : step character rest = .ok (unit, after)) (lexical : Lexical tokens) :
    Lexical (unit ++ tokens) := by
  cases takes : takesText (firstToken character rest).1 with
  | false =>
    simp only [step, takes, Bool.false_eq_true, if_false, Except.ok.injEq, Prod.mk.injEq] at read
    obtain ⟨rfl, -⟩ := read
    exact lexical_cons_iff.mpr ⟨by simp [takes], mem_knownControls_firstToken rfl, lexical⟩
  | true =>
    rcases step_cases read with ⟨token, found, rfl⟩ | ⟨command, content, isCommand, rfl⟩
    · simp only [step, takes, if_true] at read
      unfold Lexer.textArgument at read
      repeat' split at read
      all_goals cases read
    · exact lexical.text isCommand content

theorem lexical_tokens {text : List Char} (lexed : Lexer.tokens text = .ok tokens) :
    Lexical tokens := by
  induction text, tokens, lexed using Lexer.tokens_induction with
  | nil => exact .nil
  | unit read following _ inductionHypothesis => exact inductionHypothesis.unit read

/-- Space is no part of a braced text, so that taking it out leaves the text. -/
theorem StartsWithText.dropScriptSpacingAfter (starts : StartsWithText tokens)
    (previous : Option Token) : StartsWithText (dropScriptSpacingAfter previous tokens) := by
  obtain ⟨content, rest, rfl⟩ := starts
  rw [dropScriptSpacingAfter_of_solid _ (by decide), dropScriptSpacingAfter_of_solid _ (by simp),
    dropScriptSpacingAfter_of_solid _ (by decide)]
  exact ⟨content, _, rfl⟩

theorem Lexical.dropScriptSpacingAfter (lexical : Lexical tokens) (previous : Option Token) :
    Lexical (dropScriptSpacingAfter previous tokens) := by
  induction tokens generalizing previous with
  | nil => exact .nil
  | cons token rest inductionHypothesis =>
    obtain ⟨here, known, later⟩ := lexical_cons_iff.mp lexical
    have kept := inductionHypothesis later (some token)
    rw [Tex.dropScriptSpacingAfter]
    split
    · exact kept
    · exact lexical_cons_iff.mpr
        ⟨fun takes => (here takes).dropScriptSpacingAfter _, known, kept⟩

/-- A token stands for itself, or for the tokens of its replacement. -/
theorem expandToken_cases {macros : MacroTable} {expansion : List Token}
    (replaced : macros.expandToken token = .ok expansion) :
    expansion = [token] ∨ ∃ body, tokenize body = .ok expansion := by
  unfold MacroTable.expandToken at replaced
  split at replaced
  · split at replaced
    · exact .inr ⟨_, replaced⟩
    · cases replaced
      exact .inl rfl
  · cases replaced
    exact .inl rfl

/-- No token of a braced text is a macro. -/
theorem StartsWithText.expand {macros : MacroTable} {expanded : List Token}
    (starts : StartsWithText tokens) (replaced : macros.expand tokens = .ok expanded) :
    StartsWithText expanded := by
  obtain ⟨content, rest, rfl⟩ := starts
  have apart (token : Token) (noCommand : token.kind ≠ .command) :
      macros.expandToken token = .ok [token] :=
    MacroTable.expandToken_of_not_replaces (by simp [MacroTable.replaces, noCommand])
  simp only [MacroTable.expand_cons_eq_ok_iff, apart .openBrace (by decide),
    apart ⟨.text, content⟩ (by simp), apart .closeBrace (by decide), Except.ok.injEq] at replaced
  obtain ⟨_, _, rfl, ⟨_, _, rfl, ⟨_, others, rfl, -, rfl⟩, rfl⟩, rfl⟩ := replaced
  exact ⟨content, others, rfl⟩

theorem Lexical.expand {macros : MacroTable} {expanded : List Token} (lexical : Lexical tokens)
    (replaced : macros.expand tokens = .ok expanded) : Lexical expanded := by
  induction tokens generalizing expanded with
  | nil =>
    cases replaced
    exact .nil
  | cons token rest inductionHypothesis =>
    obtain ⟨here, known, later⟩ := lexical_cons_iff.mp lexical
    obtain ⟨expansion, others, first, following, rfl⟩ :=
      MacroTable.expand_cons_eq_ok_iff.mp replaced
    have othersLexical := inductionHypothesis later following
    -- A command that takes text may be a macro itself; its text is then left to stand alone.
    rcases expandToken_cases first with rfl | ⟨body, lexed⟩
    · exact lexical_cons_iff.mpr
        ⟨fun takes => (here takes).expand following, known, othersLexical⟩
    · exact (lexical_tokens lexed).append othersLexical

/-- The tokens of a source keep the texts with their commands. -/
theorem lexical_sourceTokens {macros : MacroTable} {source : String}
    (lexed : sourceTokens macros source = .ok tokens) : Lexical tokens := by
  unfold sourceTokens at lexed
  cases read : tokenize source with
  | error cause => simp [read, bind, Except.bind] at lexed
  | ok plain =>
    simp only [read, bind, Except.bind] at lexed
    exact ((lexical_tokens read).dropScriptSpacingAfter none).expand lexed

end Source

section Readers

open MathMarkup.Tex.Parser

/-- The error is one that only tokens of another origin can give. -/
def IsForeign : ParseError → Prop
  | .endOfInput | .unknownControl _ | .missingContent _ _ => True
  | _ => False

/-- The terms of a reader by itself: the tokens are as in a source, and no error is foreign. -/
def lexicalTerms : Terms where
  holds := Lexical
  stops cause := ¬ IsForeign cause

/-- A balanced list in front of its closer cuts no text from its command. -/
theorem TextsFollow.body {opener closer : Token} (encloses : (opener, closer) ∈ enclosures)
    {inside rest : List Token} (balanced : Balanced opener closer inside)
    (follow : TextsFollow (inside ++ closer :: rest)) : TextsFollow inside := by
  refine follow.left ?_
  rintro token ⟨⟩
  simp only [enclosures, List.mem_cons, Prod.mk.injEq, List.not_mem_nil, or_false] at encloses
  rcases encloses with ⟨rfl, rfl⟩ | ⟨rfl, rfl⟩ | ⟨rfl, rfl⟩ | ⟨rfl, rfl⟩
  · refine ⟨by decide, by decide, fun _ before content same => ?_⟩
    exact not_balanced_before_text before content (same ▸ balanced)
  all_goals exact ⟨by decide, by decide, fun same => absurd same (by decide)⟩

theorem TextsFollow.trailing {tokens layout : List Token}
    (passed : ∀ blank ∈ layout, blank.isLayout = true) (follow : TextsFollow (tokens ++ layout)) :
    TextsFollow tokens := by
  refine follow.left fun token first => ?_
  have blank := passed token (List.mem_of_mem_head? first)
  refine ⟨?_, ?_, ?_⟩
  · rintro rfl
    cases blank
  · rcases kind_of_isLayout blank with isSpace | isNewline
    · simp [isSpace]
    · simp [isNewline]
  · rintro rfl
    cases blank

theorem lawful_lexicalTerms : lexicalTerms.Lawful where
  drop {tokens} holds count := by
    have whole : Lexical (tokens.take count ++ tokens.drop count) := by
      rw [List.take_append_drop]
      exact holds
    exact whole.right
  body {_ _} encloses {_ _} balanced holds :=
    ⟨holds.texts.body encloses balanced,
      fun token member => holds.controls token (List.mem_append_left _ member)⟩
  trailing passed holds :=
    ⟨holds.texts.trailing passed,
      fun token member => holds.controls token (List.mem_append_left _ member)⟩
  remainder split holds := by
    obtain ⟨_, _, _, -, -, -, rfl⟩ := splitNumber?_eq_some split
    exact (lexical_cons_iff.mp holds).2.2.cons (by simp) (by simp)
  common {cause} common := by
    cases cause with
    | endOfInput | unknownControl | missingContent => cases common
    | _ => exact id
  content takes bare holds := by
    obtain ⟨content, starts⟩ := (lexical_cons_iff.mp holds).1 takes
    rw [bracedText?_eq_some_iff.mpr starts] at bare
    cases bare
  control isControl unknown holds :=
    absurd ((lexical_cons_iff.mp holds).2.1 isControl) unknown

theorem nested_lexicalTerms : lexicalTerms.Nested lexicalTerms where
  inside := lawful_lexicalTerms
  outside := lawful_lexicalTerms
  enters holds := (lexical_cons_iff.mp holds).2.2
  leaves holds := holds
  stops := .rfl

/-- Tokens of a source give no foreign error. -/
theorem not_isForeign_of_parseTokens {options : ParseOptions} {tokens : List Token}
    {cause : ParseError} (lexical : Lexical tokens)
    (failed : parseTokens options tokens = .error cause) : ¬ IsForeign cause := by
  have inner := (inStep lexicalTerms fun _ => False).inner_operandAt nested_lexicalTerms options
    (fun _ => id) options.maxDepth.toNat
  rcases parseTokens_inStep lawful_lexicalTerms lexical inner with
    ⟨tree, read, -⟩ | ⟨other, read, ⟨common, -⟩ | never⟩
  · rw [failed] at read
    cases read
  · rw [failed] at read
    cases read
    exact common
  · exact False.elim never

end Readers

section Messages

/-- How the messages of the foreign errors start. -/
def foreignPhrases : List String :=
  ["Expecting content for", "Unknown control sequence", "Unexpected end of input"]

/-- A text starts in another way than the messages of the foreign errors. -/
def StartsOtherwise (text : String) : Prop :=
  ∀ phrase ∈ foreignPhrases, ¬ phrase.toList <+: text.toList ∧ ¬ text.toList <+: phrase.toList

instance (text : String) : Decidable (StartsOtherwise text) :=
  inferInstanceAs (Decidable (∀ phrase ∈ foreignPhrases, _))

theorem StartsOtherwise.append {start : String} (otherwise : StartsOtherwise start)
    (rest : String) : StartsOtherwise (start ++ rest) := by
  intro phrase foreign
  obtain ⟨apart, apartBack⟩ := otherwise phrase foreign
  have starts : start.toList <+: (start ++ rest).toList := by
    rw [String.toList_append]
    exact List.prefix_append ..
  refine ⟨fun same => ?_, fun same => apartBack (starts.trans same)⟩
  rcases List.prefix_or_prefix_of_prefix same starts with within | beyond
  · exact apart within
  · exact apartBack beyond

theorem startsOtherwise_message {cause : ParseError} (common : ¬ IsForeign cause) :
    StartsOtherwise cause.message := by
  cases cause with
  | endOfInput | unknownControl | missingContent => exact absurd trivial common
  | noContent =>
    have start : StartsOtherwise "No content for " := by decide
    exact (start.append _).append _
  | tooDeep =>
    have start : StartsOtherwise "Nesting deeper than " := by decide
    exact (start.append _).append _
  | missingScript =>
    have start : StartsOtherwise "Expecting script after '" := by decide
    exact (start.append _).append _
  | missingArgument =>
    have start : StartsOtherwise "Expecting argument for " := by decide
    exact start.append _
  | unexpectedCommand =>
    have start : StartsOtherwise "Unexpected command: " := by decide
    exact start.append _
  | missingDelimiter =>
    have start : StartsOtherwise "Expecting delimiter after " := by decide
    exact start.append _
  | invalidDelimiter =>
    have start : StartsOtherwise "Invalid delimiter after " := by decide
    exact start.append _
  | unmatchedBraces => exact show StartsOtherwise "Unmatched curly brackets" by decide
  | unmatchedBrackets => exact show StartsOtherwise "Unmatched square brackets" by decide
  | strayCellMark => exact show StartsOtherwise "Unexpected & outside of an alignment" by decide
  | doubleSubscript => exact show StartsOtherwise "Double subscript" by decide
  | doubleSuperscript => exact show StartsOtherwise "Double superscript" by decide
  | strayBrace => exact show StartsOtherwise "Unmatched '\x7d'" by decide
  | unclosedDelimiters => exact show StartsOtherwise "No matching \\right" by decide
  | unclosedEnvironment => exact show StartsOtherwise "No matching \\end" by decide
  | mismatchedEnvironment =>
    exact show StartsOtherwise "Mismatched \\begin and \\end environments" by decide

end Messages

/-- In the tokens of a source each command that takes text has it, and reading them never
fails for a text that is missing, a control token that is not known or an operand after the
last token. -/
theorem source_texts_whole (macros : MacroTable) (source : String) (tokens : List Token)
    (lexed : sourceTokens macros source = .ok tokens) :
    TextsFollow tokens ∧
      ∀ options cause, parseTokens options tokens = .error cause →
        ∀ phrase ∈ foreignPhrases, ¬ phrase.toList <+: cause.message.toList := by
  have lexical := lexical_sourceTokens lexed
  refine ⟨lexical.texts, fun options cause failed phrase foreign => ?_⟩
  have common := not_isForeign_of_parseTokens lexical failed
  exact (startsOtherwise_message common phrase foreign).1

/-- One macro stands for a command that takes text, another one for a whole environment. -/
def textMacros : MacroTable :=
  [("\\text", "\\bar"), ("\\m", "\\begin\x7ba\x7d\\end \x7ba\x7d")]

/-- A text without its command, an operator and, below it, the environment, with a second
subscript after it. -/
def orphanedText : List Token :=
  [⟨.command, "\\bar"⟩, .openBrace, ⟨.text, "b"⟩, .closeBrace,
    ⟨.command, "\\operatorname"⟩, .openBrace, ⟨.text, "f"⟩, .closeBrace, ⟨.control, "_"⟩,
    .beginEnvironment, .openBrace, ⟨.text, "a"⟩, .closeBrace,
    .endEnvironment, .openBrace, ⟨.text, "a"⟩, .closeBrace, ⟨.control, "_"⟩, ⟨.element, "2"⟩]

open Lexer (tokens_of_step tokens_nil) in
theorem sourceTokens_orphanedText :
    sourceTokens textMacros "\\text \x7bb\x7d\\operatorname\x7bf\x7d _\\m_2" =
      .ok orphanedText := by
  have lexed : tokenize "\\text \x7bb\x7d\\operatorname\x7bf\x7d _\\m_2" =
      .ok [⟨.command, "\\text"⟩, .openBrace, ⟨.text, "b"⟩, .closeBrace,
        ⟨.command, "\\operatorname"⟩, .openBrace, ⟨.text, "f"⟩, .closeBrace, ⟨.whitespace, " "⟩,
        ⟨.control, "_"⟩, ⟨.command, "\\m"⟩, ⟨.control, "_"⟩, ⟨.element, "2"⟩] :=
    tokens_of_step [⟨.command, "\\text"⟩, .openBrace, ⟨.text, "b"⟩, .closeBrace]
      "\\operatorname\x7bf\x7d _\\m_2" rfl <|
    tokens_of_step [⟨.command, "\\operatorname"⟩, .openBrace, ⟨.text, "f"⟩, .closeBrace]
      " _\\m_2" rfl <|
    tokens_of_step [⟨.whitespace, " "⟩] "_\\m_2" rfl <|
    tokens_of_step [⟨.control, "_"⟩] "\\m_2" rfl <|
    tokens_of_step [⟨.command, "\\m"⟩] "_2" rfl <|
    tokens_of_step [⟨.control, "_"⟩] "2" rfl <|
    tokens_of_step [⟨.element, "2"⟩] "" rfl tokens_nil
  have overline : tokenize "\\bar" = .ok [⟨.command, "\\bar"⟩] :=
    tokens_of_step [⟨.command, "\\bar"⟩] "" rfl tokens_nil
  have environment : tokenize "\\begin\x7ba\x7d\\end \x7ba\x7d" =
      .ok [.beginEnvironment, .openBrace, ⟨.text, "a"⟩, .closeBrace,
        .endEnvironment, .openBrace, ⟨.text, "a"⟩, .closeBrace] :=
    tokens_of_step [.beginEnvironment, .openBrace, ⟨.text, "a"⟩, .closeBrace]
      "\\end \x7ba\x7d" rfl <|
    tokens_of_step [.endEnvironment, .openBrace, ⟨.text, "a"⟩, .closeBrace] "" rfl tokens_nil
  unfold sourceTokens
  rw [lexed]
  change textMacros.expand [⟨.command, "\\text"⟩, .openBrace, ⟨.text, "b"⟩, .closeBrace,
    ⟨.command, "\\operatorname"⟩, .openBrace, ⟨.text, "f"⟩, .closeBrace, ⟨.control, "_"⟩,
    ⟨.command, "\\m"⟩, ⟨.control, "_"⟩, ⟨.element, "2"⟩] = _
  simp [MacroTable.expand, MacroTable.expandToken, MacroTable.find?, textMacros, List.lookup,
    overline, environment, orphanedText, bind, Except.bind, pure, Except.pure, Token.openBrace,
    Token.closeBrace]

theorem source_texts_whole_macros :
    sourceTokens textMacros "\\text \x7bb\x7d\\operatorname\x7bf\x7d _\\m_2" =
      .ok orphanedText ∧
    TextsFollow orphanedText ∧
    parseTokens { symbols := [] } orphanedText = .error (.doubleSubscript ⟨.control, "_"⟩) ∧
    ¬ "Expecting content for".toList <+: "Double subscript".toList := by
  have failed : parseTokens { symbols := [] } orphanedText =
      .error (.doubleSubscript ⟨.control, "_"⟩) := by
    cbv
  obtain ⟨follow, common⟩ := source_texts_whole _ _ _ sourceTokens_orphanedText
  exact ⟨sourceTokens_orphanedText, follow, failed, common _ _ failed _ List.mem_cons_self⟩

end MathMarkup.Tex.Grammar
