import MathMarkup.Proofs.BlanksAroundMarks
import MathMarkup.Proofs.Printing
import MathMarkup.Proofs.TextEscapes

/-!
# The text of an environment

What stands before the end of an environment is read on its own, whatever the environment is
called. There is one exception: a backslash directly before the end makes a line break with the
backslash of the end, and the environment has no end then. The commands that open and close
environments are tokens only where the text has them.
-/

namespace MathMarkup.Tex

namespace Lexer

section Cutting

variable {goesOn : Char → Bool} {span rest more text : List Char} {token : Token} {unit : List Token}

theorem Stops.of_append (ends : Stops goesOn (rest ++ more)) : Stops goesOn rest := by
  intro character isFirst
  exact ends character (by rw [List.head?_append, isFirst]; rfl)

/-- A token is read in the same way with less text after it. -/
theorem Lexeme.of_append (lexeme : Lexeme span token (rest ++ more)) : Lexeme span token rest := by
  generalize same : rest ++ more = after at lexeme
  cases lexeme with
  | comment inLine ends => exact .comment inLine (same ▸ ends).of_append
  | control listed => exact .control listed _
  | lineFeed => exact .lineFeed _
  | carriageReturn alone => exact .carriageReturn (same ▸ alone).of_append
  | returnAndFeed => exact .returnAndFeed _
  | space starts spaces ends => exact .space starts spaces (same ▸ ends).of_append
  | loneBackslash =>
    rw [(List.append_eq_nil_iff.mp same).1]
    exact .loneBackslash
  | controlEscape listed => exact .controlEscape listed _
  | elementEscape listed => exact .elementEscape listed _
  | commandSign noLetter noControl noElement => exact .commandSign noLetter noControl noElement _
  | command starts letters ends => exact .command starts letters (same ▸ ends).of_append
  | whole starts digits ends noFraction =>
    refine .whole starts digits (same ▸ ends).of_append ?_
    rintro fraction rfl
    exact (noFraction (fraction ++ more) same.symm).of_append
  | decimal starts digits fraction moreDigits ends =>
    exact .decimal starts digits fraction moreDigits (same ▸ ends).of_append
  | letter isLetter => exact .letter isLetter _
  | sign listed => exact .sign listed _
  | foreign foreign => exact .foreign foreign _

theorem Segment.of_append (segment : Segment span unit (rest ++ more)) : Segment span unit rest := by
  generalize same : rest ++ more = after at segment
  cases segment with
  | single lexeme plain => exact .single (same ▸ lexeme).of_append plain
  | @text name blanks body _ command lexeme takes spaces enclosed =>
    have longer : Lexeme name command ((blanks ++ '{' :: (body ++ '}' :: rest)) ++ more) := by
      simpa [← same] using lexeme
    exact .text longer.of_append takes spaces enclosed

theorem kind_of_mem_bracedText (content : String) :
    ∀ token ∈ bracedText content, token.kind ≠ .command ∧ token.kind ≠ .comment := by
  simp [bracedText, braced, Token.openBrace, Token.closeBrace]

/-- Where no comment starts there is none. -/
theorem Segment.kind_ne_comment (segment : Segment span unit rest) (noComment : '%' ∉ span) :
    ∀ token ∈ unit, token.kind ≠ .comment := by
  cases segment with
  | single lexeme plain =>
    rw [List.forall_mem_singleton]
    cases lexeme with
    | comment => simp at noComment
    | space | control | lineFeed | carriageReturn | returnAndFeed | loneBackslash | controlEscape
    | elementEscape | commandSign | command | whole | decimal | letter | sign | foreign => simp
  | @text _ _ body _ _ lexeme takes spaces enclosed =>
    rw [List.forall_mem_cons]
    exact ⟨by simp [kind_of_takesText takes],
      fun token member => (kind_of_mem_bracedText (String.ofList (unescape body)) token member).2⟩

theorem Lexes.kind_ne_comment {tokens : List Token} (lexes : Lexes text tokens)
    (noComment : '%' ∉ text) : ∀ token ∈ tokens, token.kind ≠ .comment := by
  induction lexes with
  | nil => simp
  | cons first following inductionHypothesis =>
    rw [List.mem_append, not_or] at noComment
    exact List.forall_mem_append.mpr
      ⟨first.kind_ne_comment noComment.1, inductionHypothesis noComment.2⟩

/-- A backslash that stands alone is at the end of the text. -/
theorem Segment.ne_loneBackslash (segment : Segment span unit rest) (nonempty : rest ≠ []) :
    ∀ token ∈ unit, token ≠ ⟨.unknown, "\\"⟩ := by
  cases segment with
  | single lexeme plain =>
    rw [List.forall_mem_singleton]
    cases lexeme with
    | loneBackslash => exact absurd rfl nonempty
    | comment | space | control | lineFeed | carriageReturn | returnAndFeed | controlEscape
    | elementEscape | commandSign | command | whole | decimal | letter | sign => simp
    | @foreign character foreign rest =>
      intro same
      obtain rfl : character = '\\' := by
        have sameValue : String.ofList [character] = String.ofList ['\\'] := congrArg Token.value same
        simpa using String.ofList_injective sameValue
      cases foreign
  | text lexeme takes spaces enclosed =>
    rintro token member rfl
    rcases List.mem_cons.mp member with rfl | inArgument
    · cases kind_of_takesText takes
    · simp [Token.openBrace, Token.closeBrace] at inArgument

/-- Where nothing closes a brace that is open, the brace that closes a text stands before. -/
theorem lt_of_closingBraceFrom?_append {depth offset : Nat} (noBrace : ¬ StartsWithBrace more)
    (unclosed : ∀ depth, closingBraceFrom? depth more = none)
    (found : closingBraceFrom? depth (text ++ more) = some offset) : offset < text.length := by
  fun_induction closingBraceFrom? depth text generalizing offset with
  | case1 depth =>
    rw [List.nil_append, unclosed] at found
    cases found
  | case2 depth tail inductionHypothesis =>
    rw [List.cons_append, List.cons_append, closingBraceFrom?] at found
    obtain ⟨inner, innerFound, rfl⟩ := Option.map_eq_some_iff.mp found
    have shorter := inductionHypothesis innerFound
    simp only [List.length_cons]
    omega
  | case3 depth tail inductionHypothesis =>
    rw [List.cons_append, List.cons_append, closingBraceFrom?] at found
    obtain ⟨inner, innerFound, rfl⟩ := Option.map_eq_some_iff.mp found
    have shorter := inductionHypothesis innerFound
    simp only [List.length_cons]
    omega
  | case4 depth tail inductionHypothesis =>
    rw [List.cons_append, closingBraceFrom?] at found
    obtain ⟨inner, innerFound, rfl⟩ := Option.map_eq_some_iff.mp found
    exact Nat.succ_lt_succ (inductionHypothesis innerFound)
  | case5 tail =>
    rw [List.cons_append, closingBraceFrom?] at found
    cases found
    exact Nat.zero_lt_succ _
  | case6 outer tail inductionHypothesis =>
    rw [List.cons_append, closingBraceFrom?] at found
    obtain ⟨inner, innerFound, rfl⟩ := Option.map_eq_some_iff.mp found
    exact Nat.succ_lt_succ (inductionHypothesis innerFound)
  | case7 depth character tail noOpening noClosing noOpener noEnd noCloser inductionHypothesis =>
    have isPlain : character ≠ '{' ∧ character ≠ '}' := by
      refine ⟨noOpener, fun isCloser => ?_⟩
      cases depth with
      | zero => exact noEnd rfl isCloser
      | succ outer => exact noCloser outer rfl isCloser
    have noEscape : character = '\\' → ¬ StartsWithBrace (tail ++ more) := by
      intro isBackslash starts
      cases tail with
      | nil => exact noBrace starts
      | cons next others =>
        rcases starts with ⟨⟨⟩⟩ | ⟨⟨⟩⟩
        · exact noOpening others isBackslash rfl
        · exact noClosing others isBackslash rfl
    rw [List.cons_append, closingBraceFrom?_cons isPlain noEscape] at found
    obtain ⟨inner, innerFound, rfl⟩ := Option.map_eq_some_iff.mp found
    exact Nat.succ_lt_succ (inductionHypothesis innerFound)

theorem exists_of_backslash_notMem {run : List Char} (free : '\\' ∉ run)
    (same : run ++ rest = text ++ '\\' :: more) :
    ∃ left, text = run ++ left ∧ rest = left ++ '\\' :: more := by
  rcases List.append_eq_append_iff.mp same with within | ⟨beyond, rfl, follows⟩
  · exact within
  · cases beyond with
    | nil => exact ⟨[], by simp, follows.symm⟩
    | cons first others =>
      obtain ⟨rfl, -⟩ := List.cons.inj follows
      simp at free

theorem backslash_notMem_run {run : List Char} (noBackslash : goesOn '\\' = false)
    (inRun : ∀ character ∈ run, goesOn character = true) : '\\' ∉ run := by
  intro member
  rw [inRun _ member] at noBackslash
  cases noBackslash

/-- A token other than a comment goes over no backslash but the one it starts with. -/
theorem Lexeme.backslash_notMem_tail (lexeme : Lexeme span token rest)
    (noComment : span.head? ≠ some '%') :
    '\\' ∉ span.tail ∨ span = ['\\', '\\'] ∧ token = ⟨.control, "\\\\"⟩ := by
  cases lexeme with
  | comment => exact absurd rfl noComment
  | control | lineFeed | carriageReturn | loneBackslash | letter | sign | foreign => simp
  | returnAndFeed => exact .inl (by decide)
  | space starts spaces ends => exact .inl (backslash_notMem_run rfl spaces)
  | @controlEscape character listed rest =>
    by_cases isBackslash : character = '\\'
    · rw [isBackslash]
      exact .inr ⟨rfl, rfl⟩
    · exact .inl (by simpa [eq_comm] using isBackslash)
  | elementEscape listed =>
    refine .inl ?_
    rintro (_ | ⟨_, ⟨⟩⟩)
    revert listed
    decide
  | commandSign noLetter noControl noElement =>
    refine .inl ?_
    rintro (_ | ⟨_, ⟨⟩⟩)
    exact noControl (by decide)
  | command starts letters ends =>
    exact .inl (backslash_notMem_run rfl (List.forall_mem_cons.mpr ⟨starts, letters⟩))
  | whole starts digits ends noFraction => exact .inl (backslash_notMem_run rfl digits)
  | decimal starts digits fraction moreDigits ends =>
    have noBackslash := backslash_notMem_run rfl digits
    have noneAfter := backslash_notMem_run rfl (List.forall_mem_cons.mpr ⟨fraction, moreDigits⟩)
    refine .inl ?_
    rw [List.cons_append, List.tail_cons, List.mem_append, List.mem_cons, not_or, not_or]
    exact ⟨noBackslash, by decide, noneAfter⟩

/-- What is read before a backslash ends there, unless it is a backslash that makes a line break
with it. -/
theorem Segment.ends_or_breaks (segment : Segment span unit rest) (nonempty : text ≠ [])
    (same : span ++ rest = text ++ '\\' :: more) (noComment : '%' ∉ text)
    (unclosed : ∀ depth, closingBraceFrom? depth ('\\' :: more) = none) :
    (∃ left, text = span ++ left ∧ rest = left ++ '\\' :: more) ∨
      text = ['\\'] ∧ unit = [⟨.control, "\\\\"⟩] ∧ rest = more := by
  obtain ⟨first, others, rfl⟩ := List.exists_cons_of_ne_nil nonempty
  have noSign : first ≠ '%' := fun isSign => noComment (by simp [isSign])
  cases segment with
  | single lexeme plain =>
    obtain ⟨_, tail, rfl, -⟩ := lexeme.firstToken_eq
    obtain ⟨rfl, sameTail⟩ := List.cons.inj same
    rcases lexeme.backslash_notMem_tail (by simpa using noSign) with free | ⟨isBreak, rfl⟩
    · obtain ⟨left, rfl, rfl⟩ := exists_of_backslash_notMem free sameTail
      exact .inl ⟨left, rfl, rfl⟩
    · obtain ⟨rfl, rfl⟩ := List.cons.inj isBreak
      cases others with
      | nil => exact .inr ⟨rfl, rfl, (List.cons.inj sameTail).2⟩
      | cons next others =>
        obtain ⟨rfl, sameRest⟩ := List.cons.inj sameTail
        exact .inl ⟨others, rfl, sameRest⟩
  | @text name blanks body rest command lexeme takes spaces enclosed =>
    obtain ⟨_, letters, rfl, -⟩ := lexeme.firstToken_eq
    obtain ⟨rfl, sameTail⟩ := List.cons.inj same
    -- the command, the space after it and the brace stand in the text
    have freeName : '\\' ∉ letters := by
      rcases lexeme.backslash_notMem_tail (by simpa using noSign) with free | ⟨-, rfl⟩
      · exact free
      · cases takes
    have free : '\\' ∉ letters ++ (blanks ++ ['{']) := by
      have freeBlanks : '\\' ∉ blanks := backslash_notMem_run rfl spaces
      simp [freeName, freeBlanks]
    obtain ⟨left, rfl, inside⟩ := exists_of_backslash_notMem free
      (show letters ++ (blanks ++ ['{']) ++ (body ++ '}' :: rest) = _ by simpa using sameTail)
    -- and so does the brace at the end, since what follows closes no brace that is open before it
    have found := enclosed rest
    rw [inside] at found
    have shorter := lt_of_closingBraceFrom?_append (by simp [StartsWithBrace]) unclosed found
    have regrouped : left ++ '\\' :: more = (body ++ ['}']) ++ rest := by simpa using inside.symm
    have starts : body ++ ['}'] <+: left ++ '\\' :: more := ⟨rest, regrouped.symm⟩
    obtain ⟨after, rfl⟩ : body ++ ['}'] <+: left :=
      List.prefix_of_prefix_length_le starts (List.prefix_append ..) (by simpa using shorter)
    rw [List.append_assoc] at regrouped
    exact .inl ⟨after, by simp, (List.append_cancel_left regrouped).symm⟩

/-- Before the end of an environment a text is read on its own, unless it ends with a backslash
that makes a line break with the backslash of the end. -/
theorem Lexes.ends_or_breaks {tokens : List Token} (lexes : Lexes (text ++ '\\' :: more) tokens)
    (noComment : '%' ∉ text)
    (unclosed : ∀ depth, closingBraceFrom? depth ('\\' :: more) = none) :
    (∃ before, Lexes text before ∧ ∀ last ∈ before.getLast?, IsClosed last) ∨
      ∃ stem before after, text = stem ++ ['\\'] ∧ Lexes stem before ∧ Lexes more after ∧
        tokens = before ++ ⟨.control, "\\\\"⟩ :: after := by
  generalize same : text ++ '\\' :: more = source at lexes
  induction lexes generalizing text with
  | nil => simp at same
  | @cons span rest unit others first following inductionHypothesis =>
    by_cases isEmpty : text = []
    · exact .inl ⟨[], isEmpty ▸ .nil, by simp⟩
    rcases first.ends_or_breaks isEmpty same.symm noComment unclosed with
      ⟨left, rfl, rfl⟩ | ⟨rfl, rfl, rfl⟩
    · rw [List.mem_append, not_or] at noComment
      have closedFirst : ∀ last ∈ unit.getLast?, IsClosed last := fun last isLast =>
        ⟨first.kind_ne_comment noComment.1 last (List.mem_of_getLast? isLast),
          first.ne_loneBackslash (by simp) last (List.mem_of_getLast? isLast)⟩
      rcases inductionHypothesis noComment.2 rfl with
        ⟨before, read, closed⟩ | ⟨stem, before, after, rfl, read, readAfter, rfl⟩
      · refine .inl ⟨unit ++ before, .cons first.of_append read, fun last isLast => ?_⟩
        rw [List.getLast?_append, Option.mem_def, Option.or_eq_some_iff] at isLast
        rcases isLast with isLast | ⟨-, isLast⟩
        · exact closed last isLast
        · exact closedFirst last isLast
      · refine .inr ⟨span ++ stem, unit ++ before, after, by simp, ?_, readAfter, by simp⟩
        rw [List.append_assoc] at first
        exact .cons first.of_append read
    · exact .inr ⟨[], [], others, rfl, .nil, following, rfl⟩

/-- A command among the tokens of a text stands in the text. -/
theorem Lexes.infix_of_mem {tokens : List Token} {name : String} (lexes : Lexes text tokens)
    (member : ⟨.command, name⟩ ∈ tokens) : name.toList <:+: text := by
  induction lexes with
  | nil => cases member
  | @cons span rest unit others first following inductionHypothesis =>
    rcases List.mem_append.mp member with inFirst | inOthers
    · refine List.IsInfix.trans ?_ (List.prefix_append span rest).isInfix
      cases first with
      | single lexeme plain =>
        obtain rfl := List.mem_singleton.mp inFirst
        rw [lexeme.span_eq (by simp)]
      | @text _ _ body _ _ lexeme takes spaces enclosed =>
        rcases List.mem_cons.mp inFirst with rfl | inArgument
        · rw [lexeme.span_eq (by simp)]
          exact (List.prefix_append ..).isInfix
        · have noCommand := kind_of_mem_bracedText (String.ofList (unescape body)) _ inArgument
          exact absurd rfl noCommand.1
    · exact (inductionHypothesis inOthers).trans (List.suffix_append span rest).isInfix

end Cutting

section Markers

variable {name : String} {command : Token}

/-- The name has letters only. -/
def IsWord (name : String) : Prop :=
  ∀ character ∈ name.toList, character.isAlpha = true

/-- A command with a name in braces. -/
def named (command : Token) (name : String) : List Char :=
  command.value.toList ++ '{' :: (name.toList ++ ['}'])

theorem escape_of_isAlpha {text : List Char} (letters : ∀ character ∈ text, character.isAlpha = true) :
    escape text = text := by
  induction text with
  | nil => rfl
  | cons first others inductionHypothesis =>
    rw [List.forall_mem_cons] at letters
    have unlisted : first ∉ escapedCharacters := not_mem_of_class letters.1 rfl
    rw [escape, escapeEach_cons_of_notMem unlisted, ← escape, inductionHypothesis letters.2]

theorem IsWord.not_endsWithBackslash (word : IsWord name) : ¬ EndsWithBackslash name.toList := by
  intro ends
  cases word _ (List.mem_of_getLast? ends)

theorem IsWord.enclosed (word : IsWord name) : Enclosed name.toList := by
  rw [← escape_of_isAlpha word]
  exact enclosed_escape word.not_endsWithBackslash

theorem IsWord.unescape (word : IsWord name) : unescape name.toList = name.toList := by
  have resolved := unescape_escape name.toList
  rwa [escape_of_isAlpha word] at resolved

/-- The commands that open and close an environment are read together with its name. -/
theorem segment_named (marker : command = .beginEnvironment ∨ command = .endEnvironment)
    (word : IsWord name) (rest : List Char) :
    Segment (named command name) (command :: bracedText name) rest := by
  have stops : Stops Char.isAlpha ('{' :: (name.toList ++ '}' :: rest)) := by
    rintro character ⟨⟩
    rfl
  have lexeme : Lexeme command.value.toList command ([] ++ '{' :: (name.toList ++ '}' :: rest)) := by
    rcases marker with rfl | rfl
    · exact .command rfl (List.all_eq_true.mp rfl) stops
    · exact .command rfl (List.all_eq_true.mp rfl) stops
  have takes : takesText command = true := by rcases marker with rfl | rfl <;> decide
  have read := Segment.text lexeme takes (List.forall_mem_nil _) word.enclosed
  rw [word.unescape, String.ofList_toList] at read
  exact read

theorem named_end (name : String) :
    named .endEnvironment name = '\\' :: (['e', 'n', 'd', '{'] ++ (name.toList ++ ['}'])) := rfl

/-- The end of an environment closes no brace but its own. -/
theorem closingBraceFrom?_named_end (word : IsWord name) (depth : Nat) :
    closingBraceFrom? depth (named .endEnvironment name) = none := by
  have passed : closingBraceFrom? (depth + 1) (name.toList ++ ['}']) = none := by
    rw [← escape_of_isAlpha word,
      closingBraceFrom?_escape_append fun ends => absurd ends word.not_endsWithBackslash]
    simp [closingBraceFrom?]
  simp [named_end, closingBraceFrom?, passed]

end Markers

end Lexer

section Spacing

variable {token : Token}

/-- A token that is neither space nor a script mark parts the tokens. -/
theorem dropScriptSpacing_append (front : List Token) (solid : token.kind ≠ .whitespace)
    (unmarked : token.isScriptMark = false) (rest : List Token) :
    dropScriptSpacing (front ++ token :: rest) =
      dropScriptSpacing front ++ token :: dropScriptSpacing rest :=
  dropScriptSpacingAfter_append unmarked fun space => absurd space solid

/-- Space counts for no pair of brackets. -/
theorem depthAfter?_dropScriptSpacingAfter {opens closes : Token → Bool}
    (neutral : ∀ token, token.kind = .whitespace → opens token = false ∧ closes token = false)
    (depth : Nat) (previous : Option Token) (tokens : List Token) :
    Nesting.depthAfter? opens closes depth (dropScriptSpacingAfter previous tokens) =
      Nesting.depthAfter? opens closes depth tokens := by
  induction tokens generalizing depth previous with
  | nil => rfl
  | cons token rest inductionHypothesis =>
    rw [dropScriptSpacingAfter]
    split
    · rename_i dropped
      have passed := neutral token dropped.1
      simp [Nesting.depthAfter?, passed, inductionHypothesis]
    · simp only [Nesting.depthAfter?, inductionHypothesis]

end Spacing

open Lexer

section Parts

variable {text body : List Char} {tokens : List Token} {name : String}

/-- The tokens of a text without the space beside script marks. -/
def spacedTokens (text : List Char) : Except ParseError (List Token) :=
  (Lexer.tokens text).map dropScriptSpacing

/-- In front of any other text the text gives the tokens. -/
def ReadsAhead (text : List Char) (tokens : List Token) : Prop :=
  ∀ more, spacedTokens (text ++ more) = (spacedTokens more).map (tokens ++ ·)

theorem ReadsAhead.nil : ReadsAhead [] [] := by
  intro more
  rw [List.nil_append]
  exact map_nil_append _

theorem ReadsAhead.append {first second : List Char} {before after : List Token}
    (firstRead : ReadsAhead first before) (secondRead : ReadsAhead second after) :
    ReadsAhead (first ++ second) (before ++ after) := by
  intro more
  rw [List.append_assoc, firstRead, secondRead, map_append_map]

theorem readsAhead_begin (word : IsWord name) :
    ReadsAhead (named .beginEnvironment name) (.beginEnvironment :: bracedText name) := by
  intro more
  have spaced (rest : List Token) : dropScriptSpacing (.beginEnvironment :: bracedText name ++ rest) =
      .beginEnvironment :: bracedText name ++ dropScriptSpacing rest :=
    dropScriptSpacing_append [.beginEnvironment, .openBrace, ⟨.text, name⟩] (by decide) (by decide) rest
  unfold spacedTokens
  rw [(segment_named (.inl rfl) word more).tokens_append]
  cases Lexer.tokens more with
  | error cause => rfl
  | ok rest => exact congrArg Except.ok (spaced rest)

/-- A text in braces, with blanks before it. -/
theorem readsAhead_braced {blanks : List Char} (spaces : ∀ blank ∈ blanks, isSpace blank = true)
    (lexes : Lexes text tokens) (closed : ∀ last ∈ tokens.getLast?, IsClosed last) :
    ReadsAhead (blanks ++ '{' :: (text ++ ['}']))
      ((spaceOf blanks).toList ++ braced (dropScriptSpacing tokens)) := by
  intro more
  have opens : Lexer.tokens ('{' :: (text ++ '}' :: more)) =
      (Lexer.tokens (text ++ '}' :: more)).map (.openBrace :: ·) :=
    (Segment.single (.control (by decide) _) rfl).tokens_append
  have closes : Lexer.tokens ('}' :: more) = (Lexer.tokens more).map (.closeBrace :: ·) :=
    (Segment.single (.control (by decide) _) rfl).tokens_append
  have atBrace : StartsAtBoundary ('}' :: more) := by
    rintro character ⟨⟩
    decide
  have stops : Stops isSpace ('{' :: (text ++ '}' :: more)) := by
    rintro character ⟨⟩
    rfl
  have spaced (rest : List Token) :
      dropScriptSpacing ((spaceOf blanks).toList ++ .openBrace :: (tokens ++ .closeBrace :: rest)) =
        (spaceOf blanks).toList ++ braced (dropScriptSpacing tokens) ++ dropScriptSpacing rest := by
    have keptSpace : dropScriptSpacing (spaceOf blanks).toList = (spaceOf blanks).toList := by
      cases blanks <;> rfl
    rw [dropScriptSpacing_append _ (by decide) (by decide),
      dropScriptSpacing_append _ (by decide) (by decide), keptSpace]
    simp [braced]
  unfold spacedTokens
  rw [List.append_assoc, List.cons_append, List.append_assoc, List.singleton_append,
    tokens_blanks_append spaces stops, opens, lexes.tokens_append atBrace closed, closes]
  cases Lexer.tokens more with
  | error cause => rfl
  | ok rest => exact congrArg Except.ok (spaced rest)

/-- A body that is read on its own, before the end of any environment. -/
structure IsBody (body : List Char) (tokens : List Token) : Prop where
  noBegin : .beginEnvironment ∉ tokens
  noEnd : .endEnvironment ∉ tokens
  read : ∀ {name}, IsWord name →
    spacedTokens (body ++ named .endEnvironment name) = .ok (tokens ++ .endEnvironment :: bracedText name)

/-- The text has neither comments nor environments in it. -/
structure IsSimple (text : List Char) : Prop where
  noComment : '%' ∉ text
  noBegin : ¬ "\\begin".toList <:+: text
  noEnd : ¬ "\\end".toList <:+: text

/-- Either a text is read before the end of every environment as it is on its own, or no
environment ends with it. -/
theorem exists_isBody_or (simple : IsSimple body) :
    (∃ tokens, IsBody body tokens) ∨
      ∀ {name tokens}, IsWord name → spacedTokens (body ++ named .endEnvironment name) = .ok tokens →
        .endEnvironment ∉ tokens := by
  by_cases own : ∃ before, Lexes body before ∧ ∀ last ∈ before.getLast?, IsClosed last
  · obtain ⟨before, lexes, closed⟩ := own
    have kept := (dropScriptSpacingAfter_sublist none before).subset
    refine .inl ⟨dropScriptSpacing before, fun member => ?_, fun member => ?_, fun {name} word => ?_⟩
    · exact simple.noBegin (lexes.infix_of_mem (kept member))
    · exact simple.noEnd (lexes.infix_of_mem (kept member))
    · have atEnd : StartsAtBoundary (named .endEnvironment name) := by
        rintro character ⟨⟩
        decide
      have ends := (segment_named (.inr rfl) word []).tokens_append
      rw [List.append_nil, tokens_nil] at ends
      unfold spacedTokens
      rw [lexes.tokens_append atEnd closed, ends]
      exact congrArg Except.ok (dropScriptSpacing_append before (by decide) (by decide) _)
  · refine .inr fun {name tokens} word spaced member => ?_
    unfold spacedTokens at spaced
    cases lexed : Lexer.tokens (body ++ named .endEnvironment name) with
    | error cause => simp [lexed, Except.map] at spaced
    | ok found =>
      rw [lexed] at spaced
      obtain rfl := Except.ok.inj spaced
      have isFound := (dropScriptSpacingAfter_sublist none found).subset member
      have unclosed := closingBraceFrom?_named_end word
      rw [named_end] at lexed unclosed
      rcases (tokens_eq_ok_iff.mp lexed).ends_or_breaks simple.noComment unclosed with
        ends | ⟨stem, before, after, rfl, readBefore, readAfter, rfl⟩
      · exact own ends
      · rcases List.mem_append.mp isFound with inBefore | inAfter
        · exact simple.noEnd ((readBefore.infix_of_mem inBefore).trans
            (List.prefix_append stem _).isInfix)
        · rcases List.mem_cons.mp inAfter with isBreak | inAfter
          · cases isBreak
          · have inName : '\\' ∈ ['e', 'n', 'd', '{'] ++ (name.toList ++ ['}']) :=
              (readAfter.infix_of_mem inAfter).subset List.mem_cons_self
            have noBackslash : '\\' ∉ name.toList := backslash_notMem_run rfl word
            simp [noBackslash] at inName

end Parts

end MathMarkup.Tex
