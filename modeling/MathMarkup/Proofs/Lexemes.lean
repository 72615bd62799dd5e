import Mathlib
import MathMarkup.Tex.Lexer

/-!
# The lexical grammar of source texts

Which characters are which tokens, as relations between the characters that are taken, the
tokens they give and the text that follows. `Lexeme` has one rule for each kind of token,
with what has to follow it where a token takes as much as it can; `Segment` adds the text
arguments of commands and `Lexes` goes on to the end. The lexer realizes these relations.
-/

namespace MathMarkup.Tex.Lexer

/-- The text does not go on with a character of the given class. -/
def Stops (goesOn : Char → Bool) (rest : List Char) : Prop :=
  ∀ character ∈ rest.head?, goesOn character = false

/-- The character starts no token but one of its own, which has no meaning. -/
def isForeign (character : Char) : Bool :=
  !(controlCharacters.contains character || elementCharacters.contains character ||
    ['%', '\n', '\r', '\\'].contains character || isSpace character || character.isDigit ||
    character.isAlpha)

/-- The characters are read as the token if the rest follows them. -/
inductive Lexeme : List Char → Token → List Char → Prop where
  | comment {line rest : List Char} (inLine : ∀ character ∈ line, (character != '\n') = true)
      (ends : Stops (· != '\n') rest) :
      Lexeme ('%' :: line) ⟨.comment, String.ofList line⟩ rest
  | control {character : Char} (listed : character ∈ controlCharacters) (rest : List Char) :
      Lexeme [character] ⟨.control, String.ofList [character]⟩ rest
  | lineFeed (rest : List Char) : Lexeme ['\n'] ⟨.newline, "\n"⟩ rest
  | carriageReturn {rest : List Char} (alone : Stops (· == '\n') rest) :
      Lexeme ['\r'] ⟨.newline, "\n"⟩ rest
  | returnAndFeed (rest : List Char) : Lexeme ['\r', '\n'] ⟨.newline, "\n"⟩ rest
  | space {first : Char} {others rest : List Char} (starts : isSpace first = true)
      (spaces : ∀ character ∈ others, isSpace character = true) (ends : Stops isSpace rest) :
      Lexeme (first :: others) ⟨.whitespace, String.ofList (first :: others)⟩ rest
  | loneBackslash : Lexeme ['\\'] ⟨.unknown, "\\"⟩ []
  | controlEscape {character : Char} (listed : character ∈ controlEscapes) (rest : List Char) :
      Lexeme ['\\', character] ⟨.control, String.ofList ['\\', character]⟩ rest
  | elementEscape {character : Char} (listed : character ∈ elementEscapes) (rest : List Char) :
      Lexeme ['\\', character] ⟨.element, String.ofList ['\\', character]⟩ rest
  | commandSign {character : Char} (noLetter : character.isAlpha = false)
      (noControl : character ∉ controlEscapes) (noElement : character ∉ elementEscapes)
      (rest : List Char) :
      Lexeme ['\\', character] ⟨.command, String.ofList ['\\', character]⟩ rest
  | command {first : Char} {others rest : List Char} (starts : first.isAlpha = true)
      (letters : ∀ character ∈ others, character.isAlpha = true)
      (ends : Stops Char.isAlpha rest) :
      Lexeme ('\\' :: first :: others) ⟨.command, String.ofList ('\\' :: first :: others)⟩ rest
  | whole {first : Char} {others rest : List Char} (starts : first.isDigit = true)
      (digits : ∀ character ∈ others, character.isDigit = true) (ends : Stops Char.isDigit rest)
      (noFraction : ∀ fraction, rest = '.' :: fraction → Stops Char.isDigit fraction) :
      Lexeme (first :: others) ⟨.element, String.ofList (first :: others)⟩ rest
  | decimal {first digit : Char} {others places rest : List Char} (starts : first.isDigit = true)
      (digits : ∀ character ∈ others, character.isDigit = true) (fraction : digit.isDigit = true)
      (moreDigits : ∀ character ∈ places, character.isDigit = true)
      (ends : Stops Char.isDigit rest) :
      Lexeme (first :: others ++ '.' :: digit :: places)
        ⟨.element, String.ofList (first :: others ++ '.' :: digit :: places)⟩ rest
  | letter {character : Char} (isLetter : character.isAlpha = true) (rest : List Char) :
      Lexeme [character] ⟨.element, String.ofList [character]⟩ rest
  | sign {character : Char} (listed : character ∈ elementCharacters) (rest : List Char) :
      Lexeme [character] ⟨.element, String.ofList [character]⟩ rest
  | foreign {character : Char} (foreign : isForeign character = true) (rest : List Char) :
      Lexeme [character] ⟨.unknown, String.ofList [character]⟩ rest

/-- The characters stand before the brace that closes a text, whatever follows that brace. -/
def Enclosed (body : List Char) : Prop :=
  ∀ rest, closingBrace? (body ++ '}' :: rest) = some body.length

/-- The characters are read as the tokens of one unit if the rest follows them. -/
inductive Segment : List Char → List Token → List Char → Prop where
  | single {span rest : List Char} {token : Token} (lexeme : Lexeme span token rest)
      (plain : takesText token = false) : Segment span [token] rest
  | text {span blanks body rest : List Char} {command : Token}
      (lexeme : Lexeme span command (blanks ++ '{' :: (body ++ '}' :: rest)))
      (takes : takesText command = true) (spaces : ∀ blank ∈ blanks, isSpace blank = true)
      (enclosed : Enclosed body) :
      Segment (span ++ (blanks ++ '{' :: (body ++ ['}'])))
        [command, .openBrace, ⟨.text, String.ofList (unescape body)⟩, .closeBrace] rest

/-- The text is read as the tokens. -/
inductive Lexes : List Char → List Token → Prop where
  | nil : Lexes [] []
  | cons {span rest : List Char} {unit others : List Token} (first : Segment span unit rest)
      (following : Lexes rest others) : Lexes (span ++ rest) (unit ++ others)

section Runs

variable {goesOn : Char → Bool} {run rest : List Char}

theorem stops_dropWhile (text : List Char) : Stops goesOn (text.dropWhile goesOn) := by
  intro character isFirst
  have stopped := List.head?_dropWhile_not goesOn text
  rw [isFirst] at stopped
  simpa using stopped

theorem Stops.dropWhile_eq_self (ends : Stops goesOn rest) : rest.dropWhile goesOn = rest := by
  cases rest with
  | nil => rfl
  | cons character tail => simp [ends character rfl]

theorem Stops.takeWhile_eq_nil (ends : Stops goesOn rest) : rest.takeWhile goesOn = [] := by
  cases rest with
  | nil => rfl
  | cons character tail => simp [ends character rfl]

theorem takeWhile_run (inRun : ∀ character ∈ run, goesOn character = true)
    (ends : Stops goesOn rest) : (run ++ rest).takeWhile goesOn = run := by
  rw [List.takeWhile_append_of_pos inRun, ends.takeWhile_eq_nil, List.append_nil]

theorem dropWhile_run (inRun : ∀ character ∈ run, goesOn character = true)
    (ends : Stops goesOn rest) : (run ++ rest).dropWhile goesOn = rest := by
  rw [List.dropWhile_append_of_pos inRun, ends.dropWhile_eq_self]

/-- A text is a run of characters of a class and a rest that does not go on with it. -/
theorem exists_run (goesOn : Char → Bool) (text : List Char) :
    ∃ run rest, text = run ++ rest ∧ (∀ character ∈ run, goesOn character = true) ∧
      Stops goesOn rest :=
  ⟨text.takeWhile goesOn, text.dropWhile goesOn, List.takeWhile_append_dropWhile.symm,
    fun _ inRun => List.mem_takeWhile_imp inRun, stops_dropWhile text⟩

end Runs

section Realization

theorem tokens_of_step {character : Char} {rest : List Char} {others : List Token}
    (unit : List Token) (after : String) (read : step character rest = .ok (unit, after.toList))
    (lexed : tokens after.toList = .ok others) :
    tokens (character :: rest) = .ok (unit ++ others) := by
  rw [tokens_cons, read]
  simp only [lexed]
  rfl

theorem number_whole {whole rest : List Char} (digits : ∀ character ∈ whole, character.isDigit = true)
    (ends : Stops Char.isDigit rest)
    (noFraction : ∀ fraction, rest = '.' :: fraction → Stops Char.isDigit fraction) :
    number (whole ++ rest) = whole := by
  unfold number
  rw [takeWhile_run digits ends, dropWhile_run digits ends]
  split
  · rename_i digit tail
    simp [noFraction _ rfl digit rfl]
  · rfl

theorem number_decimal {whole places rest : List Char} {digit : Char}
    (digits : ∀ character ∈ whole, character.isDigit = true) (fraction : digit.isDigit = true)
    (moreDigits : ∀ character ∈ places, character.isDigit = true) (ends : Stops Char.isDigit rest) :
    number (whole ++ '.' :: digit :: (places ++ rest)) = whole ++ '.' :: digit :: places := by
  have atPoint : Stops Char.isDigit ('.' :: digit :: (places ++ rest)) := by
    rintro character ⟨⟩
    rfl
  have inFraction : ∀ character ∈ digit :: places, character.isDigit = true :=
    List.forall_mem_cons.mpr ⟨fraction, moreDigits⟩
  unfold number
  rw [takeWhile_run digits atPoint, dropWhile_run digits atPoint]
  simp only [if_pos fraction]
  rw [← List.cons_append, takeWhile_run inFraction ends]

theorem not_mem_of_class {inClass : Char → Bool} {character : Char} {others : List Char}
    (holds : inClass character = true) (none : others.any inClass = false) :
    character ∉ others := by
  intro listed
  rw [List.any_eq_false] at none
  exact none character listed holds

theorem not_isDigit_of_isAlpha {character : Char} (isLetter : character.isAlpha = true) :
    character.isDigit = false := by
  simp only [Char.isAlpha, Char.isUpper, Char.isLower, Char.isDigit, Bool.or_eq_true,
    Bool.and_eq_true, decide_eq_true_eq, Bool.and_eq_false_iff, decide_eq_false_iff_not,
    ge_iff_le, UInt32.le_iff_toNat_le] at isLetter ⊢
  have nine : ('9' : Char).val.toNat = 57 := rfl
  have upper : ('A' : Char).val.toNat = 65 := rfl
  have lower : ('a' : Char).val.toNat = 97 := rfl
  omega

/-- The characters that start a token of a kind of its own. -/
def leadingCharacters : List Char :=
  ['%', '{', '}', '_', '^', '&', '\n', '\r', ' ', '\t', '\\']

/-- Any other character starts a number, or is a token of its own. -/
theorem firstToken_of_not_leading {character : Char} (unlisted : character ∉ leadingCharacters)
    (rest : List Char) :
    firstToken character rest =
      if character.isDigit then
        (⟨.element, String.ofList (number (character :: rest))⟩,
          rest.drop ((number (character :: rest)).length - 1))
      else if character.isAlpha || elementCharacters.contains character then
        (⟨.element, String.ofList [character]⟩, rest)
      else
        (⟨.unknown, String.ofList [character]⟩, rest) := by
  simp only [leadingCharacters, List.mem_cons, List.not_mem_nil, or_false, not_or] at unlisted
  simp [firstToken, controlCharacters, isSpace, unlisted]

theorem escapedToken_of_isAlpha {first : Char} {others rest : List Char}
    (starts : first.isAlpha = true) (letters : ∀ character ∈ others, character.isAlpha = true)
    (ends : Stops Char.isAlpha rest) :
    escapedToken (first :: (others ++ rest)) =
      ⟨.command, String.ofList ('\\' :: first :: others)⟩ := by
  have noControl : first ∉ controlEscapes := not_mem_of_class starts rfl
  have noElement : first ∉ elementEscapes := not_mem_of_class starts rfl
  have name : commandName (first :: (others ++ rest)) = first :: others :=
    takeWhile_run (List.forall_mem_cons.mpr ⟨starts, letters⟩) ends
  simp [escapedToken, noControl, noElement, name]

/-- After a backslash as many characters are taken as the token has. -/
theorem firstToken_escape {kind : TokenKind} {taken rest : List Char}
    (escaped : escapedToken (taken ++ rest) = ⟨kind, String.ofList ('\\' :: taken)⟩) :
    firstToken '\\' (taken ++ rest) = (⟨kind, String.ofList ('\\' :: taken)⟩, rest) := by
  have unfolded : firstToken '\\' (taken ++ rest) = (escapedToken (taken ++ rest),
      (taken ++ rest).drop ((escapedToken (taken ++ rest)).value.length - 1)) := rfl
  rw [unfolded, escaped]
  simp only [String.length_ofList, List.length_cons, Nat.add_sub_cancel, List.drop_left]

/-- The lexer takes the characters of a lexeme and leaves what follows them. -/
theorem Lexeme.firstToken_eq {span rest : List Char} {token : Token}
    (lexeme : Lexeme span token rest) :
    ∃ first others, span = first :: others ∧ firstToken first (others ++ rest) = (token, rest) := by
  cases lexeme with
  | @comment line rest inLine ends =>
    refine ⟨'%', line, rfl, ?_⟩
    simp only [firstToken, if_true, takeWhile_run inLine ends, dropWhile_run inLine ends]
  | control listed rest =>
    refine ⟨_, [], rfl, ?_⟩
    simp only [controlCharacters, List.mem_cons, List.not_mem_nil, or_false] at listed
    rcases listed with rfl | rfl | rfl | rfl | rfl <;> rfl
  | lineFeed rest => exact ⟨'\n', [], rfl, rfl⟩
  | carriageReturn alone =>
    refine ⟨'\r', [], rfl, ?_⟩
    cases rest with
    | nil => rfl
    | cons next tail =>
      have noFeed : next ≠ '\n' := by simpa using alone next rfl
      simp [firstToken, controlCharacters, noFeed]
  | returnAndFeed rest => exact ⟨'\r', ['\n'], rfl, rfl⟩
  | @space first others rest starts spaces ends =>
    have blank : first = ' ' ∨ first = '\t' := by simpa [isSpace] using starts
    have unfolded : firstToken first (others ++ rest) =
        (⟨.whitespace, String.ofList (first :: (others ++ rest).takeWhile isSpace)⟩,
          (others ++ rest).dropWhile isSpace) := by
      rcases blank with rfl | rfl <;> rfl
    refine ⟨first, others, rfl, ?_⟩
    rw [unfolded, takeWhile_run spaces ends, dropWhile_run spaces ends]
  | loneBackslash => exact ⟨'\\', [], rfl, rfl⟩
  | @controlEscape character listed rest =>
    have escaped : escapedToken ([character] ++ rest) =
        ⟨.control, String.ofList ['\\', character]⟩ := by
      simp only [List.singleton_append, escapedToken, List.contains_iff_mem.mpr listed, if_true]
    exact ⟨'\\', [character], rfl, firstToken_escape escaped⟩
  | @elementEscape character listed rest =>
    have noControl : controlEscapes.contains character = false := by
      simp only [elementEscapes, List.mem_cons, List.not_mem_nil, or_false] at listed
      rcases listed with rfl | rfl | rfl | rfl | rfl | rfl | rfl | rfl <;> rfl
    have escaped : escapedToken ([character] ++ rest) =
        ⟨.element, String.ofList ['\\', character]⟩ := by
      simp only [List.singleton_append, escapedToken, noControl, List.contains_iff_mem.mpr listed,
        Bool.false_eq_true, if_false, if_true]
    exact ⟨'\\', [character], rfl, firstToken_escape escaped⟩
  | @commandSign character noLetter noControl noElement rest =>
    have escaped : escapedToken ([character] ++ rest) =
        ⟨.command, String.ofList ['\\', character]⟩ := by
      simp [escapedToken, commandName, noControl, noElement, noLetter]
    exact ⟨'\\', [character], rfl, firstToken_escape escaped⟩
  | @command first others rest starts letters ends =>
    exact ⟨'\\', first :: others, rfl, firstToken_escape (escapedToken_of_isAlpha starts letters ends)⟩
  | @whole first others rest starts digits ends noFraction =>
    refine ⟨first, others, rfl, ?_⟩
    have literal := number_whole (List.forall_mem_cons.mpr ⟨starts, digits⟩) ends noFraction
    rw [List.cons_append] at literal
    rw [firstToken_of_not_leading (not_mem_of_class starts rfl), if_pos starts, literal]
    simp
  | @decimal first digit others places rest starts digits fraction moreDigits ends =>
    refine ⟨first, others ++ '.' :: digit :: places, rfl, ?_⟩
    have literal := number_decimal (List.forall_mem_cons.mpr ⟨starts, digits⟩) fraction moreDigits ends
    rw [List.cons_append] at literal
    rw [firstToken_of_not_leading (not_mem_of_class starts rfl), if_pos starts,
      List.append_assoc, List.cons_append, List.cons_append, literal]
    simp
  | @letter character isLetter rest =>
    refine ⟨character, [], rfl, ?_⟩
    rw [firstToken_of_not_leading (not_mem_of_class isLetter rfl)]
    simp [not_isDigit_of_isAlpha isLetter, isLetter]
  | sign listed rest =>
    refine ⟨_, [], rfl, ?_⟩
    simp only [elementCharacters, List.mem_cons, List.not_mem_nil, or_false] at listed
    rcases listed with rfl | rfl | rfl | rfl | rfl | rfl | rfl | rfl | rfl | rfl | rfl | rfl | rfl |
      rfl | rfl | rfl | rfl | rfl | rfl <;> rfl
  | @foreign character foreign rest =>
    refine ⟨character, [], rfl, ?_⟩
    rw [isForeign, Bool.not_eq_true'] at foreign
    have unlisted : character ∉ leadingCharacters := by
      intro listed
      simp only [leadingCharacters, List.mem_cons, List.not_mem_nil, or_false] at listed
      rcases listed with rfl | rfl | rfl | rfl | rfl | rfl | rfl | rfl | rfl | rfl | rfl <;> cases foreign
    simp only [Bool.or_eq_false_iff] at foreign
    simp only [List.nil_append, firstToken_of_not_leading unlisted, foreign, Bool.or_self,
      Bool.false_eq_true, if_false]

theorem exists_lexeme_escape (rest : List Char) :
    ∃ span token tail, Lexeme span token tail ∧ span ++ tail = '\\' :: rest := by
  cases rest with
  | nil => exact ⟨_, _, [], .loneBackslash, rfl⟩
  | cons character rest =>
    by_cases control : character ∈ controlEscapes
    · exact ⟨_, _, rest, .controlEscape control rest, rfl⟩
    by_cases element : character ∈ elementEscapes
    · exact ⟨_, _, rest, .elementEscape element rest, rfl⟩
    cases isLetter : character.isAlpha with
    | false => exact ⟨_, _, rest, .commandSign isLetter control element rest, rfl⟩
    | true =>
      obtain ⟨others, tail, rfl, letters, ends⟩ := exists_run Char.isAlpha rest
      exact ⟨_, _, tail, .command isLetter letters ends, rfl⟩

theorem exists_lexeme_digit {digit : Char} (isDigit : digit.isDigit = true) (rest : List Char) :
    ∃ span token tail, Lexeme span token tail ∧ span ++ tail = digit :: rest := by
  obtain ⟨others, tail, rfl, digits, ends⟩ := exists_run Char.isDigit rest
  by_cases fraction : ∃ place places, tail = '.' :: place :: places ∧ place.isDigit = true
  · obtain ⟨place, places, rfl, isPlace⟩ := fraction
    obtain ⟨morePlaces, after, rfl, moreDigits, endsAfter⟩ := exists_run Char.isDigit places
    exact ⟨_, _, after, .decimal isDigit digits isPlace moreDigits endsAfter, by simp⟩
  · refine ⟨_, _, tail, .whole isDigit digits ends ?_, rfl⟩
    rintro places rfl place isFirst
    rw [← Bool.not_eq_true]
    intro isPlace
    obtain ⟨more, rfl⟩ := List.head?_eq_some_iff.mp isFirst
    exact fraction ⟨place, more, rfl, isPlace⟩

/-- Every text starts with a lexeme. -/
theorem exists_lexeme (character : Char) (rest : List Char) :
    ∃ span token tail, Lexeme span token tail ∧ span ++ tail = character :: rest := by
  cases foreign : isForeign character with
  | true => exact ⟨_, _, rest, .foreign foreign rest, rfl⟩
  | false =>
    simp only [isForeign, Bool.not_eq_false', Bool.or_eq_true, List.contains_iff_mem] at foreign
    rcases foreign with ((((control | sign) | leading) | space) | digit) | letter
    · exact ⟨_, _, rest, .control control rest, rfl⟩
    · exact ⟨_, _, rest, .sign sign rest, rfl⟩
    · simp only [List.mem_cons, List.not_mem_nil, or_false] at leading
      rcases leading with rfl | rfl | rfl | rfl
      · obtain ⟨line, tail, rfl, inLine, ends⟩ := exists_run (· != '\n') rest
        exact ⟨_, _, tail, .comment inLine ends, rfl⟩
      · exact ⟨_, _, rest, .lineFeed rest, rfl⟩
      · by_cases feeds : ∃ tail, rest = '\n' :: tail
        · obtain ⟨tail, rfl⟩ := feeds
          exact ⟨_, _, tail, .returnAndFeed tail, rfl⟩
        · refine ⟨_, _, rest, .carriageReturn fun next isFirst => ?_, rfl⟩
          obtain ⟨tail, rfl⟩ := List.head?_eq_some_iff.mp isFirst
          rw [beq_eq_false_iff_ne]
          rintro rfl
          exact feeds ⟨tail, rfl⟩
      · exact exists_lexeme_escape rest
    · obtain ⟨others, tail, rfl, spaces, ends⟩ := exists_run isSpace rest
      exact ⟨_, _, tail, .space space spaces ends, rfl⟩
    · exact exists_lexeme_digit digit rest
    · exact ⟨_, _, rest, .letter letter rest, rfl⟩

/-- The lexer takes a lexeme from the front of the text. -/
theorem firstToken_eq_iff {character : Char} {rest tail : List Char} {token : Token} :
    firstToken character rest = (token, tail) ↔
      ∃ span, Lexeme span token tail ∧ span ++ tail = character :: rest := by
  constructor
  · intro found
    obtain ⟨span, other, after, lexeme, same⟩ := exists_lexeme character rest
    obtain ⟨first, others, rfl, read⟩ := lexeme.firstToken_eq
    rw [List.cons_append, List.cons.injEq] at same
    obtain ⟨rfl, rfl⟩ := same
    rw [found, Prod.mk.injEq] at read
    obtain ⟨rfl, rfl⟩ := read
    exact ⟨_, lexeme, rfl⟩
  · rintro ⟨span, lexeme, same⟩
    obtain ⟨first, others, rfl, read⟩ := lexeme.firstToken_eq
    rw [List.cons_append, List.cons.injEq] at same
    obtain ⟨rfl, rfl⟩ := same
    exact read

/-- The brace that closes a text does not depend on what follows it. -/
theorem exists_of_closingBraceFrom? {depth offset : Nat} {text : List Char}
    (found : closingBraceFrom? depth text = some offset) :
    ∃ body rest, text = body ++ '}' :: rest ∧ body.length = offset ∧
      ∀ other, closingBraceFrom? depth (body ++ '}' :: other) = some offset := by
  fun_induction closingBraceFrom? depth text generalizing offset with
  | case1 depth => cases found
  | case2 depth tail inductionHypothesis =>
    obtain ⟨inner, innerFound, rfl⟩ := Option.map_eq_some_iff.mp found
    obtain ⟨body, rest, rfl, rfl, closes⟩ := inductionHypothesis innerFound
    exact ⟨'\\' :: '{' :: body, rest, rfl, rfl, fun other => by simp [closingBraceFrom?, closes]⟩
  | case3 depth tail inductionHypothesis =>
    obtain ⟨inner, innerFound, rfl⟩ := Option.map_eq_some_iff.mp found
    obtain ⟨body, rest, rfl, rfl, closes⟩ := inductionHypothesis innerFound
    exact ⟨'\\' :: '}' :: body, rest, rfl, rfl, fun other => by simp [closingBraceFrom?, closes]⟩
  | case4 depth tail inductionHypothesis =>
    obtain ⟨inner, innerFound, rfl⟩ := Option.map_eq_some_iff.mp found
    obtain ⟨body, rest, rfl, rfl, closes⟩ := inductionHypothesis innerFound
    exact ⟨'{' :: body, rest, rfl, rfl, fun other => by simp [closingBraceFrom?, closes]⟩
  | case5 tail =>
    cases found
    exact ⟨[], tail, rfl, rfl, fun other => by simp [closingBraceFrom?]⟩
  | case6 outer tail inductionHypothesis =>
    obtain ⟨inner, innerFound, rfl⟩ := Option.map_eq_some_iff.mp found
    obtain ⟨body, rest, rfl, rfl, closes⟩ := inductionHypothesis innerFound
    exact ⟨'}' :: body, rest, rfl, rfl, fun other => by simp [closingBraceFrom?, closes]⟩
  | case7 depth character tail noOpening noClosing noBrace noEnd noCloser inductionHypothesis =>
    obtain ⟨inner, innerFound, rfl⟩ := Option.map_eq_some_iff.mp found
    obtain ⟨body, rest, rfl, rfl, closes⟩ := inductionHypothesis innerFound
    refine ⟨character :: body, rest, rfl, rfl, fun other => ?_⟩
    have sameHead : (body ++ '}' :: other).head? = (body ++ '}' :: rest).head? := by
      cases body <;> rfl
    have sameStart {first : Char} {tail : List Char} (starts : body ++ '}' :: other = first :: tail) :
        ∃ tail, body ++ '}' :: rest = first :: tail := by
      rw [starts] at sameHead
      exact List.head?_eq_some_iff.mp sameHead.symm
    rw [List.cons_append, closingBraceFrom?]
    · rw [closes]
      rfl
    · intro tail isEscape starts
      obtain ⟨tail, starts⟩ := sameStart starts
      exact noOpening tail isEscape starts
    · intro tail isEscape starts
      obtain ⟨tail, starts⟩ := sameStart starts
      exact noClosing tail isEscape starts
    · exact noBrace
    · exact noEnd
    · exact noCloser

/-- A text is read from its braces, after any space. -/
theorem textArgument_eq_ok_iff {command : Token} {text after : List Char} {argument : List Token} :
    textArgument command text = .ok (argument, after) ↔
      ∃ blanks body, text = blanks ++ '{' :: (body ++ '}' :: after) ∧
        (∀ blank ∈ blanks, isSpace blank = true) ∧ Enclosed body ∧
        argument = [.openBrace, ⟨.text, String.ofList (unescape body)⟩, .closeBrace] := by
  constructor
  · intro read
    obtain ⟨blanks, rest, rfl, spaces, ends⟩ := exists_run isSpace text
    unfold textArgument at read
    rw [dropWhile_run spaces ends] at read
    split at read
    · split at read
      · cases read
      · rename_i body offset found
        obtain ⟨inside, rest, rfl, rfl, encloses⟩ := exists_of_closingBraceFrom? found
        simp only [List.take_left, List.drop_length_add_append, List.drop_one, List.tail_cons,
          Except.ok.injEq, Prod.mk.injEq] at read
        obtain ⟨rfl, rfl⟩ := read
        exact ⟨blanks, inside, rfl, spaces, encloses, rfl⟩
    · cases read
  · rintro ⟨blanks, body, rfl, spaces, enclosed, rfl⟩
    have atBrace : Stops isSpace ('{' :: (body ++ '}' :: after)) := by
      rintro character ⟨⟩
      rfl
    unfold textArgument
    rw [dropWhile_run spaces atBrace]
    simp [enclosed after]

/-- What the lexer reads in one step is a segment. -/
theorem exists_segment_of_step {character : Char} {rest after : List Char} {unit : List Token}
    (read : step character rest = .ok (unit, after)) :
    ∃ span, Segment span unit after ∧ span ++ after = character :: rest := by
  unfold step at read
  split at read
  rename_i token tail found
  obtain ⟨span, lexeme, same⟩ := firstToken_eq_iff.mp found
  split at read
  · rename_i takes
    cases argumentRead : textArgument token tail with
    | error cause =>
      rw [argumentRead] at read
      cases read
    | ok result =>
      obtain ⟨argument, following⟩ := result
      rw [argumentRead] at read
      cases read
      obtain ⟨blanks, body, rfl, spaces, enclosed, rfl⟩ := textArgument_eq_ok_iff.mp argumentRead
      exact ⟨_, .text lexeme takes spaces enclosed, by simp [← same]⟩
  · rename_i plain
    cases read
    exact ⟨span, .single lexeme (by simpa using plain), same⟩

/-- The lexer reads a segment in one step and leaves what follows it. -/
theorem Segment.step_eq {span rest : List Char} {unit : List Token} (read : Segment span unit rest) :
    ∃ first others, span = first :: others ∧ step first (others ++ rest) = .ok (unit, rest) := by
  cases read with
  | single lexeme plain =>
    obtain ⟨first, others, rfl, found⟩ := lexeme.firstToken_eq
    refine ⟨first, others, rfl, ?_⟩
    unfold step
    simp [found, plain]
  | @text span blanks body rest command lexeme takes spaces enclosed =>
    obtain ⟨first, others, rfl, found⟩ := lexeme.firstToken_eq
    have argument : textArgument command (blanks ++ '{' :: (body ++ '}' :: rest)) =
        .ok ([.openBrace, ⟨.text, String.ofList (unescape body)⟩, .closeBrace], rest) :=
      textArgument_eq_ok_iff.mpr ⟨blanks, body, rfl, spaces, enclosed, rfl⟩
    refine ⟨first, others ++ (blanks ++ '{' :: (body ++ ['}'])), rfl, ?_⟩
    have regrouped : others ++ (blanks ++ '{' :: (body ++ ['}'])) ++ rest =
        others ++ (blanks ++ '{' :: (body ++ '}' :: rest)) := by simp
    unfold step
    rw [regrouped, found]
    simp only [takes, if_true, argument]
    rfl

/-- The tokens of a segment stand before the tokens of the text after it. -/
theorem Segment.tokens_append {span rest : List Char} {unit : List Token}
    (segment : Segment span unit rest) :
    Lexer.tokens (span ++ rest) = (Lexer.tokens rest).map (unit ++ ·) := by
  obtain ⟨first, others, rfl, read⟩ := segment.step_eq
  rw [List.cons_append, tokens_cons, read]

/-- What holds of the empty text, and of a text if it holds of what follows its first unit,
holds of every text that is read. -/
@[elab_as_elim]
theorem tokens_induction
    {motive : (text : List Char) → (tokens : List Token) → Lexer.tokens text = .ok tokens → Prop}
    (nil : motive [] [] tokens_nil)
    (unit : ∀ {character : Char} {rest after : List Char} {unit others : List Token}
      (_ : step character rest = .ok (unit, after)) (following : Lexer.tokens after = .ok others)
      (whole : Lexer.tokens (character :: rest) = .ok (unit ++ others)),
      motive after others following → motive (character :: rest) (unit ++ others) whole)
    (text : List Char) (tokens : List Token) (lexed : Lexer.tokens text = .ok tokens) :
    motive text tokens lexed := by
  fun_induction Lexer.tokens text generalizing tokens with
  | case1 =>
    cases tokens_nil.symm.trans lexed
    exact nil
  | case2 character rest cause read =>
    have refused := lexed
    rw [tokens_cons, read] at refused
    cases refused
  | case3 character rest first after read inductionHypothesis =>
    have parts := lexed
    rw [tokens_cons, read] at parts
    cases following : Lexer.tokens after with
    | error cause => simp [following, Except.map] at parts
    | ok others =>
      simp only [following, Except.map, Except.ok.injEq] at parts
      subst parts
      exact unit read following lexed (inductionHypothesis others following)

theorem lexes_of_tokens {text : List Char} {tokens : List Token}
    (lexed : Lexer.tokens text = .ok tokens) : Lexes text tokens := by
  induction text, tokens, lexed using tokens_induction with
  | nil => exact .nil
  | unit read following _ inductionHypothesis =>
    obtain ⟨span, first, same⟩ := exists_segment_of_step read
    rw [← same]
    exact .cons first inductionHypothesis

/-- The lexer reads exactly the tokens that the grammar gives a text. -/
theorem tokens_eq_ok_iff {text : List Char} {tokens : List Token} :
    Lexer.tokens text = .ok tokens ↔ Lexes text tokens := by
  constructor
  · exact lexes_of_tokens
  · intro lexes
    induction lexes with
    | nil => exact tokens_nil
    | cons first following inductionHypothesis =>
      rw [first.tokens_append, inductionHypothesis]
      rfl

end Realization

end MathMarkup.Tex.Lexer
