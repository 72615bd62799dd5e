import MathMarkup.Tex.Brackets
import MathMarkup.Tex.ParseError

/-!
# Tokens of a source text

A letter is a token of its own, a number with an optional decimal part is one token,
and a command is a backslash with the letters after it. After the commands of
`textCommands` the braced argument is taken as text and gives three tokens.
`Lexer.step` reads one such unit and `tokenize` all of them.
-/

namespace MathMarkup.Tex

namespace Lexer

/-- Characters that are control tokens. -/
def controlCharacters : List Char := ['{', '}', '_', '^', '&']

/-- Signs that are elements. -/
def elementCharacters : List Char :=
  ['+', '-', '*', '/', '=', '\'', '<', '>', '!', '.', ',', ';', ':', '?', '(', ')', '[', ']', '|']

/-- Characters that make a control token when a backslash stands before them. -/
def controlEscapes : List Char := ['\\', ',']

/-- Characters that make an element when a backslash stands before them. -/
def elementEscapes : List Char := ['{', '}', '%', '$', '&', '#', '_', '|']

/-- Commands whose braced argument is text. -/
def textCommands : List String := ["\\text", "\\operatorname", "\\begin", "\\end"]

/-- A space or a tabulator. -/
def isSpace (character : Char) : Bool :=
  character == ' ' || character == '\t'

/-- The letters at the front: the name of a command. -/
def commandName (text : List Char) : List Char :=
  text.takeWhile Char.isAlpha

/-- The number at the front: digits, and a point with digits after it. A point that
no digit follows does not belong to the number. -/
def number (text : List Char) : List Char :=
  let whole := text.takeWhile Char.isDigit
  match text.dropWhile Char.isDigit with
  | '.' :: digit :: rest =>
    if digit.isDigit then whole ++ '.' :: (digit :: rest).takeWhile Char.isDigit else whole
  | _ => whole

/-- The token that starts with a backslash, given the characters after it. -/
def escapedToken : List Char → Token
  | [] => ⟨.unknown, "\\"⟩
  | character :: rest =>
    if controlEscapes.contains character then ⟨.control, String.ofList ['\\', character]⟩
    else if elementEscapes.contains character then ⟨.element, String.ofList ['\\', character]⟩
    else
      match commandName (character :: rest) with
      | [] => ⟨.command, String.ofList ['\\', character]⟩
      | name => ⟨.command, String.ofList ('\\' :: name)⟩

/-- The token at the front of a non-empty text, with the text after it. -/
def firstToken (character : Char) (rest : List Char) : Token × List Char :=
  if character = '%' then
    (⟨.comment, String.ofList (rest.takeWhile (· != '\n'))⟩, rest.dropWhile (· != '\n'))
  else if controlCharacters.contains character then
    (⟨.control, String.ofList [character]⟩, rest)
  else if character = '\n' then
    (⟨.newline, "\n"⟩, rest)
  else if character = '\r' then
    match rest with
    | '\n' :: tail => (⟨.newline, "\n"⟩, tail)
    | _ => (⟨.newline, "\n"⟩, rest)
  else if isSpace character then
    (⟨.whitespace, String.ofList (character :: rest.takeWhile isSpace)⟩, rest.dropWhile isSpace)
  else if character = '\\' then
    let token := escapedToken rest
    (token, rest.drop (token.value.length - 1))
  else if character.isDigit then
    let literal := number (character :: rest)
    (⟨.element, String.ofList literal⟩, rest.drop (literal.length - 1))
  else if character.isAlpha || elementCharacters.contains character then
    (⟨.element, String.ofList [character]⟩, rest)
  else
    (⟨.unknown, String.ofList [character]⟩, rest)

/-- The token is a command whose braced argument is text. -/
def takesText (token : Token) : Bool :=
  token.kind == .command && textCommands.contains token.value

/-- The braced argument of a command that takes text, with the text after it.
Spaces may stand between the command and the brace. -/
def textArgument (command : Token) (text : List Char) :
    Except ParseError (List Token × List Char) :=
  match text.dropWhile isSpace with
  | '{' :: body =>
    match closingBrace? body with
    | none => .error (.unmatchedBraces none)
    | some offset =>
      .ok ([.openBrace, ⟨.text, String.ofList (unescape (body.take offset))⟩, .closeBrace],
        body.drop (offset + 1))
  | _ => .error (.noContent command)

/-- The unit at the front of a non-empty text: one token, together with its
argument if it takes text. -/
def step (character : Char) (rest : List Char) : Except ParseError (List Token × List Char) :=
  let (token, tail) := firstToken character rest
  if takesText token then
    (textArgument token tail).map fun (argument, after) => (token :: argument, after)
  else
    .ok ([token], tail)

private theorem length_dropWhile_le (keep : Char → Bool) (text : List Char) :
    (text.dropWhile keep).length ≤ text.length :=
  (List.dropWhile_sublist keep).length_le

/-- A token leaves no more text than there was after its first character. -/
theorem length_firstToken_le (character : Char) (rest : List Char) :
    (firstToken character rest).2.length ≤ rest.length := by
  unfold firstToken
  split
  · exact length_dropWhile_le _ rest
  split
  · simp
  split
  · simp
  split
  · split <;> simp
  split
  · exact length_dropWhile_le _ rest
  split
  · simp
  split
  · simp
  split <;> simp

/-- An argument leaves no more text than there was. -/
theorem length_textArgument_le {command : Token} {text : List Char} {argument : List Token}
    {after : List Char} (read : textArgument command text = .ok (argument, after)) :
    after.length ≤ text.length := by
  have shorter := length_dropWhile_le isSpace text
  unfold textArgument at read
  split at read
  · rename_i body found
    rw [found] at shorter
    split at read
    · simp at read
    · simp only [Except.ok.injEq, Prod.mk.injEq] at read
      rw [← read.2]
      simp at shorter ⊢
      omega
  · simp at read

/-- A unit takes at least one character. -/
theorem length_step_lt {character : Char} {rest : List Char} {tokens : List Token}
    {after : List Char} (read : step character rest = .ok (tokens, after)) :
    after.length < (character :: rest).length := by
  have shorter := length_firstToken_le character rest
  unfold step at read
  split at read
  rename_i token tail found
  rw [found] at shorter
  split at read
  · cases argumentRead : textArgument token tail with
    | error cause => simp [argumentRead, Except.map] at read
    | ok result =>
      obtain ⟨argument, following⟩ := result
      have shorterStill := length_textArgument_le argumentRead
      simp only [argumentRead, Except.map, Except.ok.injEq, Prod.mk.injEq] at read
      rw [← read.2]
      simp at shorter ⊢
      omega
  · simp only [Except.ok.injEq, Prod.mk.injEq] at read
    rw [← read.2]
    simp at shorter ⊢
    omega

/-- The tokens of a text. -/
def tokens (text : List Char) : Except ParseError (List Token) :=
  match text with
  | [] => .ok []
  | character :: rest =>
    match _read : step character rest with
    | .error cause => .error cause
    | .ok (unit, after) => (tokens after).map (unit ++ ·)
termination_by text.length
decreasing_by exact length_step_lt _read

@[simp]
theorem tokens_nil : tokens [] = .ok [] := by
  unfold tokens
  rfl

/-- A text is read unit by unit. -/
theorem tokens_cons (character : Char) (rest : List Char) :
    tokens (character :: rest) =
      match step character rest with
      | .error cause => .error cause
      | .ok (unit, after) => (tokens after).map (unit ++ ·) := by
  rw [tokens]
  split <;> simp_all

end Lexer

/-- The tokens of TeX math source, in the order of the text. -/
def tokenize (source : String) : Except ParseError (List Token) :=
  Lexer.tokens source.toList

end MathMarkup.Tex
