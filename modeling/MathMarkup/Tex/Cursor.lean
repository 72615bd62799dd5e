import MathMarkup.Tex.ParseError

/-!
# Positions in a token list

A cursor is a place between two tokens of a list. Reading moves it to the right; the
only other thing that reading does to the list is to split a number in two, so that
an argument without braces takes one digit.
-/

namespace MathMarkup.Tex

/-- A place in a token list: the tokens before it, nearest first, and those after it. -/
structure Cursor where
  before : List Token
  after : List Token
deriving DecidableEq, Repr

namespace Cursor

/-- The place before the first token. -/
def ofTokens (tokens : List Token) : Cursor :=
  ⟨[], tokens⟩

/-- The place with the given number of tokens before it, or the end of a shorter list. -/
def ofPosition (tokens : List Token) (position : Nat) : Cursor :=
  ⟨(tokens.take position).reverse, tokens.drop position⟩

/-- The whole list that the cursor is a place of. -/
def tokens (cursor : Cursor) : List Token :=
  cursor.before.reverse ++ cursor.after

/-- The number of tokens before the place. -/
def position (cursor : Cursor) : Nat :=
  cursor.before.length

/-- The place further to the right by the given number of tokens. -/
def advance (count : Nat) (cursor : Cursor) : Cursor :=
  ⟨(cursor.after.take count).reverse ++ cursor.before, cursor.after.drop count⟩

/-- A list is the tokens of the place before it. -/
@[simp]
theorem tokens_ofTokens (tokens : List Token) : (ofTokens tokens).tokens = tokens := by
  simp [ofTokens, Cursor.tokens]

/-- A list is the tokens of each of its places. -/
@[simp]
theorem tokens_ofPosition (tokens : List Token) (position : Nat) :
    (ofPosition tokens position).tokens = tokens := by
  simp [ofPosition, Cursor.tokens]

/-- Moving to the right changes no token. -/
@[simp]
theorem tokens_advance (count : Nat) (cursor : Cursor) :
    (cursor.advance count).tokens = cursor.tokens := by
  simp [advance, Cursor.tokens]

/-- An element that is a number of more than one digit, as its first digit and the rest. -/
def splitNumber? (token : Token) : Option (Token × Token) :=
  match token.kind, token.value.toList with
  | .element, digit :: following :: rest =>
    if digit.isDigit then
      some (⟨.element, String.ofList [digit]⟩, ⟨.element, String.ofList (following :: rest)⟩)
    else
      none
  | _, _ => none

/-- Splits the token after the place if it is a number of more than one digit. -/
def splitNumber (cursor : Cursor) : Cursor :=
  match cursor.after with
  | token :: rest =>
    match splitNumber? token with
    | some (digit, remainder) => ⟨cursor.before, digit :: remainder :: rest⟩
    | none => cursor
  | [] => cursor

end Cursor

/-- A reader takes tokens from a cursor and leaves it where it stopped, also when it
fails. -/
abbrev Reader := EStateM ParseError Cursor

namespace Reader

/-- The tokens that are left. -/
def remaining : Reader (List Token) :=
  return (← get).after

/-- The token just before the place. -/
def previous? : Reader (Option Token) :=
  return (← get).before.head?

/-- Moves over tokens. -/
def skip (count : Nat) : Reader Unit :=
  modify (Cursor.advance count)

/-- The next token, which is left in place. -/
def peek : Reader Token := do
  match ← remaining with
  | [] => throw .endOfInput
  | token :: _ => return token

/-- Takes the next token. -/
def take : Reader Token := do
  let token ← peek
  skip 1
  return token

/-- Moves over layout. -/
def skipLayout : Reader Unit := do
  skip (Token.layoutLength (← remaining))

/-- Takes the primes at the place and counts them. -/
def takePrimes : Reader Nat := do
  let count := Token.primeCount (← remaining)
  skip count
  return count

/-- Reads a list of its own from its start. The place of the surrounding reader
stays where it is. -/
def within {α : Type} (tokens : List Token) (reader : Reader α) : Reader α := fun cursor =>
  match reader (Cursor.ofTokens tokens) with
  | .ok value _ => .ok value cursor
  | .error cause _ => .error cause cursor

/-- Fails with the error of a result that is one. -/
def check {α : Type} : Except ParseError α → Reader α
  | .ok value => return value
  | .error cause => throw cause

/-- Reads items until the tokens are used up. An item that takes nothing is the last. -/
def untilEnd {α : Type} (item : Reader α) (cursor : Cursor) :
    EStateM.Result ParseError Cursor (List α) :=
  match cursor.after with
  | [] => .ok [] cursor
  | _ :: _ =>
    match item cursor with
    | .error cause stopped => .error cause stopped
    | .ok value next =>
      if next.after.length < cursor.after.length then
        match untilEnd item next with
        | .error cause stopped => .error cause stopped
        | .ok values last => .ok (value :: values) last
      else
        .ok [value] next
termination_by cursor.after.length

end Reader
end MathMarkup.Tex
