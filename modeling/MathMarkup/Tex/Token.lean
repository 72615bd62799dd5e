/-!
# Tokens of TeX math source

A token is a lexical unit: its kind and its text. Tokens relate to each other only
by their order.
-/

namespace MathMarkup.Tex

/-- What a token is to the grammar. -/
inductive TokenKind where
  | element
  | command
  | text
  | comment
  | whitespace
  | newline
  | control
  | unknown
deriving DecidableEq, Repr

namespace TokenKind

/-- The word that names a kind in written data. -/
def word : TokenKind → String
  | element => "element"
  | command => "command"
  | text => "text"
  | comment => "comment"
  | whitespace => "whitespace"
  | newline => "newline"
  | control => "control"
  | unknown => "unknown"

/-- Every kind once. -/
def all : List TokenKind :=
  [element, command, text, comment, whitespace, newline, control, unknown]

/-- The kind that a word names. -/
def ofWord? (name : String) : Option TokenKind :=
  all.find? fun kind => kind.word == name

/-- A kind is found by its own word. -/
@[simp]
theorem ofWord?_word (kind : TokenKind) : ofWord? kind.word = some kind := by
  cases kind <;> decide

end TokenKind

/-- One lexical unit of TeX math source. -/
structure Token where
  kind : TokenKind
  value : String
deriving DecidableEq, Repr

namespace Token

/-- The brace that opens a group. -/
def openBrace : Token := ⟨.control, "\x7b"⟩

/-- The brace that closes a group. -/
def closeBrace : Token := ⟨.control, "\x7d"⟩

/-- The bracket that opens the index of a root. -/
def openBracket : Token := ⟨.element, "["⟩

/-- The bracket that closes the index of a root. -/
def closeBracket : Token := ⟨.element, "]"⟩

/-- The command before an opening delimiter. -/
def left : Token := ⟨.command, "\\left"⟩

/-- The command before a closing delimiter. -/
def right : Token := ⟨.command, "\\right"⟩

/-- The command that opens an environment. -/
def beginEnvironment : Token := ⟨.command, "\\begin"⟩

/-- The command that closes an environment. -/
def endEnvironment : Token := ⟨.command, "\\end"⟩

/-- The prime mark. -/
def prime : Token := ⟨.element, "'"⟩

/-- Space and line breaks between tokens. -/
def isLayout (token : Token) : Bool :=
  token.kind == .whitespace || token.kind == .newline

/-- How many layout tokens stand at the front. -/
def layoutLength (tokens : List Token) : Nat :=
  (tokens.takeWhile isLayout).length

/-- How many prime marks stand at the front. -/
def primeCount (tokens : List Token) : Nat :=
  (tokens.takeWhile (· == prime)).length

/-- The two places where a script can be attached to its base. -/
inductive ScriptMark where
  | subscript
  | superscript
deriving DecidableEq, Repr

/-- The script that a token announces. -/
def scriptMark? (token : Token) : Option ScriptMark :=
  if token = ⟨.control, "_"⟩ then some .subscript
  else if token = ⟨.control, "^"⟩ then some .superscript
  else none

/-- The token announces a script. -/
def isScriptMark (token : Token) : Bool :=
  token.scriptMark?.isSome

end Token
end MathMarkup.Tex
