import MathMarkup.Tex.Lexer

/-!
# Passes over the tokens

What is done to the tokens before they are read. Space before or after a script mark
means nothing and is taken out. A macro is a command that stands for a piece of source;
macros are expanded once, and commands that a replacement brings in are left alone.
-/

namespace MathMarkup.Tex

/-- The token announces a script. No token announces none. -/
def announcesScript : Option Token → Bool
  | some token => token.isScriptMark
  | none => false

/-- Takes out the space beside script marks, given the token before the list. What
stands beside a space is looked up in the tokens as they were given. -/
def dropScriptSpacingAfter : Option Token → List Token → List Token
  | _, [] => []
  | previous, token :: rest =>
    if token.kind = .whitespace ∧ (announcesScript rest.head? ∨ announcesScript previous) then
      dropScriptSpacingAfter (some token) rest
    else
      token :: dropScriptSpacingAfter (some token) rest

/-- The tokens without the space that stands directly before or after a script mark. -/
def dropScriptSpacing (tokens : List Token) : List Token :=
  dropScriptSpacingAfter none tokens

/-- The replacement of each macro, named with its backslash, in the order in which
the names were first given. -/
abbrev MacroTable := List (String × String)

namespace MacroTable

/-- The replacement of a command. -/
def find? (table : MacroTable) (command : String) : Option String :=
  table.lookup command

/-- Gives a command a replacement. A name that is already there keeps its place. -/
def insert (command body : String) : MacroTable → MacroTable
  | [] => [(command, body)]
  | (name, known) :: rest =>
    if name = command then (name, body) :: rest else (name, known) :: insert command body rest

/-- A command that was given a replacement has it, and no other command changes. -/
theorem find?_insert (table : MacroTable) (command body other : String) :
    (insert command body table).find? other =
      if other = command then some body else table.find? other := by
  induction table with
  | nil => grind [insert, find?]
  | cons entry rest inductionHypothesis => grind [insert, find?]

/-- A macro name as a command: a missing backslash is put in front. -/
def commandOf (name : String) : String :=
  if name.toList.head? = some '\\' then name else String.ofList ('\\' :: name.toList)

/-- The table of definitions given under names with or without a backslash. Of two
definitions of one command the later counts. -/
def ofDefinitions (definitions : List (String × String)) : MacroTable :=
  definitions.foldl (fun table (name, body) => insert (commandOf name) body table) []

/-- The tokens that one token stands for. -/
def expandToken (table : MacroTable) (token : Token) : Except ParseError (List Token) :=
  if token.kind = .command then
    match table.find? token.value with
    | some body => tokenize body
    | none => .ok [token]
  else
    .ok [token]

/-- The tokens with every macro replaced by the tokens of its replacement. -/
def expand (table : MacroTable) : List Token → Except ParseError (List Token)
  | [] => .ok []
  | token :: rest => do
    let expansion ← table.expandToken token
    let expanded ← expand table rest
    return expansion ++ expanded

end MacroTable

end MathMarkup.Tex
