import MathMarkup.Symbol

/-!
# Spelling of leaves

How Typst spells an element or a command of TeX. Every text has a spelling: a command
that is not known keeps its bare name.
-/

namespace MathMarkup.Conversion

/-- Signs that Typst spells in another way. -/
def signSpellings : List (String × String) :=
  [("/", "\\/"), ("\\|", "parallel"), ("\\\\", "\\"), ("\\\x7b", "\x7b"), ("\\\x7d", "\x7d"),
   ("\\%", "%")]

/-- Escaped signs that need their escape in Typst too. -/
def keptEscapes : List String := ["\\$", "\\#", "\\&", "\\_"]

/-- The spelling of an element, or of a command with its backslash. -/
def spell (symbols : Symbol.Table) (token : String) : String :=
  match signSpellings.lookup token with
  | some spelling => spelling
  | none =>
    if keptEscapes.contains token then token
    else
      match token.toList with
      | '\\' :: first :: rest =>
        let name := String.ofList (first :: rest)
        (symbols.find? name).getD name
      | _ => token

end MathMarkup.Conversion
