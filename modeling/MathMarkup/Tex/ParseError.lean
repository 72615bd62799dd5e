import MathMarkup.Tex.Token

/-!
# Errors of TeX source

Why a formula cannot be read. Each cause keeps the token it is reported at; the
wording of all of them is in `ParseError.message`.
-/

namespace MathMarkup.Tex

/-- The two ends of a delimited expression. -/
inductive Side where
  | left
  | right
deriving DecidableEq, Repr

/-- The command that stands before the delimiter of a side. -/
def Side.command : Side → String
  | .left => "\\left"
  | .right => "\\right"

/-- A lexical, structural or grammatical error. -/
inductive ParseError where
  /-- A command that takes text is not followed by a brace in the source. -/
  | noContent (command : Token)
  /-- An opening brace has no partner; in the source text it is not yet a token. -/
  | unmatchedBraces (opener : Option Token)
  /-- The bracket before the index of a root has no partner. -/
  | unmatchedBrackets (opener : Token)
  /-- A cell mark stands outside of an environment. -/
  | strayCellMark (mark : Token)
  /-- A second subscript on one base. -/
  | doubleSubscript (token : Token)
  /-- A second superscript on one base, or a prime after the superscript. -/
  | doubleSuperscript (token : Token)
  /-- An expression is expected and the tokens are used up. -/
  | endOfInput
  /-- The formula nests deeper than allowed. -/
  | tooDeep (limit : Int) (token : Token)
  /-- A closing brace without an opening one. -/
  | strayBrace (token : Token)
  /-- A control token that the grammar has no rule for. -/
  | unknownControl (token : Token)
  /-- A script mark at the end of the tokens. -/
  | missingScript (mark : Token)
  /-- A command lacks an argument; reported at the token before the gap. -/
  | missingArgument (command : String) (previous : Option Token)
  /-- A command that takes text lacks it; reported at the token before the gap. -/
  | missingContent (command : String) (previous : Option Token)
  /-- Half of a pair of commands without the other half. -/
  | unexpectedCommand (token : Token)
  /-- The tokens are used up where a delimiter is expected. -/
  | missingDelimiter (side : Side) (token : Token)
  /-- Something else stands where a delimiter is expected. -/
  | invalidDelimiter (side : Side) (token : Token)
  /-- An opening delimiter command without its partner. -/
  | unclosedDelimiters (token : Token)
  /-- An environment that is not closed. -/
  | unclosedEnvironment (token : Token)
  /-- An environment closed under another name. -/
  | mismatchedEnvironment (token : Token)
deriving DecidableEq, Repr

namespace ParseError

/-- The sentence that reports the error. -/
def message : ParseError → String
  | noContent command => s!"No content for {command.value} command"
  | unmatchedBraces _ => "Unmatched curly brackets"
  | unmatchedBrackets _ => "Unmatched square brackets"
  | strayCellMark _ => "Unexpected & outside of an alignment"
  | doubleSubscript _ => "Double subscript"
  | doubleSuperscript _ => "Double superscript"
  | endOfInput => "Unexpected end of input"
  | tooDeep limit _ => s!"Nesting deeper than {limit} levels"
  | strayBrace _ => "Unmatched '\x7d'"
  | unknownControl token => s!"Unknown control sequence: {token.value}"
  | missingScript mark => s!"Expecting script after '{mark.value}'"
  | missingArgument command _ => s!"Expecting argument for {command}"
  | missingContent command _ => s!"Expecting content for {command} command"
  | unexpectedCommand token => s!"Unexpected command: {token.value}"
  | missingDelimiter side _ => s!"Expecting delimiter after {side.command}"
  | invalidDelimiter side _ => s!"Invalid delimiter after {side.command}"
  | unclosedDelimiters _ => "No matching \\right"
  | unclosedEnvironment _ => "No matching \\end"
  | mismatchedEnvironment _ => "Mismatched \\begin and \\end environments"

/-- The token that the error is reported at. -/
def token? : ParseError → Option Token
  | noContent token | unmatchedBrackets token | strayCellMark token
  | doubleSubscript token | doubleSuperscript token | tooDeep _ token
  | strayBrace token | unknownControl token | missingScript token
  | unexpectedCommand token | missingDelimiter _ token | invalidDelimiter _ token
  | unclosedDelimiters token | unclosedEnvironment token
  | mismatchedEnvironment token => some token
  | unmatchedBraces token | missingArgument _ token | missingContent _ token => token
  | endOfInput => none

/-- The name of the class of errors that the error belongs to. -/
def label : ParseError → String
  | tooDeep _ _ => "MaxDepthExceededError"
  | _ => "LatexParserError"

end ParseError
end MathMarkup.Tex
