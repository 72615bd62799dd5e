import MathMarkup.Tex.Token

/-!
# Commands and delimiters

How many arguments a command takes, and what can stand after the commands for
delimiters.
-/

namespace MathMarkup.Tex

/-- Commands with one argument, by their names. -/
def unaryCommands : List String :=
  ["sqrt", "text", "operatorname", "bar", "boldsymbol", "ddot", "dot", "hat", "mathbb", "mathbf",
   "mathcal", "mathfrak", "mathit", "mathrm", "mathscr", "mathsf", "mathtt", "overbrace",
   "overline", "pmb", "tilde", "underbrace", "underline", "vec", "widehat", "widetilde"]

/-- Commands with two arguments, by their names. -/
def binaryCommands : List String :=
  ["frac", "dfrac", "tfrac", "binom", "dbinom", "tbinom"]

/-- The number of arguments of a command. -/
inductive Arity where
  | constant
  | unary
  | binary
deriving DecidableEq, Repr

namespace Arity

/-- The arity of the command with the given name. -/
def ofName (name : String) : Arity :=
  if unaryCommands.contains name then unary
  else if binaryCommands.contains name then binary
  else constant

/-- The arity as a number. -/
def toNat : Arity → Nat
  | constant => 0
  | unary => 1
  | binary => 2

end Arity

/-- Elements that can be delimiters. -/
def delimiterElements : List String :=
  ["(", ")", "[", "]", "|", ".", "\\\x7b", "\\\x7d", "\\|"]

/-- Commands that can be delimiters. -/
def delimiterCommands : List String :=
  ["\\lfloor", "\\rfloor", "\\lceil", "\\rceil", "\\langle", "\\rangle", "\\lvert", "\\rvert",
   "\\lVert", "\\rVert", "\\vert", "\\Vert", "\\lbrace", "\\rbrace", "\\lbrack", "\\rbrack"]

/-- The token can be a delimiter. -/
def Token.isDelimiter (token : Token) : Bool :=
  match token.kind with
  | .element => delimiterElements.contains token.value
  | .command => delimiterCommands.contains token.value
  | _ => false

end MathMarkup.Tex
