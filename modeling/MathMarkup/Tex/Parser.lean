import MathMarkup.Symbol
import MathMarkup.Tex.Brackets
import MathMarkup.Tex.Command
import MathMarkup.Tex.Cursor
import MathMarkup.Tex.Grid
import MathMarkup.Tex.Passes

/-!
# Reading a formula

The grammar of TeX math as readers. `operand` reads one operand: a token, a group, a
command with its arguments, a delimited expression or an environment. `scripted`
reads an operand with its scripts, and `sequence` and `grid` read everything that is
left. Whatever stands inside an operand is read with one level less of nesting, so
the nesting that is allowed bounds the recursion.
-/

namespace MathMarkup.Tex

/-- What a formula may hold and what is kept of it. -/
structure ParseOptions where
  /-- Space between the parts of a sequence stays in the tree. -/
  keepSpace : Bool := false
  /-- Line breaks between the parts of a sequence stay in the tree. -/
  keepNewlines : Bool := true
  /-- The commands without arguments that are known. -/
  symbols : Symbol.Table := Symbol.standard
  /-- The deepest nesting that is read. -/
  maxDepth : Int := 128

namespace Parser

/-- The offset of the token that closes an opener, in the tokens after it. -/
def closing? (opener closer : Token) (tokens : List Token) : Option Nat :=
  Nesting.closingOffset? (· == opener) (· == closer) tokens

/-- The offset of the brace that belongs to an opening brace. -/
def closingBrace (opener : Token) (tokens : List Token) : Except ParseError Nat :=
  match closing? .openBrace .closeBrace tokens with
  | some offset => .ok offset
  | none => .error (.unmatchedBraces (some opener))

/-- The offset of the bracket that belongs to an opening bracket. -/
def closingBracket (opener : Token) (tokens : List Token) : Except ParseError Nat :=
  match closing? .openBracket .closeBracket tokens with
  | some offset => .ok offset
  | none => .error (.unmatchedBrackets opener)

/-- The scripts of a base: its primes, its subscript and its superscript. -/
structure Scripts where
  primes : Nat := 0
  sub : Option Node := none
  sup : Option Node := none

namespace Scripts

/-- The primes and the superscript as one superscript. -/
def superscript (scripts : Scripts) : Option Node :=
  match scripts.primes with
  | 0 => scripts.sup
  | count => some (.group (List.replicate count (.symbol "\\prime") ++ scripts.sup.toList))

/-- The base with the scripts; a base without scripts stays as it is. -/
def attach (scripts : Scripts) (base : Node) : Node :=
  match scripts.superscript, scripts.sub with
  | none, none => base
  | sup, sub => .supsub "" base sup sub

end Scripts

/-- Refuses a prime after the superscript. -/
def refusePrime : Reader Unit := do
  match ← Reader.remaining with
  | token :: _ => if token = .prime then throw (.doubleSuperscript token)
  | [] => return

/-- Refuses a script mark after the scripts. -/
def refuseScriptMark : Reader Unit := do
  match ← Reader.remaining with
  | token :: _ =>
    match token.scriptMark? with
    | some .subscript => throw (.doubleSubscript token)
    | some .superscript => throw (.doubleSuperscript token)
    | none => return
  | [] => return

/-- Reads a script if the given mark announces it. -/
def script? (operand : Reader Node) (mark : Token.ScriptMark) : Reader (Option Node) := do
  match ← Reader.remaining with
  | token :: rest =>
    if token.scriptMark? = some mark then
      Reader.skip 1
      if rest.isEmpty then throw (.missingScript token)
      return some (← operand)
    else
      return none
  | [] => return none

/-- Reads the scripts after a base. A subscript and a superscript may come in either
order, each once; primes belong before the superscript. -/
def scripts (operand : Reader Node) : Reader Scripts := do
  let primes ← Reader.takePrimes
  match ← script? operand .subscript with
  | some sub =>
    let morePrimes ← Reader.takePrimes
    let sup ← script? operand .superscript
    if sup.isSome then refusePrime
    return { primes := primes + morePrimes, sub := some sub, sup }
  | none =>
    match ← script? operand .superscript with
    | some sup =>
      refusePrime
      let sub ← script? operand .subscript
      if sub.isSome then refusePrime
      return { primes, sub, sup := some sup }
    | none => return { primes }

/-- Reads an operand with its scripts. -/
def scripted (operand : Reader Node) : Reader Node := do
  let base ← operand
  let attached ← scripts operand
  refuseScriptMark
  return attached.attach base

/-- Reads one part of a sequence. A cell mark is no part. -/
def part (operand : Reader Node) : Reader Node := do
  let first ← Reader.peek
  let node ← scripted operand
  if Grid.isCellMark node then throw (.strayCellMark first)
  return node

/-- The part of a sequence is kept in the tree. -/
def keeps (options : ParseOptions) : Node → Bool
  | .leaf .whitespace _ => options.keepSpace
  | .leaf .newline _ => options.keepNewlines
  | _ => true

/-- Reads all tokens as one formula. -/
def sequence (options : ParseOptions) (operand : Reader Node) : Reader Node := do
  let parts ← Reader.untilEnd (part operand)
  return .group (parts.filter (keeps options))

/-- Reads all tokens as rows of cells. -/
def grid (operand : Reader Node) : Reader (List (List Node)) := do
  return Grid.ofParts (← Reader.untilEnd (scripted operand))

/-- Reads an argument of a command, after any layout. Of a number without braces it
takes one digit. -/
def argument (operand : Reader Node) (command : String) : Reader Node := do
  let previous ← Reader.previous?
  Reader.skipLayout
  match ← Reader.remaining with
  | [] => throw (.missingArgument command previous)
  | token :: _ =>
    if token = .closeBrace then throw (.missingArgument command previous)
    modify Cursor.splitNumber
    operand

/-- The braced text at the front of the tokens. -/
def bracedText? : List Token → Option String
  | opener :: content :: closer :: _ =>
    if opener = .openBrace ∧ content.kind = .text ∧ closer = .closeBrace then some content.value
    else none
  | _ => none

/-- Takes the braced text after a command. -/
def textArgument (command : String) : Reader String := do
  match bracedText? (← Reader.remaining) with
  | some content =>
    Reader.skip 3
    return content
  | none => throw (.missingContent command (← Reader.previous?))

/-- Takes the index of a root, if a bracket follows. -/
def rootIndex? (options : ParseOptions) (operand : Reader Node) : Reader (Option Node) := do
  let tokens ← Reader.remaining
  match tokens.dropWhile Token.isLayout with
  | opener :: rest =>
    if opener = .openBracket then
      let offset ← Reader.check (closingBracket opener rest)
      let index ← Reader.within (rest.take offset) (sequence options operand)
      Reader.skip (Token.layoutLength tokens + offset + 2)
      return some index
    else
      return none
  | [] => return none

/-- Reads the arguments of a command of one argument. -/
def unaryCommand (options : ParseOptions) (operand : Reader Node) (command : String) :
    Reader Node := do
  if command = "\\text" then
    return .text (← textArgument command)
  else if command = "\\operatorname" then
    return .unaryFunc command (.text (← textArgument command)) none
  else
    let index ← if command = "\\sqrt" then rootIndex? options operand else pure none
    return .unaryFunc command (← argument operand command) index

/-- Reads a command with its arguments. A command without arguments is a symbol if it
is known. -/
def command (options : ParseOptions) (operand : Reader Node) : Reader Node := do
  let token ← Reader.take
  let name := String.ofList (token.value.toList.drop 1)
  if ["left", "right", "begin", "end"].contains name then throw (.unexpectedCommand token)
  match Arity.ofName name with
  | .constant =>
    return .leaf (if options.symbols.knows name then .symbol else .unknownMacro) token.value
  | .unary => unaryCommand options operand token.value
  | .binary =>
    let first ← argument operand token.value
    let second ← argument operand token.value
    return .binaryFunc token.value first second

/-- The node of a delimiter. -/
def delimiter (token : Token) : Node :=
  .leaf (if token.kind = .command then .symbol else .element) token.value

/-- The delimiter at the front of the tokens, after any layout, with the number of
tokens up to its end. -/
def delimiterAfter (side : Side) (command : Token) (tokens : List Token) :
    Except ParseError (Node × Nat) :=
  match tokens.dropWhile Token.isLayout with
  | [] => .error (.missingDelimiter side command)
  | token :: _ =>
    if token.isDelimiter then .ok (delimiter token, Token.layoutLength tokens + 1)
    else .error (.invalidDelimiter side token)

/-- Reads a formula between delimiters. -/
def leftRight (options : ParseOptions) (operand : Reader Node) : Reader Node := do
  let opener ← Reader.take
  let tokens ← Reader.remaining
  let (opening, bodyStart) ← Reader.check (delimiterAfter .left opener tokens)
  match closing? .left .right tokens with
  | none => throw (.unclosedDelimiters opener)
  | some offset =>
    let after := tokens.drop (offset + 1)
    let (closing, length) ← Reader.check (delimiterAfter .right .right after)
    let body ← Reader.within ((tokens.take offset).drop bodyStart) (sequence options operand)
    Reader.skip (offset + 1 + length)
    return .leftright "" opening body closing

/-- The number of tokens of the column specification that an array may start with. -/
def columnSpecificationLength (environment : String) (tokens : List Token) :
    Except ParseError Nat :=
  match tokens with
  | opener :: rest =>
    if environment = "array" ∧ opener = .openBrace then
      (closingBrace opener rest).map (· + 2)
    else
      .ok 0
  | [] => .ok 0

/-- The tokens without the layout at their end. -/
def withoutTrailingLayout (tokens : List Token) : List Token :=
  (tokens.reverse.dropWhile Token.isLayout).reverse

/-- Refuses the end of an environment unless it repeats the name. The tokens are those
after the command that ends it. -/
def checkEnd (name : String) (tokens : List Token) : Except ParseError Unit :=
  match bracedText? tokens with
  | none => .error (.missingContent "\\end" (some .endEnvironment))
  | some closing =>
    if closing = name then .ok () else .error (.mismatchedEnvironment .endEnvironment)

/-- Reads an environment. -/
def environment (operand : Reader Node) : Reader Node := do
  let opener ← Reader.take
  let name ← textArgument "\\begin"
  let tokens ← Reader.remaining
  let columns ← Reader.check (columnSpecificationLength name tokens)
  let bodyStart := columns + Token.layoutLength (tokens.drop columns)
  match closing? .beginEnvironment .endEnvironment tokens with
  | none => throw (.unclosedEnvironment opener)
  | some offset =>
    Reader.check (checkEnd name (tokens.drop (offset + 1)))
    let body := withoutTrailingLayout ((tokens.take offset).drop bodyStart)
    let rows ← Reader.within body (grid operand)
    Reader.skip (offset + 4)
    return .beginend name rows

/-- Reads the formula between braces. -/
def bracedGroup (options : ParseOptions) (operand : Reader Node) : Reader Node := do
  let opener ← Reader.take
  let tokens ← Reader.remaining
  let offset ← Reader.check (closingBrace opener tokens)
  let body ← Reader.within (tokens.take offset) (sequence options operand)
  Reader.skip (offset + 1)
  return body

/-- Takes the next token as a leaf. -/
def leaf (kind : LeafKind) (content : String) : Reader Node := do
  Reader.skip 1
  return .leaf kind content

/-- Reads what a control token starts. A script mark without a base is left in place
after an empty formula. -/
def control (options : ParseOptions) (operand : Reader Node) (token : Token) : Reader Node :=
  match token.value with
  | "\x7b" => bracedGroup options operand
  | "\x7d" => throw (.strayBrace token)
  | "\\\\" | "\\," | "&" => leaf .control token.value
  | "_" | "^" => return .empty
  | _ => throw (.unknownControl token)

/-- Reads one operand, given the reader for the operands inside it. -/
def operandOver (options : ParseOptions) (inner : Reader Node) : Reader Node := do
  let token ← Reader.peek
  match token.kind with
  | .element | .unknown => leaf .element token.value
  | .text => leaf .text token.value
  | .comment => leaf .comment token.value
  | .whitespace => leaf .whitespace token.value
  | .newline => leaf .newline "\n"
  | .command =>
    if token = .beginEnvironment then environment inner
    else if token = .left then leftRight options inner
    else command options inner
  | .control => control options inner token

/-- Refuses an operand below the deepest level. -/
def refuseOperand (options : ParseOptions) : Reader Node := do
  let token ← Reader.peek
  throw (.tooDeep options.maxDepth token)

/-- Reads one operand with the given number of levels left. -/
def operandAt (options : ParseOptions) : Nat → Reader Node
  | 0, cursor => refuseOperand options cursor
  | depth + 1, cursor => operandOver options (operandAt options depth) cursor

/-- Reads one operand. -/
def operand (options : ParseOptions) : Reader Node :=
  operandAt options options.maxDepth.toNat

end Parser

/-- The formula of a list of tokens. -/
def parseTokens (options : ParseOptions) (tokens : List Token) : Except ParseError Node :=
  match Parser.sequence options (Parser.operand options) (Cursor.ofTokens tokens) with
  | .ok node _ => .ok node
  | .error cause _ => .error cause

/-- The tokens of a source text that are read: without the space beside script marks,
and with the macros replaced. -/
def sourceTokens (macros : MacroTable) (source : String) : Except ParseError (List Token) := do
  let tokens ← tokenize source
  macros.expand (dropScriptSpacing tokens)

/-- The formula of a source text. -/
def parseSource (options : ParseOptions) (macros : MacroTable) (source : String) :
    Except ParseError Node := do
  let tokens ← sourceTokens macros source
  parseTokens options tokens

end MathMarkup.Tex
