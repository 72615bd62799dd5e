import MathMarkup.Conversion.Tree
import MathMarkup.Options.Basic
import MathMarkup.Tex.Parser
import MathMarkup.Typst.Writer

/-!
# From source to text

`Formula.run` takes a formula from TeX source to Typst text and notes each stage in a
log. A failure ends the run; it is noted too.
-/

namespace MathMarkup

/-- Why a formula has no text. -/
inductive Failure where
  | parse (cause : Tex.ParseError)
  | convert (cause : Conversion.ConvertError Tex.Node)
  | write (cause : Typst.WriteError)

namespace Failure

/-- The sentence that reports the failure. -/
def message : Failure → String
  | parse cause => cause.message
  | convert cause => cause.message
  | write cause => cause.message

/-- The name of the class of errors that the failure belongs to. -/
def label : Failure → String
  | parse cause => cause.label
  | convert cause => cause.label
  | write cause => cause.label

/-- The failure in one line. -/
def summary (failure : Failure) : String :=
  s!"{failure.label}: {failure.message}"

end Failure

namespace Formula

/-- A stage can fail, and notes what it did. -/
abbrev Stage := EStateM Failure (List String)

/-- Notes a line. -/
def note (line : String) : Stage Unit :=
  modify (· ++ [line])

/-- The line for a command that is passed through. -/
def warning (command : String) : String :=
  s!"[WARNING] Unknown macro {command} passed through as-is."

/-- A stage of reading. -/
def reading {α : Type} : Except Tex.ParseError α → Stage α
  | .ok value => return value
  | .error cause => throw (.parse cause)

/-- The stage of conversion, with a warning for each command that is passed through. -/
def converting (converter : Conversion.Converter Tex.Node Typst.Node) : Stage Typst.Node := do
  match converter [] with
  | .ok node passed =>
    modify (· ++ passed.map warning)
    return node
  | .error cause passed =>
    modify (· ++ passed.map warning)
    throw (.convert cause)

/-- The stage of writing. -/
def writing : Except Typst.WriteError String → Stage String
  | .ok text => return text
  | .error cause => throw (.write cause)

/-- All stages, in order. -/
def stages (options : Options) (symbols : Symbol.Table) (source : String) : Stage String := do
  let tokens ← reading (Tex.tokenize source)
  note s!"[TOKENIZE] {tokens.length} tokens."
  let tokens ← reading (options.macros.expand (Tex.dropScriptSpacing tokens))
  note s!"[PASSES] {tokens.length} tokens after whitespace elision and {options.macros.length} custom macro(s)."
  let tree ← reading (Tex.parseTokens { symbols, maxDepth := options.maxDepth } tokens)
  note s!"[PARSE] Root node: {tree.word}."
  let converted ← converting <| Conversion.convert
    { passUnknown := options.nonStrict, preferIntrinsic := options.preferIntrinsic, symbols } tree
  note s!"[CONVERT] Root node: {converted.word}."
  let text ← writing (Typst.write converted)
  note s!"[WRITE] {text.length} characters."
  return text

/-- What became of a formula, and the log of it. -/
structure Report where
  outcome : Except Failure String
  log : List String

/-- Takes a formula through all stages. -/
def run (options : Options) (symbols : Symbol.Table) (source : String) : Report :=
  match stages options symbols source [] with
  | .ok text log => ⟨.ok text, log⟩
  | .error failure log => ⟨.error failure, log ++ [s!"[ERROR] {failure.summary}"]⟩

end Formula
end MathMarkup
