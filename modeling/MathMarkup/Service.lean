import MathMarkup.Formula
import MathMarkup.Text.CharacterClass

/-!
# The conversion service

What the service answers to a request for a conversion, whatever carries the request.
-/

namespace MathMarkup.Service

open Data

/-- The answer to the question whether the service is up. -/
def greeting : String := "tex2typst API is running."

/-- A formula to convert, with options of its own or the defaults. -/
structure Request where
  source : String
  options : Option Options

/-- Options, or null. -/
def optionsOrNull : Value → Checked (Option Options)
  | .null => .ok none
  | value => (Options.ofValue value).map some

/-- The request that a value stands for. -/
def Request.ofValue : Value → Checked Request
  | .object fields =>
    (Checked.both
      (Checked.required "tex" ((fields.lookup "tex").map Checked.string))
      (Checked.optional "options" none ((fields.lookup "options").map optionsOrNull))).map
      fun (source, options) => { source, options }
  | _ => .fault .notRecord

/-- The answer to a request. -/
inductive Response where
  /-- The request is not well formed. -/
  | malformed (faults : List Fault)
  /-- The formula cannot be converted. -/
  | refused (detail : String)
  /-- The text of the formula, and the log of the conversion. -/
  | converted (text log : String)

/-- The answer that tells what became of a formula. -/
def Response.ofReport (report : Formula.Report) : Response :=
  match report.outcome with
  | .ok text => .converted text ("\n".intercalate report.log)
  | .error failure => .refused failure.summary

/-- The answer to a well-formed request. Options that are given are taken as they are. -/
def answer (defaults : Options) (request : Request) : Response :=
  if request.source.toList.all Text.isBlank then .refused "TeX input cannot be empty."
  else .ofReport (Formula.run (request.options.getD defaults) Symbol.standard request.source)

/-- The answer to a request given as data. -/
def respond (defaults : Options) (body : Value) : Response :=
  match Request.ofValue body with
  | .ok request => answer defaults request
  | .error faults => .malformed faults

end MathMarkup.Service
