/-!
# Errors of a conversion

Why a tree has no counterpart in Typst. Each cause keeps the node it is reported at,
of whichever language the tree is.
-/

namespace MathMarkup.Conversion

/-- A node that cannot be converted. -/
inductive ConvertError (Source : Type) where
  /-- A command that is not known. -/
  | unknownMacro (command : String) (node : Source)
  /-- A control token that has no counterpart. -/
  | unknownControl (content : String) (node : Source)
  /-- An operator name that is not text. -/
  | operatorWithoutText (node : Source)
  /-- A kind of node that has no counterpart. -/
  | unsupportedKind (kind : String) (node : Source)

namespace ConvertError

variable {Source : Type}

/-- The sentence that reports the error. -/
def message : ConvertError Source → String
  | unknownMacro command _ => s!"Unknown macro: {command}"
  | unknownControl content _ => s!"Unknown control sequence: {content}"
  | operatorWithoutText _ => "Expecting a text argument for \\operatorname"
  | unsupportedKind kind _ => s!"Unimplemented node type: {kind}"

/-- The node that the error is reported at. -/
def node : ConvertError Source → Source
  | unknownMacro _ node | unknownControl _ node | operatorWithoutText node
  | unsupportedKind _ node => node

/-- The name of the class of errors that the error belongs to. -/
def label : ConvertError Source → String
  | unknownMacro _ _ => "UnknownMacroError"
  | _ => "ConverterError"

end ConvertError
end MathMarkup.Conversion
