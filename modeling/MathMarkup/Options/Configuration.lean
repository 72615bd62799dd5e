import MathMarkup.Options.Basic
import MathMarkup.Yaml.Reader

/-!
# Configuration files

The defaults of the options are read from the section `options` of a YAML file. A file
that is absent or says nothing leaves the built-in defaults; one that cannot be made
sense of does too, with a warning.
-/

namespace MathMarkup.Configuration

open Data

/-- The value says nothing: null, false, zero, or an empty text or collection. -/
def saysNothing : Yaml.Node → Bool
  | .scalar .null | .scalar (.bool false) => true
  | .scalar (.int value) => value == 0
  | .scalar (.decimal mantissa _) => mantissa == 0
  | .scalar (.str text) => text == ""
  | .scalar _ => false
  | .sequence items => items.isEmpty
  | .mapping entries => entries.isEmpty

/-- The fields of the section with the options; none if the document or the section is
no mapping, or names an option by something else than a string. -/
def section? (document : Yaml.Node) : Option (List (String × Value)) :=
  if saysNothing document then some []
  else
    match document with
    | .mapping entries =>
      match Yaml.Node.lookup? "options" entries with
      | none => some []
      | some options =>
        if saysNothing options then some []
        else
          match options.toValue with
          | .object fields => some fields
          | _ => none
    | _ => none

/-- The options that a document gives, if it is in order. -/
def options? (document : Yaml.Node) : Option Options :=
  match section? document with
  | none => none
  | some fields => (Options.ofFields fields).toOption

/-- The options of a configuration, with the warning that goes with them. -/
structure Loaded where
  options : Options := {}
  warning : Option String := none
deriving DecidableEq, Repr

/-- The warning about a file that is not in order. -/
def malformed (name : String) : String :=
  s!"⚠️ {name} is malformed, using built-in defaults."

/-- The options that the text of a file gives, by a reader of documents. -/
def ofText (read : String → Option Yaml.Node) (name source : String) : Loaded :=
  match (read source).bind options? with
  | some options => { options }
  | none => { warning := some (malformed name) }

/-- Why a configuration cannot be loaded at all. -/
inductive LoadError where
  /-- The bytes of the file are no text. -/
  | notText
deriving DecidableEq, Repr

/-- The options that a file gives, by a reader of documents; without a file, the built-in ones.
The bytes are decoded as a whole before the document is read. A reader that decodes a long
file in blocks can meet an error of the document before it comes to a stray byte in a later
block; it then gives the warning where loading fails here. -/
def loadBy (read : String → Option Yaml.Node) (name : String) :
    Option ByteArray → Except LoadError Loaded
  | none => .ok {}
  | some bytes =>
    match String.fromUTF8? bytes with
    | some source => .ok (ofText read name source)
    | none => .error .notText

/-- The options that a file gives. -/
def load (name : String) (file : Option ByteArray) : Except LoadError Loaded :=
  loadBy Yaml.read name file

end MathMarkup.Configuration
