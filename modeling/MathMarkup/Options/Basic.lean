import MathMarkup.Data.Scalar
import MathMarkup.Tex.Passes

/-!
# Options

What a caller can choose for a conversion. Options are read from data field by field;
fields that are absent come from defaults.
-/

namespace MathMarkup

open Data

/-- The choices for a conversion. -/
structure Options where
  /-- Commands that are not known are passed through instead of refused. -/
  nonStrict : Bool := false
  /-- An operator that Typst has a symbol for is written as that symbol. -/
  preferIntrinsic : Bool := true
  /-- Macros that are replaced before a formula is read. -/
  macros : Tex.MacroTable := []
  /-- The deepest nesting that is read. -/
  maxDepth : Nat := 128
deriving DecidableEq, Repr

namespace Options

/-- The definitions of macros that the fields of a dictionary give. -/
def definitionsOfFields : List (String × Value) → Checked (List (String × String))
  | [] => .ok []
  | (name, value) :: rest =>
    (Checked.both ((Checked.string value).under (.key name)) (definitionsOfFields rest)).map
      fun (body, definitions) => (name, body) :: definitions

/-- The macros that a dictionary gives. -/
def macrosOfValue : Value → Checked Tex.MacroTable
  | .object fields => (definitionsOfFields fields).map Tex.MacroTable.ofDefinitions
  | _ => .fault .notDictionary

/-- The options that fields give. Unknown fields are passed over. -/
def ofFields (fields : List (String × Value)) : Checked Options :=
  let builtIn : Options := {}
  (Checked.both
    (Checked.optional "non_strict" builtIn.nonStrict
      ((fields.lookup "non_strict").map Checked.truth)) <|
    Checked.both
      (Checked.optional "prefer_typst_intrinsic" builtIn.preferIntrinsic
        ((fields.lookup "prefer_typst_intrinsic").map Checked.truth)) <|
      Checked.both
        (Checked.optional "custom_tex_macros" builtIn.macros
          ((fields.lookup "custom_tex_macros").map macrosOfValue))
        (Checked.optional "max_depth" builtIn.maxDepth
          ((fields.lookup "max_depth").map Checked.positive))).map
    fun (nonStrict, preferIntrinsic, macros, maxDepth) =>
      { nonStrict, preferIntrinsic, macros, maxDepth }

/-- The options that a value stands for. -/
def ofValue : Value → Checked Options
  | .object fields => ofFields fields
  | _ => .fault .notRecord

/-- The options as fields, all of them. -/
def toFields (options : Options) : List (String × Value) :=
  [("non_strict", .bool options.nonStrict),
   ("prefer_typst_intrinsic", .bool options.preferIntrinsic),
   ("custom_tex_macros", .object (options.macros.map fun (name, body) => (name, .str body))),
   ("max_depth", .int options.maxDepth)]

/-- The options as a value. -/
def toValue (options : Options) : Value :=
  .object (toFields options)

/-- Some fields over defaults: a field that is given counts, any other is the default. -/
def overlay (defaults : Options) (fields : List (String × Value)) : Checked Options :=
  ofFields (fields ++ defaults.toFields)

/-- The options of a call: the defaults, with the given fields over them if there are any. -/
def resolve (defaults : Options) : Option (List (String × Value)) → Checked Options
  | none => .ok defaults
  | some fields => defaults.overlay fields

end Options
end MathMarkup
