/-!
# Faults of data

What is wrong with a value and where. Faults are reported in the order of the written
form of their paths.
-/

namespace MathMarkup.Data

/-- One step from a value to a part of it. -/
inductive PathStep where
  | key (name : String)
  | index (position : Nat)
deriving DecidableEq, Repr

namespace PathStep

/-- A number below sixteen as a lower-case digit. -/
private def hexDigit (value : Nat) : Char :=
  if value < 10 then Char.ofNat (0x30 + value) else Char.ofNat (0x61 + (value - 10))

/-- A sixteen-bit unit as an escape. -/
private def unitEscape (unit : Nat) : List Char :=
  ['\\', 'u', hexDigit (unit / 4096 % 16), hexDigit (unit / 256 % 16), hexDigit (unit / 16 % 16),
   hexDigit (unit % 16)]

/-- A character inside a quoted name. Whatever is not printable and of the basic set is
escaped, above the sixteen-bit range as a pair of surrogates. -/
private def quotedCharacter (character : Char) : List Char :=
  match character with
  | '"' => ['\\', '"']
  | '\\' => ['\\', '\\']
  | '\n' => ['\\', 'n']
  | '\r' => ['\\', 'r']
  | '\t' => ['\\', 't']
  | '\x08' => ['\\', 'b']
  | '\x0c' => ['\\', 'f']
  | _ =>
    let point := character.toNat
    if 0x20 ≤ point ∧ point < 0x7f then [character]
    else if point = 0x7f then [character]
    else if point < 0x10000 then unitEscape point
    else
      unitEscape (0xd800 + (point - 0x10000) / 0x400)
        ++ unitEscape (0xdc00 + (point - 0x10000) % 0x400)

/-- The written form of a step. -/
def written : PathStep → String
  | key name => String.ofList ('"' :: name.toList.flatMap quotedCharacter ++ ['"'])
  | index position => toString position

end PathStep

/-- The way from a value to a part of it. -/
abbrev Path := List PathStep

/-- The written form of a path. -/
def Path.written (path : Path) : String :=
  "[" ++ ", ".intercalate (path.map PathStep.written) ++ "]"

/-- What is wrong with a value. -/
inductive FaultCause where
  /-- A required field is absent. -/
  | missing
  /-- A string is expected. -/
  | notString
  /-- A list is expected. -/
  | notList
  /-- A dictionary is expected. -/
  | notDictionary
  /-- An object with fixed fields is expected. -/
  | notRecord
  /-- A node is expected. -/
  | notNode
  /-- A node without a tag. -/
  | noTag
  /-- A tag that names no kind of node. -/
  | unknownTag
  /-- A word outside of a fixed set. -/
  | unknownWord
  /-- A truth value is expected. -/
  | notBoolean
  /-- A number or string that spells no truth value. -/
  | booleanSpelling
  /-- An integer is expected. -/
  | notInteger
  /-- A string that spells no integer. -/
  | integerSpelling
  /-- A number with a fraction where an integer is expected. -/
  | fraction
  /-- An integer below the least one that is allowed. -/
  | tooSmall
  /-- A wrong number of arguments. -/
  | arity (subject : String) (expected actual : Nat)
deriving DecidableEq, Repr

namespace FaultCause

/-- The word that names the cause in a report. -/
def word : FaultCause → String
  | missing => "missing"
  | notString => "string_type"
  | notList => "list_type"
  | notDictionary => "dict_type"
  | notRecord => "model_type"
  | notNode => "model_attributes_type"
  | noTag => "union_tag_not_found"
  | unknownTag => "union_tag_invalid"
  | unknownWord => "literal_error"
  | notBoolean => "bool_type"
  | booleanSpelling => "bool_parsing"
  | notInteger => "int_type"
  | integerSpelling => "int_parsing"
  | fraction => "int_from_float"
  | tooSmall => "greater_than_equal"
  | arity _ _ _ => "value_error"

/-- The sentence that explains the cause, where a report has one. -/
def message? : FaultCause → Option String
  | arity subject expected actual =>
    let noun := if expected = 1 then "argument" else "arguments"
    some s!"Value error, {subject} expects {expected} {noun}, got {actual}."
  | _ => none

end FaultCause

/-- A fault: what is wrong, and the way to it. -/
structure Fault where
  path : Path
  cause : FaultCause
deriving DecidableEq, Repr

/-- The faults in the order in which they are reported. -/
def Fault.sorted (faults : List Fault) : List Fault :=
  faults.mergeSort fun first second => first.path.written ≤ second.path.written

end MathMarkup.Data
