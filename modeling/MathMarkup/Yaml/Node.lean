import MathMarkup.Yaml.Scalar

/-!
# YAML documents

What a document says, once its notation is read: scalars, sequences and mappings. The
keys of a mapping can be other scalars than strings, which data objects do not have.
-/

namespace MathMarkup.Yaml

open Data

/-- A document or a part of one. -/
inductive Node where
  | scalar (value : Scalar)
  | sequence (items : List Node)
  | mapping (entries : List (Node × Node))
deriving Inhabited

namespace Node

/-- What an absent node stands for. -/
def null : Node := .scalar .null

/-- The string that a key is. -/
def key? : Node → Option String
  | scalar (.str name) => some name
  | _ => none

/-- The node can be a key. -/
def isKey : Node → Bool
  | scalar _ => true
  | _ => false

/-- The fields of entries whose keys are all strings. -/
def namedFields? : List (Option String × Value) → Option (List (String × Value))
  | [] => some []
  | (none, _) :: _ => none
  | (some name, value) :: rest => (namedFields? rest).map ((name, value) :: ·)

/-- An object of entries; of two entries with one key the later counts. Other keys than
strings make a value that no field takes. -/
def objectOf (entries : List (Option String × Value)) : Value :=
  match namedFields? entries with
  | some fields => .object (Value.fieldsOfPairs fields)
  | none => .other

mutual

/-- The document as data. -/
def toValue : Node → Value
  | scalar value => value.toValue
  | sequence items => .list (toValues items)
  | mapping entries => objectOf (toEntries entries)

/-- The items of a sequence as data. -/
def toValues : List Node → List Value
  | [] => []
  | node :: rest => node.toValue :: toValues rest

/-- The entries of a mapping as data. -/
def toEntries : List (Node × Node) → List (Option String × Value)
  | [] => []
  | (key, value) :: rest => (key.key?, value.toValue) :: toEntries rest

end

/-- The value of the last entry with the given key. -/
def lookup? (name : String) (entries : List (Node × Node)) : Option Node :=
  (entries.reverse.find? fun entry => entry.1.key? == some name).map (·.2)

end Node
end MathMarkup.Yaml
