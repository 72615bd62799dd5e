/-!
# Data values

What requests and configuration files are made of: the values of JSON, and one value
for all that only other formats have.
-/

namespace MathMarkup.Data

/-- A value of a request or a configuration file. -/
inductive Value where
  | null
  | bool (value : Bool)
  | int (value : Int)
  /-- A number written with a fraction: an integer over a power of ten. -/
  | decimal (mantissa : Int) (places : Nat)
  | str (value : String)
  | list (items : List Value)
  /-- An object; no name occurs twice. -/
  | object (fields : List (String × Value))
  /-- A value of a kind that no field takes, such as a date. -/
  | other
deriving Inhabited

namespace Value

/-- A string, or null. -/
def ofOptionalString : Option String → Value
  | some value => .str value
  | none => .null

/-- Gives a name its value. A name that is already there keeps its place. -/
def setField {α : Type} (name : String) (value : α) : List (String × α) → List (String × α)
  | [] => [(name, value)]
  | (known, old) :: rest =>
    if known = name then (known, value) :: rest else (known, old) :: setField name value rest

/-- The fields of pairs; of two pairs with one name the later counts. -/
def fieldsOfPairs {α : Type} (pairs : List (String × α)) : List (String × α) :=
  pairs.foldl (fun fields (name, value) => setField name value fields) []

end Value
end MathMarkup.Data
