import MathMarkup.Data.Fault
import MathMarkup.Data.Value

/-!
# Checked values

A value that is checked is what it stands for, or all faults that were found in it.
Checks of separate parts are joined with `both`, so that no fault hides another.
-/

namespace MathMarkup.Data

/-- What a value stands for, or its faults. -/
abbrev Checked (α : Type) := Except (List Fault) α

namespace Checked

/-- A value with a single fault. -/
def fault {α : Type} (cause : FaultCause) : Checked α :=
  .error [⟨[], cause⟩]

/-- The check of a part, seen from the whole. -/
def under {α : Type} (step : PathStep) : Checked α → Checked α
  | .ok value => .ok value
  | .error faults => .error (faults.map fun fault => { fault with path := step :: fault.path })

/-- Two checks as one. -/
def both {α β : Type} : Checked α → Checked β → Checked (α × β)
  | .ok first, .ok second => .ok (first, second)
  | .ok _, .error faults => .error faults
  | .error faults, .ok _ => .error faults
  | .error faults, .error moreFaults => .error (faults ++ moreFaults)

/-- The check of a field that has to be there. -/
def required {α : Type} (name : String) : Option (Checked α) → Checked α
  | some checked => under (.key name) checked
  | none => under (.key name) (fault .missing)

/-- The check of a field that may be absent. -/
def optional {α : Type} (name : String) (default : α) : Option (Checked α) → Checked α
  | some checked => under (.key name) checked
  | none => .ok default

/-- A string. -/
def string : Value → Checked String
  | .str value => .ok value
  | _ => fault .notString

/-- A string or null. -/
def stringOrNull : Value → Checked (Option String)
  | .null => .ok none
  | value => (string value).map some

end Checked
end MathMarkup.Data
