import MathMarkup.Data.Checked
import MathMarkup.Text.Edit

/-!
# Truth values and integers in data

Both are accepted in several spellings: a truth value as a number or a word, an
integer as a truth value, a number without a fraction or the digits of one.
-/

namespace MathMarkup.Data

/-- The integer that a decimal number is, if it has no fraction. -/
def wholePart? (mantissa : Int) (places : Nat) : Option Int :=
  if mantissa % Nat.pow 10 places = 0 then some (mantissa / Nat.pow 10 places) else none

/-- The words for true, in lower case. -/
def trueWords : List String := ["true", "t", "yes", "y", "on", "1"]

/-- The words for false, in lower case. -/
def falseWords : List String := ["false", "f", "no", "n", "off", "0"]

/-- The truth value that a word spells, whatever its case. -/
def truthOfWord? (word : String) : Option Bool :=
  let lower := String.ofList (word.toList.map Char.toLower)
  if trueWords.contains lower then some true
  else if falseWords.contains lower then some false
  else none

/-- The truth value that an integer spells. -/
def truthOfInt? : Int → Option Bool
  | 0 => some false
  | 1 => some true
  | _ => none

/-- The number that a list of digits spells, if it is one or more digits. A single low
line may stand between two digits. -/
def natOfDigits? : List Char → Option Nat
  | [] => none
  | digit :: rest => if digit.isDigit then go (digit.toNat - 0x30) rest else none
where
  /-- Goes on after a digit. -/
  go (value : Nat) : List Char → Option Nat
    | [] => some value
    | '_' :: digit :: rest =>
      if digit.isDigit then go (value * 10 + (digit.toNat - 0x30)) rest else none
    | digit :: rest =>
      if digit.isDigit then go (value * 10 + (digit.toNat - 0x30)) rest else none

/-- The text without a fraction of zeros. -/
def withoutZeroFraction (text : List Char) : List Char :=
  match text.dropWhile (· != '.') with
  | '.' :: fraction => if fraction.all (· == '0') then text.takeWhile (· != '.') else text
  | _ => text

/-- The integer that a text spells. Blanks around it and a fraction of zeros are allowed. -/
def intOfText? (text : String) : Option Int :=
  match withoutZeroFraction (Text.trim text.toList) with
  | '-' :: digits => (natOfDigits? digits).map fun value => -(value : Int)
  | '+' :: digits => (natOfDigits? digits).map fun value => (value : Int)
  | digits => (natOfDigits? digits).map fun value => (value : Int)

namespace Checked

/-- The value of a spelling, or a fault. -/
def spelled {α : Type} (cause : FaultCause) : Option α → Checked α
  | some value => .ok value
  | none => fault cause

/-- A truth value. -/
def truth : Value → Checked Bool
  | .bool value => .ok value
  | .int value => spelled .booleanSpelling (truthOfInt? value)
  | .decimal mantissa places =>
    match wholePart? mantissa places with
    | some whole => spelled .booleanSpelling (truthOfInt? whole)
    | none => fault .notBoolean
  | .str word => spelled .booleanSpelling (truthOfWord? word)
  | _ => fault .notBoolean

/-- An integer. -/
def integer : Value → Checked Int
  | .bool value => .ok (if value then 1 else 0)
  | .int value => .ok value
  | .decimal mantissa places => spelled .fraction (wholePart? mantissa places)
  | .str text => spelled .integerSpelling (intOfText? text)
  | _ => fault .notInteger

/-- An integer that is at least one. -/
def positive (value : Value) : Checked Nat :=
  match integer value with
  | .error faults => .error faults
  | .ok whole => if 1 ≤ whole then .ok whole.toNat else fault .tooSmall

end Checked
end MathMarkup.Data
