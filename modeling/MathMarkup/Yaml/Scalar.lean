import MathMarkup.Data.Value

/-!
# Scalars

A scalar without quotes can be more than text: a truth value, an integer in one of
several bases, a number with a point, a date or null.
-/

namespace MathMarkup.Yaml

open Data

/-- A part of a document that is no collection. -/
inductive Scalar where
  | null
  | bool (value : Bool)
  | int (value : Int)
  /-- A number written with a point: an integer over a power of ten. -/
  | decimal (mantissa : Int) (places : Nat)
  | str (value : String)
  /-- A scalar of a kind that no field takes, such as a date. -/
  | other
deriving DecidableEq, Repr, Inhabited

/-- The scalar as data. -/
def Scalar.toValue : Scalar → Value
  | null => .null
  | bool value => .bool value
  | int value => .int value
  | decimal mantissa places => .decimal mantissa places
  | str value => .str value
  | other => .other

/-- The words for true. -/
def trueWords : List String :=
  ["yes", "Yes", "YES", "true", "True", "TRUE", "on", "On", "ON"]

/-- The words for false. -/
def falseWords : List String :=
  ["no", "No", "NO", "false", "False", "FALSE", "off", "Off", "OFF"]

/-- The words for null. -/
def nullWords : List String := ["~", "null", "Null", "NULL", ""]

/-- The value of a digit, of letters above nine. -/
def digitValue? (character : Char) : Option Nat :=
  if character.isDigit then some (character.toNat - 0x30)
  else if 'a' ≤ character ∧ character ≤ 'f' then some (character.toNat - 0x61 + 10)
  else if 'A' ≤ character ∧ character ≤ 'F' then some (character.toNat - 0x41 + 10)
  else none

/-- The number that digits spell in a base. Low lines between them are passed over. -/
def natInBase? (base : Nat) (digits : List Char) : Option Nat :=
  digits.foldlM (fun value digit =>
    if digit = '_' then some value
    else
      match digitValue? digit with
      | some next => if next < base then some (value * base + next) else none
      | none => none) 0

/-- A list cut at every colon. -/
def cutAtColons : List Char → List (List Char)
  | [] => [[]]
  | ':' :: rest => [] :: cutAtColons rest
  | character :: rest =>
    match cutAtColons rest with
    | first :: others => (character :: first) :: others
    | [] => [[character]]

/-- One or two digits of a number below sixty. -/
def sexagesimalPart? (part : List Char) : Option Nat :=
  match part with
  | [_] | [_, _] =>
    if part.all Char.isDigit then
      match natInBase? 10 part with
      | some value => if value < 60 then some value else none
      | none => none
    else
      none
  | _ => none

/-- The number that parts in base sixty spell. -/
def natOfSexagesimal? (text : List Char) : Option Nat :=
  match cutAtColons text with
  | leading :: parts =>
    match natInBase? 10 leading with
    | some start =>
      parts.foldlM (fun value part => (sexagesimalPart? part).map (value * 60 + ·)) start
    | none => none
  | [] => none

/-- The number that a text without a sign spells. -/
def natOfText? : List Char → Option Nat
  | '0' :: 'b' :: digit :: digits => natInBase? 2 (digit :: digits)
  | '0' :: 'x' :: digit :: digits => natInBase? 16 (digit :: digits)
  | ['0'] => some 0
  | '0' :: digits => natInBase? 8 digits
  | digit :: digits => if digit.isDigit then natOfSexagesimal? (digit :: digits) else none
  | [] => none

/-- The sign of a text and what follows it. -/
def splitSign : List Char → Int × List Char
  | '-' :: rest => (-1, rest)
  | '+' :: rest => (1, rest)
  | text => (1, text)

/-- The exponent of a number, which has a sign; no text is the exponent zero. -/
def exponent? : List Char → Option Int
  | [] => some 0
  | mark :: sign :: digit :: digits =>
    if (mark = 'e' ∨ mark = 'E') ∧ (sign = '-' ∨ sign = '+') ∧ (digit :: digits).all Char.isDigit
    then
      (natInBase? 10 (digit :: digits)).map fun (value : Nat) =>
        if sign = '-' then -(value : Int) else (value : Int)
    else
      none
  | _ => none

/-- A digit or a low line. -/
def isDigitOrLine (character : Char) : Bool :=
  character.isDigit || character == '_'

/-- An integer times a power of ten as a number with a point. -/
def scaled (mantissa : Int) (places : Nat) (exponent : Int) : Scalar :=
  if 0 ≤ exponent then .decimal (mantissa * Nat.pow 10 exponent.toNat) places
  else .decimal mantissa (places + (-exponent).toNat)

/-- A number with a point. A sign needs a digit before the point. -/
def decimal? (text : List Char) : Option Scalar := do
  let (sign, body) := splitSign text
  let whole := body.takeWhile isDigitOrLine
  match body.dropWhile isDigitOrLine with
  | '.' :: rest =>
    let fraction := rest.takeWhile isDigitOrLine
    let exponent ← exponent? (rest.dropWhile isDigitOrLine)
    let startsWell := match whole, fraction with
      | digit :: _, _ => digit.isDigit
      | [], digit :: _ => digit.isDigit && body.length == text.length
      | [], [] => false
    if startsWell then
      let mantissa ← natInBase? 10 (whole ++ fraction)
      return scaled (sign * mantissa) (fraction.filter Char.isDigit).length exponent
    else
      none
  | _ => none

/-- The words for numbers that are not finite. -/
def nonFiniteWords : List String :=
  [".inf", ".Inf", ".INF", "+.inf", "+.Inf", "+.INF", "-.inf", "-.Inf", "-.INF", ".nan", ".NaN",
   ".NAN"]

/-- The words with a meaning of their own as keys, which are no text as values. -/
def reservedWords : List String := ["=", "<<"]

/-- The text is a date: a year, a month and a day. -/
def isDate : List Char → Bool
  | [a, b, c, d, '-', e, f, '-', g, h] => [a, b, c, d, e, f, g, h].all Char.isDigit
  | _ => false

/-- What a plain scalar stands for. -/
def resolve (text : List Char) : Scalar :=
  let word := String.ofList text
  if trueWords.contains word then .bool true
  else if falseWords.contains word then .bool false
  else if nullWords.contains word then .null
  else if nonFiniteWords.contains word || reservedWords.contains word || isDate text then .other
  else
    match decimal? text with
    | some number => number
    | none =>
      let (sign, digits) := splitSign text
      match natOfText? digits with
      | some value => .int (sign * value)
      | none => .str word

end MathMarkup.Yaml
