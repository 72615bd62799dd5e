/-!
# Brackets and braced text

One forward scan finds the item that closes an opener: an opener met on the way
raises the depth, a closer lowers it. An item that is both counts as an opener.

Some commands take text between braces instead of math. In it a brace counts only
when no backslash stands before it, and a backslash takes the meaning away from
the characters of `escapedCharacters`.
-/

namespace MathMarkup.Nesting

/-- The offset at which a closer brings the depth below zero, when `depth` openers
are still to be closed before the one that is looked for. -/
def closingOffsetFrom? {α : Type} (opens closes : α → Bool) : Nat → List α → Option Nat
  | _, [] => none
  | depth, item :: rest =>
    if opens item then
      (closingOffsetFrom? opens closes (depth + 1) rest).map (· + 1)
    else if closes item then
      match depth with
      | 0 => some 0
      | outer + 1 => (closingOffsetFrom? opens closes outer rest).map (· + 1)
    else
      (closingOffsetFrom? opens closes depth rest).map (· + 1)

/-- The offset, in the items after an opener, of the closer that belongs to it. -/
def closingOffset? {α : Type} (opens closes : α → Bool) (items : List α) : Option Nat :=
  closingOffsetFrom? opens closes 0 items

end MathMarkup.Nesting

namespace MathMarkup.Tex

/-- The characters that have to be escaped in text, in the order in which their
escapes are resolved: those of the braces before that of the backslash. -/
def escapedCharacters : List Char :=
  ['{', '}', '\\', '$', '&', '#', '_', '%']

/-- Takes the backslash away from every escape of one character, from left to right. -/
def resolveEscape (escaped : Char) : List Char → List Char
  | '\\' :: character :: rest =>
    if character = escaped then escaped :: resolveEscape escaped rest
    else '\\' :: resolveEscape escaped (character :: rest)
  | character :: rest => character :: resolveEscape escaped rest
  | [] => []

/-- The text that escaped text stands for. -/
def unescape (text : List Char) : List Char :=
  escapedCharacters.foldl (fun current escaped => resolveEscape escaped current) text

/-- The offset of the brace that closes a text, when `depth` inner braces are still
open. An escaped brace counts neither as an opening nor as a closing one. -/
def closingBraceFrom? : Nat → List Char → Option Nat
  | _, [] => none
  | depth, '\\' :: '{' :: rest => (closingBraceFrom? depth rest).map (· + 2)
  | depth, '\\' :: '}' :: rest => (closingBraceFrom? depth rest).map (· + 2)
  | depth, '{' :: rest => (closingBraceFrom? (depth + 1) rest).map (· + 1)
  | 0, '}' :: _ => some 0
  | outer + 1, '}' :: rest => (closingBraceFrom? outer rest).map (· + 1)
  | depth, _ :: rest => (closingBraceFrom? depth rest).map (· + 1)

/-- The offset, in the characters after an opening brace, of its partner. -/
def closingBrace? (text : List Char) : Option Nat :=
  closingBraceFrom? 0 text

end MathMarkup.Tex
