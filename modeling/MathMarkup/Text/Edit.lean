import MathMarkup.Text.CharacterClass

/-!
# Edits of a text

The trimming of a text, one form for its line ends, and the replacement of its parts.
-/

namespace MathMarkup.Text

/-- The text without the blank characters at its two ends. -/
def trim (text : List Char) : List Char :=
  ((text.dropWhile isBlank).reverse.dropWhile isBlank).reverse

/-- The text with a line feed for every way to end a line: a line feed, a carriage return, or
the two together. -/
def unifyLines : List Char → List Char
  | '\r' :: '\n' :: rest => '\n' :: unifyLines rest
  | '\r' :: rest => '\n' :: unifyLines rest
  | character :: rest => character :: unifyLines rest
  | [] => []

/-- Walks over a text, putting `new` in place of each occurrence of `old`. The first
argument counts the characters of an occurrence that are still to be passed over. -/
def replaceFrom (old new : List Char) : Nat → List Char → List Char
  | _, [] => []
  | passing + 1, _ :: rest => replaceFrom old new passing rest
  | 0, character :: rest =>
    if old.isPrefixOf (character :: rest) then
      new ++ replaceFrom old new (old.length - 1) rest
    else
      character :: replaceFrom old new 0 rest

/-- The text with every occurrence of the non-empty text `old` replaced by `new`. Occurrences
are looked for from left to right and never overlap; the text put in is not searched again. -/
def replaceAll (old new text : List Char) : List Char :=
  replaceFrom old new 0 text

end MathMarkup.Text
