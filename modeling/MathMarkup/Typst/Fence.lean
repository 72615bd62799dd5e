import MathMarkup.Text.Edit

/-!
# Fences that become calls

A text between the glyphs of a fence is written as the argument of a call. The
innermost pairs are replaced first, so that a pair inside another keeps its partner.
-/

namespace MathMarkup.Typst

/-- A pair of glyphs and the call that takes their place. -/
structure Fence where
  opening : Char
  closing : Char
  name : String
deriving DecidableEq, Repr

namespace Fence

/-- The brackets that round down. -/
def floor : Fence := ⟨'⌊', '⌋', "floor"⟩

/-- The brackets that round up. -/
def ceiling : Fence := ⟨'⌈', '⌉', "ceil"⟩

variable (fence : Fence)

/-- The call that takes the place of a pair around the given text. -/
def call (inner : List Char) : List Char :=
  fence.name.toList ++ '(' :: Text.trim inner ++ [')']

/-- Replaces the pairs that have no glyph of the fence between them. What follows an
opening glyph whose partner is still looked for is held back; its characters are given
from the end. -/
def replaceInnermost : Option (List Char) → List Char → List Char
  | none, [] => []
  | some held, [] => fence.opening :: held.reverse
  | none, character :: rest =>
    if character = fence.opening then replaceInnermost (some []) rest
    else character :: replaceInnermost none rest
  | some held, character :: rest =>
    if character = fence.closing then fence.call held.reverse ++ replaceInnermost none rest
    else if character = fence.opening then
      fence.opening :: held.reverse ++ replaceInnermost (some []) rest
    else replaceInnermost (some (character :: held)) rest

/-- Replaces innermost pairs the given number of times. -/
def replaceTimes : Nat → List Char → List Char
  | 0, text => text
  | count + 1, text => replaceTimes count (fence.replaceInnermost none text)

/-- Replaces all pairs. Every round with a pair in it takes a closing glyph away, so
there are no more rounds than closing glyphs. -/
def replacePairs (text : List Char) : List Char :=
  fence.replaceTimes (text.count fence.closing) text

/-- The text with all pairs replaced. A call without an argument gets an empty text. -/
def apply (text : String) : String :=
  let empty := fence.name.toList ++ ['(', ')']
  let filled := fence.name.toList ++ ['(', '"', '"', ')']
  String.ofList (Text.replaceAll empty filled (fence.replacePairs text.toList))

end Fence
end MathMarkup.Typst
