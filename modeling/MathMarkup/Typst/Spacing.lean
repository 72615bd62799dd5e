import MathMarkup.Text.CharacterClass

/-!
# Space between pieces of output

Two texts that are written one after the other have a space between them unless one
of the rules of `joinsTo` puts them together.
-/

namespace MathMarkup.Typst.Spacing

open Text

/-- The text starts with a character of the given class. -/
def startsWith (text : List Char) (holds : Char → Bool) : Bool :=
  text.head?.any holds

/-- Signs that take no space before them. -/
def closePunctuation : List Char := ['}', '(', ')', '_', '^', ',', ';', '!', '|']

/-- Signs that take no space after them. -/
def openPunctuation : List Char := ['"', '_', '^', '{', '(']

/-- A plus or a minus. -/
def isSign (character : Char) : Bool :=
  character == '-' || character == '+'

/-- The written text ends in a sign that stands right after an opening bracket, so that
it belongs to what follows. The text is given from its end. -/
def endsInLeadingSign : List Char → Bool
  | sign :: before =>
    isSign sign && startsWith (before.dropWhile isBlank) ['(', '[', '{'].contains
  | [] => false

/-- No space goes between what is written and the next text. What is written is given
from its end. -/
def joinsTo (written text : List Char) : Bool :=
  written.isEmpty
    || startsWith written ['(', '|'].contains && startsWith text isWordCharacter
    || text.length == 1 && startsWith text closePunctuation.contains
    || text == ['\'']
    || startsWith written isDigit && startsWith text isDigit
    || endsInLeadingSign written
    || written == ['-'] || written == ['+']
    || startsWith text (· == '\n')
    || startsWith written (fun character => isBlank character || openPunctuation.contains character)

/-- A space goes before the text after a script that is one item. -/
def wantsSoftSpace (text : List Char) : Bool :=
  startsWith text fun character => character.isAlphanum || character == '('

/-- The space that goes between what is written and the next text. -/
def gap (afterItem : Bool) (written text : String) : String :=
  if afterItem && wantsSoftSpace text.toList then " "
  else if joinsTo written.toList.reverse text.toList then ""
  else " "

/-- Between two texts there is at most one space. -/
theorem gap_eq (afterItem : Bool) (written text : String) :
    gap afterItem written text = "" ∨ gap afterItem written text = " " := by
  unfold gap
  split
  · exact .inr rfl
  · split
    · exact .inl rfl
    · exact .inr rfl

end MathMarkup.Typst.Spacing
