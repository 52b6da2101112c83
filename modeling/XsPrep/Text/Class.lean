import XsPrep.Text.Character
import XsPrep.Text.Letters
import XsPrep.Text.Numbers
import XsPrep.Text.Graphics

/-!
# Classes of characters

The classes of characters the preprocessor tells apart: white space, the
characters of an identifier, and the characters a quoted message shows as they
are.  The tables hold ascending ranges, so a look-up stops at the first range
that ends at or behind the code point.
-/

namespace XsPrep

namespace Code

/-- Whether a code point lies in one of the ascending ranges. -/
def isIn (code : Nat) : List (Nat × Nat) → Bool
  | [] => false
  | (lo, hi) :: ranges => if code ≤ hi then lo ≤ code else isIn code ranges

/-- The white space of Unicode. -/
def spaceRanges : List (Nat × Nat) :=
  [(0x09, 0x0D), (0x20, 0x20), (0x85, 0x85), (0xA0, 0xA0), (0x1680, 0x1680), (0x2000, 0x200A),
   (0x2028, 0x2029), (0x202F, 0x202F), (0x205F, 0x205F), (0x3000, 0x3000)]

/-- White space, line ends included. -/
def isSpace (code : Nat) : Bool := isIn code spaceRanges

/-- White space within a line. -/
def isBlank (code : Nat) : Bool := code != newline && isSpace code

/-- Letters of every script. -/
def isLetter (code : Nat) : Bool := isIn code Text.letterRanges

/-- Numbers of every script. -/
def isNumber (code : Nat) : Bool := isIn code Text.numberRanges

/-- The code points of an identifier: letters, numbers, `_` and `-`. -/
def isIdentifier (code : Nat) : Bool :=
  code == underscore || code == dash || isLetter code || isNumber code

/-- The code points that are shown as they are: letters, marks, numbers,
punctuation, symbols and the plain space. -/
def isPrintable (code : Nat) : Bool := code == 0x20 || isIn code Text.graphicRanges

end Code

namespace Character

/-- White space within a line. -/
def isBlank (c : Character) : Bool := Code.isBlank c.code

/-- White space, line ends included. -/
def isSpace (c : Character) : Bool := Code.isSpace c.code

/-- A character of an identifier. -/
def isIdentifier (c : Character) : Bool := Code.isIdentifier c.code

end Character

namespace Text

/-- The text without the white space at both ends. -/
def trimmed (t : Text) : Text :=
  let cs := t.characters.dropWhile Character.isSpace
  ofCharacters (cs.reverse.dropWhile Character.isSpace).reverse

/-- One character in front of the words behind it.  White space ends a word. -/
def wordStep (c : Character) : List Text → List Text
  | [] => if c.isSpace then [[]] else [c.bytes]
  | word :: words => if c.isSpace then [] :: word :: words else (c.bytes ++ word) :: words

/-- The words of a text: its longest parts without white space. -/
def words (t : Text) : List Text :=
  (t.characters.foldr wordStep [[]]).filter (!·.isEmpty)

end Text

end XsPrep
