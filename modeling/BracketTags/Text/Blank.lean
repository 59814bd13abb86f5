import BracketTags.Text.CodePoints
import BracketTags.Text.Basic

/-!
# Blanks

A *blank* separates the tokens of attribute text.  The no-break space is a blank
and the zero-width space is not.

Three related rules use other sets.  `Text.plainSpaces` replaces the space-like
characters, which are the no-break and the zero-width space.  `Text.trimLeft`
drops the six margin characters from the left of a text.
-/

namespace BracketTags

/-- The code points of the blanks. -/
def blankCodePoints : CodePoints :=
  [(0x9, 0xD), (0x1C, 0x20), (0x85, 0x85), (0xA0, 0xA0), (0x1680, 0x1680), (0x2000, 0x200A),
   (0x2028, 0x2029), (0x202F, 0x202F), (0x205F, 0x205F), (0x3000, 0x3000)]

/-- Whether a character is a blank. -/
def isBlank (c : Char) : Bool := blankCodePoints.has c.toNat

/-- Whether a character is a no-break space or a zero-width space. -/
def isSpaceLike (c : Char) : Bool := c == '\u00a0' || c == '\u200b'

/-- Whether a character is trimmed from the left of attribute text that holds no token. -/
def isMargin (c : Char) : Bool :=
  c == ' ' || c == '\t' || c == '\n' || c == '\r' || c == '\x00' || c == '\x0b'

namespace Text

/-- The text with each run of space-like characters replaced by one space.  The flag tells
whether the character before was space-like. -/
def plainSpacesAfter : Bool → Text → Text
  | _, [] => []
  | true, c :: cs =>
      if isSpaceLike c then plainSpacesAfter true cs else c :: plainSpacesAfter false cs
  | false, c :: cs =>
      if isSpaceLike c then ' ' :: plainSpacesAfter true cs else c :: plainSpacesAfter false cs

/-- The text with each run of space-like characters replaced by one space. -/
def plainSpaces (t : Text) : Text := plainSpacesAfter false t

/-- The text without the margin characters on its left. -/
def trimLeft (t : Text) : Text := t.dropWhile isMargin

end Text

end BracketTags
