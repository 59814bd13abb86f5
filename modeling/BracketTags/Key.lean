import BracketTags.Text.Digit

/-!
# Keys

Attribute values are looked up by name or by position.  A name made of digits
is not the position it shows.
-/

namespace BracketTags

/-- The key of an attribute value. -/
inductive Key where
  /-- A name. -/
  | name (t : Text)
  /-- A position. -/
  | index (i : Int)
deriving DecidableEq, Hashable

/-- The key as text. -/
def Key.toText : Key → Text
  | .name t => t
  | .index i => signedDecimal i

end BracketTags
