import BracketTags.Text.Basic

/-!
# Tags

A tag has a name and attribute text, and one of three forms.

* `[name attributes]` only opens.
* `[name attributes/]` closes itself.
* `[name attributes]content[/name]` wraps its content.

A second bracket before or after it is a *marker*.  A tag with both markers is
*escaped*: it stands for its own text without the two.
-/

namespace BracketTags

/-- What follows the attributes of a tag. -/
inductive Body where
  /-- The opening bracket pair and nothing else. -/
  | opening
  /-- A slash before the closing bracket. -/
  | selfClosing
  /-- Content up to the closing tag of the same name. -/
  | wrapping (content : Text)
deriving DecidableEq

/-- A tag as it is written. -/
structure Tag where
  /-- The name. -/
  name : Text
  /-- Everything from the name to the closing bracket or slash. -/
  attributes : Text
  /-- The form. -/
  body : Body
  /-- Whether a second bracket stands before it. -/
  openMarker : Bool
  /-- Whether a second bracket stands after it. -/
  closeMarker : Bool
deriving DecidableEq

/-- The text between an opening tag and its closing tag. -/
def Body.content? : Body → Option Text
  | .wrapping content => some content
  | _ => none

/-- The closing tag of a name. -/
def closingTag (name : Text) : Text := ['[', '/'] ++ name ++ [']']

namespace Tag

/-- The text enclosed by the tag, in the wrapping form. -/
def content? (t : Tag) : Option Text := t.body.content?

/-- Whether the tag closes itself. -/
def isSelfClosing (t : Tag) : Bool := t.body = .selfClosing

/-- Whether the tag has both markers. -/
def isEscaped (t : Tag) : Bool := t.openMarker && t.closeMarker

/-- The marker before the tag. -/
def openText (t : Tag) : Text := if t.openMarker then ['['] else []

/-- The marker after the tag. -/
def closeText (t : Tag) : Text := if t.closeMarker then [']'] else []

/-- A text between the markers of the tag. -/
def withMarkers (t : Tag) (inner : Text) : Text := t.openText ++ inner ++ t.closeText

/-- The tag as text. -/
def render (t : Tag) : Text :=
  ['['] ++ t.openText ++ t.name ++ t.attributes ++
    (match t.body with
      | .opening => [']']
      | .selfClosing => ['/', ']']
      | .wrapping content => [']'] ++ content ++ closingTag t.name) ++
    t.closeText

example : (Tag.mk ['b'] " k=v".toList (.wrapping ['x']) false true).render =
    "[b k=v]x[/b]]".toList := by decide

end Tag

end BracketTags
