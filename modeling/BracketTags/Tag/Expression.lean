import BracketTags.Pattern.Search
import BracketTags.Pattern.Source
import BracketTags.Tag.Basic

/-!
# The expressions of tags

Two patterns describe the tags of a list of names.  They begin alike.

* A bracket, and a second one if the name can follow it.
* A name of the list, the first that leads to a match, which no word character
  and no hyphen follows.
* The attribute text, which has no closing bracket and ends before a slash that
  a closing bracket follows.

They differ in what may follow.  With the *full* expression a tag closes itself
or opens, and if it opens and a closing tag of its name follows, it wraps the
text up to the nearest one.  With the *plain* expression a tag closes itself or
opens.  The plain expression keeps the group of the content, which never
matches there.  In both a second closing bracket may end the tag.
-/

namespace BracketTags

/-- The parts of a tag that its expression keeps. -/
inductive Field where
  /-- The bracket before the tag. -/
  | openMarker
  | name
  | attributes
  /-- The slash of a tag that closes itself. -/
  | selfClosing
  /-- The text between the tag and its closing tag. -/
  | content
  /-- The bracket after the tag. -/
  | closeMarker
deriving DecidableEq

/-- The name of a part in a written expression. -/
def Field.label : Field → Text
  | .openMarker => "open_escape".toList
  | .name => "name".toList
  | .attributes => "attrs".toList
  | .selfClosing => "self_closing".toList
  | .content => "content".toList
  | .closeMarker => "close_escape".toList

/-- The two expressions of tags. -/
inductive Form where
  | full
  | plain
deriving DecidableEq

namespace Tag

open Pattern

/-- The pattern of the name and of what may not follow it. -/
def namePattern (names : List Text) : List (Pattern Field) :=
  [.group .name (choice (names.map literal)), .notAhead (.one (.of [.word, .exact '-']))]

/-- Characters of the attribute text that are no slash. -/
def notSlash : Pattern Field := .many .greedy (.except [.exact ']', .exact '/'])

def attributesPattern : Pattern Field :=
  .group .attributes <| .seq notSlash <|
    .star .sparing (sequence [.char '/', .notAhead (.char ']'), notSlash])

/-- Everything from the opening bracket to the end of the attribute text. -/
def openingPattern (names : List Text) : List (Pattern Field) :=
  [.char '[', .group .openMarker (.optional (.char '['))] ++ namePattern names ++
    [attributesPattern]

/-- The end of a tag that closes itself. -/
def selfClosingPattern : Pattern Field :=
  .seq (.group .selfClosing (.char '/')) (.char ']')

/-- Characters of the content that are no opening bracket. -/
def notBracket : Pattern Field := .many .possessive (.except [.exact '['])

/-- The pattern of the content, which stops before the nearest closing tag of the same name. -/
def contentPattern : Pattern Field :=
  .group .content <| .seq notBracket <|
    .star .possessive <| sequence
      [.char '[', .notAhead (sequence [.char '/', .again .name, .char ']']), notBracket]

/-- The content and the closing tag after it. -/
def wrappingPattern : Pattern Field :=
  sequence [contentPattern, .char '[', .char '/', .again .name, .char ']']

/-- What stands in the place of the content in the plain expression.  It never matches. -/
def noContentPattern : Pattern Field := .group .content (.notAhead .empty)

/-- The pattern of a bracket after the tag. -/
def closeMarkerPattern : Pattern Field := .group .closeMarker (.optional (.char ']'))

/-- The expression of the tags of some names. -/
def expression (names : List Text) (form : Form) : Pattern Field :=
  let inner := match form with
    | .full => wrappingPattern
    | .plain => noContentPattern
  sequence <| openingPattern names ++
    [.alt selfClosingPattern (.seq (.char ']') (.optional inner)), closeMarkerPattern]

/-- The expression of the tags of some names, written as a regular expression. -/
def source (names : List Text) (form : Form) : Text := (expression names form).source Field.label

end Tag

end BracketTags
