import BracketTags.Tag.Expression

/-!
# Tags in a text

An *occurrence* is a tag together with its place in a text.  A scan gives the
occurrences of the tags of some names, from left to right and without overlap.

Between the occurrences lie gaps.  A text is the sequence of its *segments*,
which are the gaps and the occurrences in order.

The wrapping form needs a closing tag, so a text in which no name of the list
has a closing tag is scanned with the plain expression.
-/

namespace BracketTags

/-- A tag at a place of a text. -/
structure Occurrence where
  tag : Tag
  /-- The offset of its first character. -/
  start : Nat
  /-- The text it takes. -/
  text : Text
deriving DecidableEq

namespace Occurrence

/-- The offset just past its last character. -/
def stop (o : Occurrence) : Nat := o.start + o.text.length

/-- The text it takes without its first and its last character. -/
def unescapedText (o : Occurrence) : Text := o.text.tail.dropLast

/-- The text of the occurrence when no handler answers for it.  An escaped tag loses its markers
and any other tag stays. -/
def literalText (o : Occurrence) : Text := if o.tag.isEscaped then o.unescapedText else o.text

/-- What stripping leaves of the occurrence.  An escaped tag loses its markers and any other tag
leaves only its marker. -/
def strippedText (o : Occurrence) : Text :=
  if o.tag.isEscaped then o.unescapedText else o.tag.withMarkers []

/-- The occurrence that a match of an expression of tags stands for. -/
def ofFound (m : Found Field) : Occurrence where
  tag :=
    { name := (m.part? .name).getD []
      attributes := (m.part? .attributes).getD []
      body :=
        if (m.part? .selfClosing).isSome then .selfClosing
        else match m.part? .content with
          | some content => .wrapping content
          | none => .opening
      openMarker := m.part? .openMarker == some ['[']
      closeMarker := m.part? .closeMarker == some [']'] }
  start := m.start
  text := m.text

end Occurrence

namespace Tag

/-- The occurrences that an expression of tags finds in a text. -/
def occurrences (p : Pattern Field) (t : Text) : List Occurrence :=
  (p.findAll t).map Occurrence.ofFound

/-- The expression to scan a text with. -/
def formFor (names : List Text) (t : Text) : Form :=
  if names.any fun name => Text.occursIn (closingTag name) t then .full else .plain

/-- The tags of some names in a text. -/
def scan (names : List Text) (t : Text) : List Occurrence :=
  occurrences (expression names (formFor names t)) t

end Tag

/-! ## Segments -/

/-- A part of a scanned text. -/
inductive Segment where
  /-- Text that belongs to no tag. -/
  | gap (text : Text)
  | tag (o : Occurrence)
deriving DecidableEq

def Segment.text : Segment → Text
  | .gap text => text
  | .tag o => o.text

/-- The segments of a text that stands at offset `start`, given the tags in it. -/
def segmentsFrom (start : Nat) (t : Text) : List Occurrence → List Segment
  | [] => [.gap t]
  | o :: os =>
      .gap (t.take (o.start - start)) :: .tag o ::
        segmentsFrom o.stop (t.drop (o.stop - start)) os

/-- The segments of a text, given the tags in it. -/
def segments (t : Text) (os : List Occurrence) : List Segment := segmentsFrom 0 t os

/-- What stripping leaves of a segment. -/
def Segment.strippedText : Segment → Text
  | .gap text => text
  | .tag o => o.strippedText

/-- What stripping leaves of a text, given the tags in it. -/
def stripped (t : Text) (os : List Occurrence) : Text :=
  (segments t os).flatMap Segment.strippedText

/-- The text without the tags of some names. -/
def Tag.strip (names : List Text) (t : Text) : Text := stripped t (Tag.scan names t)

example : Tag.strip ["b".toList] "x[b]y[/b]] [[b]]".toList = "x] [b]".toList := by decide +kernel

end BracketTags
