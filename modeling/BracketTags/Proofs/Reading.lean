import BracketTags.Proofs.Matching
import BracketTags.Tag.Scan

/-!
# Reading a tag

The tag at the start of a text can be read without going back.  A *candidate*
is a way in which a tag may begin: with a marker or without one, and with a
name of the list.  `Candidate.read?` reads the tag of one candidate.

* The text begins with a bracket, the marker and the name, and the name ends
  there.
* The attribute text goes on to the first closing bracket, without a slash
  before it.  That slash closes the tag.
* A tag that is not closed wraps the text up to the nearest closing tag of its
  name, if there is one.
* A bracket that follows is the marker after the tag.

`Tag.read?` takes the first candidate that can be read, and the tag is written
as the text that it is read from begins (`Tag.render_prefix_of_read?`).
-/

namespace BracketTags

/-! ## Candidates -/

/-- A way in which a tag may begin. -/
structure Candidate where
  /-- Whether a second bracket stands before the tag. -/
  marked : Bool
  /-- The name. -/
  name : Text
deriving DecidableEq

/-- The marker before a tag that has one or not. -/
def openingMarker (marked : Bool) : Text := if marked then ['['] else []

/-- Whether a name may end before a text. -/
def nameEnds : Text → Bool
  | [] => true
  | c :: _ => !(isWord c || c == '-')

/-- The attribute text, given the text from the name to the closing bracket. -/
def attributesIn (inner : Text) : Text :=
  if inner.getLast? = some '/' then inner.dropLast else inner

/-- The content of a tag and what stands after its closing tag, if the form knows content and a
closing tag of the name follows. -/
def wrapped? (form : Form) (name after : Text) : Option (Text × Text) :=
  match form with
  | .full => Text.cut? (closingTag name) after
  | .plain => none

/-- The body of a tag and what is left of the text, given the text from the name to the closing
bracket and the text after it. -/
def bodyAfter (form : Form) (name inner after : Text) : Body × Text :=
  if inner.getLast? = some '/' then (.selfClosing, after)
  else
    match wrapped? form name after with
    | some (content, rest) => (.wrapping content, rest)
    | none => (.opening, after)

namespace Candidate

/-- The candidates of some names, in the order in which they are tried. -/
def all (names : List Text) : List Candidate := names.map (mk true) ++ names.map (mk false)

/-- How the tag begins. -/
def opening (c : Candidate) : Text := ['['] ++ openingMarker c.marked ++ c.name

/-- The tag with some text from the name to the closing bracket and some text after it. -/
def tag (form : Form) (c : Candidate) (inner after : Text) : Tag where
  name := c.name
  attributes := attributesIn inner
  body := (bodyAfter form c.name inner after).1
  openMarker := c.marked
  closeMarker := (bodyAfter form c.name inner after).2.head? == some ']'

/-- The tag of a candidate that goes on with a text. -/
def readRest? (form : Form) (c : Candidate) (rest : Text) : Option Tag :=
  if nameEnds rest then (Text.cut? [']'] rest).map fun p => c.tag form p.1 p.2 else none

/-- The tag of a candidate at the start of a text. -/
def read? (form : Form) (t : Text) (c : Candidate) : Option Tag :=
  (Text.dropStart? c.opening t).bind (c.readRest? form)

end Candidate

/-- The tag of some names at the start of a text. -/
def Tag.read? (names : List Text) (form : Form) (t : Text) : Option Tag :=
  (Candidate.all names).findSome? (Candidate.read? form t)

/-! ## The text of a tag -/

/-- The text of a body with what stands after it. -/
def Body.render (name : Text) : Body → Text
  | .opening => [']']
  | .selfClosing => ['/', ']']
  | .wrapping content => [']'] ++ content ++ closingTag name

theorem Tag.render_eq (g : Tag) :
    g.render = ['['] ++ g.openText ++ g.name ++ g.attributes ++ g.body.render g.name ++
      g.closeText := by
  rw [Tag.render]
  cases g.body with
  | opening => rfl
  | selfClosing => rfl
  | wrapping content => rfl

theorem attributesIn_append_slash {inner : Text} (h : inner.getLast? = some '/') :
    attributesIn inner ++ ['/'] = inner := by
  rw [attributesIn, if_pos h]
  obtain ⟨init, rfl⟩ := List.getLast?_eq_some_iff.mp h
  simp

theorem append_bracket_of_slash {inner : Text} (h : inner.getLast? = some '/') (after : Text) :
    attributesIn inner ++ (['/', ']'] ++ after) = inner ++ ([']'] ++ after) :=
  calc attributesIn inner ++ (['/', ']'] ++ after)
      = (attributesIn inner ++ ['/']) ++ ([']'] ++ after) := by simp
    _ = inner ++ ([']'] ++ after) := by rw [attributesIn_append_slash h]

theorem attributesIn_of_ne {inner : Text} (h : inner.getLast? ≠ some '/') :
    attributesIn inner = inner := by
  rw [attributesIn, if_neg h]

theorem bodyAfter_of_slash {inner : Text} (h : inner.getLast? = some '/') (form : Form)
    (name after : Text) : bodyAfter form name inner after = (.selfClosing, after) := by
  rw [bodyAfter, if_pos h]

theorem bodyAfter_of_wrapped {form : Form} {inner name after content rest : Text}
    (h : inner.getLast? ≠ some '/') (hw : wrapped? form name after = some (content, rest)) :
    bodyAfter form name inner after = (.wrapping content, rest) := by
  simp only [bodyAfter, if_neg h, hw]

theorem bodyAfter_of_not_wrapped {form : Form} {inner name after : Text}
    (h : inner.getLast? ≠ some '/') (hw : wrapped? form name after = none) :
    bodyAfter form name inner after = (.opening, after) := by
  simp only [bodyAfter, if_neg h, hw]

/-- A wrapped content ends at the first closing tag. -/
theorem cut?_of_wrapped? {form : Form} {name after content rest : Text}
    (h : wrapped? form name after = some (content, rest)) :
    Text.cut? (closingTag name) after = some (content, rest) := by
  cases form with
  | full => exact h
  | plain => cases h

/-- Attribute text and body are the text inside the brackets and after them. -/
theorem attributesIn_append_render (form : Form) (name inner after : Text) :
    attributesIn inner ++ ((bodyAfter form name inner after).1.render name ++
      (bodyAfter form name inner after).2) = inner ++ ([']'] ++ after) := by
  by_cases h : inner.getLast? = some '/'
  · rw [bodyAfter_of_slash h]
    exact append_bracket_of_slash h after
  · rw [attributesIn_of_ne h]
    cases hw : wrapped? form name after with
    | none =>
        rw [bodyAfter_of_not_wrapped h hw]
        rfl
    | some p =>
        obtain ⟨content, rest⟩ := p
        rw [bodyAfter_of_wrapped h hw, (Text.cut?_eq_some_iff.mp (cut?_of_wrapped? hw)).1]
        simp [Body.render]

namespace Candidate

theorem readRest?_eq_some_iff {form : Form} {c : Candidate} {rest : Text} {g : Tag} :
    c.readRest? form rest = some g ↔
      nameEnds rest = true ∧
        ∃ inner after, Text.cut? [']'] rest = some (inner, after) ∧ c.tag form inner after = g := by
  by_cases h : nameEnds rest
  · simp [readRest?, h]
  · simp [readRest?, h]

theorem read?_eq_some_iff {form : Form} {t : Text} {c : Candidate} {g : Tag} :
    c.read? form t = some g ↔
      ∃ rest, t = c.opening ++ rest ∧ c.readRest? form rest = some g := by
  simp [read?, Option.bind_eq_some_iff, Text.dropStart?_eq_some_iff]

@[simp] theorem openText_tag (form : Form) (c : Candidate) (inner after : Text) :
    (c.tag form inner after).openText = openingMarker c.marked := rfl

/-- The marker after a tag is the beginning of what is left. -/
theorem closeText_tag (form : Form) (c : Candidate) (inner after : Text) :
    (c.tag form inner after).closeText <+: (bodyAfter form c.name inner after).2 := by
  rw [Tag.closeText]
  by_cases h : (bodyAfter form c.name inner after).2.head? = some ']'
  · obtain ⟨rest, hr⟩ := Text.singleton_prefix_iff.mpr h
    simp [tag, ← hr]
  · simp [tag, h]

/-- The text of the tag of a candidate is the beginning of the text it is read from. -/
theorem render_prefix_of_read? {form : Form} {t : Text} {c : Candidate} {g : Tag}
    (h : c.read? form t = some g) : g.render <+: t := by
  obtain ⟨r, rfl, hg⟩ := read?_eq_some_iff.mp h
  obtain ⟨-, inner, after, hcut, rfl⟩ := readRest?_eq_some_iff.mp hg
  obtain ⟨hr, -⟩ := Text.cut?_eq_some_iff.mp hcut
  obtain ⟨rest, hrest⟩ := closeText_tag form c inner after
  refine ⟨rest, ?_⟩
  rw [hr, ← attributesIn_append_render form c.name inner after, ← hrest, Tag.render_eq,
    openText_tag]
  simp [tag, opening]

end Candidate

/-- The text of a tag is the beginning of the text it is read from. -/
theorem Tag.render_prefix_of_read? {names : List Text} {form : Form} {t : Text} {g : Tag}
    (h : Tag.read? names form t = some g) : g.render <+: t := by
  obtain ⟨c, -, hc⟩ := List.exists_of_findSome?_eq_some h
  exact Candidate.render_prefix_of_read? hc

end BracketTags
