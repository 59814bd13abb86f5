import BracketTags.Error
import BracketTags.Value
import BracketTags.OrderedMap

/-!
# Attributes

The attributes of a tag have one of three shapes.

* *Keyed*: values with keys, and the unnamed values that stood among them.
* *Positional*: unnamed values only.
* *Raw*: text in which no value was found.

All shapes can be read as one mapping.  A value with a key stands under its key,
an unnamed one under its position among the unnamed ones, and raw text under 0.
A key that is the position of an unnamed value keeps its place in the mapping
and takes the unnamed value.
-/

namespace BracketTags

/-- The attributes of a tag. -/
inductive Attributes where
  /-- Values with keys, and unnamed ones in order. -/
  | keyed (named : OrderedMap Key Text) (positional : List Text)
  /-- Unnamed values in order. -/
  | positional (values : List Text)
  /-- Text without values. -/
  | raw (text : Text)

/-- Values under their positions, counted from `start`. -/
def indexed (start : Nat) : List Text → List (Key × Text)
  | [] => []
  | v :: vs => (.index start, v) :: indexed (start + 1) vs

namespace Attributes

/-- The entries of the mapping, in the order in which they are inserted. -/
def entries : Attributes → List (Key × Text)
  | keyed named values => named.entries ++ indexed 0 values
  | positional values => indexed 0 values
  | raw text => [(.index 0, text)]

/-- The attributes as one mapping. -/
def mapping (a : Attributes) : OrderedMap Key Text := .ofList a.entries

example :
    (keyed (.ofList [(.index 0, ['n']), (.name ['a'], ['s'])]) [['p'], ['q']]).mapping.entries =
      [(.index 0, ['p']), (.name ['a'], ['s']), (.index 1, ['q'])] := by decide

/-- The value under a key, if there is one. -/
def get? (a : Attributes) (k : Key) : Option Text := a.mapping.find? k

/-- The value under a key, or a given one. -/
def getD (a : Attributes) (k : Key) (default : Value) : Value :=
  match a.get? k with
  | some t => .text t
  | none => default

def contains (a : Attributes) (k : Key) : Bool := a.mapping.contains k

/-- The value under a key, which has to be there. -/
def item (a : Attributes) (k : Key) : Except Error Text :=
  match a.get? k with
  | some t => .ok t
  | none => .error (.missingKey k)

/-- Whether the attributes count as true.  Keyed ones always do, the others when they are not
empty. -/
def isTrue : Attributes → Bool
  | keyed _ _ => true
  | positional values => !values.isEmpty
  | raw text => !text.isEmpty

end Attributes

end BracketTags
