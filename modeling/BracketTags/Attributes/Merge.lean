import BracketTags.Attributes.Equality

/-!
# Defaults

A handler knows some keys and has a default for each.  Merging takes the
supplied value of every known key, or else its default, and drops the keys that
are not known.

Attributes can be supplied in several ways, one of which is a *collection*.  A
collection is one of known attributes, or the bare notion of one, on which
every access fails.
-/

namespace BracketTags

inductive Collection where
  /-- Attributes of one of the three shapes. -/
  | known (a : Attributes)
  /-- The notion of a collection, with no access of its own. -/
  | bare

namespace Collection

/-- The attributes of a collection, to show their shape. -/
def shape : Collection → Except Error Attributes
  | known a => .ok a
  | bare => .error .shapeless

/-- The collection as one mapping. -/
def mapping : Collection → Except Error (OrderedMap Key Text)
  | known a => .ok a.mapping
  | bare => .error .unsupported

/-- Whether two collections, each made on its own, are equal.  A bare one equals no other. -/
def same : Collection → Collection → Bool
  | known a, known b => a == b
  | _, _ => false

def hashCode : Collection → UInt64
  | known a => hash a
  | bare => 0

end Collection

/-- The ways to supply attribute values. -/
inductive Supplied where
  | nothing
  /-- A text, which stands under 0. -/
  | text (t : Text)
  /-- A mapping of any values. -/
  | mapping (m : OrderedMap Key Value)
  | attributes (c : Collection)

/-- The supplied values as one mapping. -/
def Supplied.values : Supplied → Except Error (OrderedMap Key Value)
  | .nothing => .ok .empty
  | .text t => .ok (.ofList [(.index 0, .text t)])
  | .mapping m => .ok m
  | .attributes c =>
      match c.mapping with
      | .ok m => .ok (m.mapValues fun _ t => .text t)
      | .error e => .error e

/-- The known keys with their supplied values or else their defaults. -/
def mergeDefaults (known : OrderedMap Key Value) (supplied : Supplied) :
    Except Error (OrderedMap Key Value) :=
  match supplied.values with
  | .ok values => .ok (known.mapValues fun k default => (values.find? k).getD default)
  | .error e => .error e

example :
    (mergeDefaults (.ofList [(.name ['a'], .int 1), (.name ['b'], .int 2)])
      (.mapping (.ofList [(.name ['a'], .nothing), (.name ['c'], .int 3)]))).toOption.map
        OrderedMap.entries =
      some [(.name ['a'], .nothing), (.name ['b'], .int 2)] := by decide

end BracketTags
