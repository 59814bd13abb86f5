import BracketTags.Attributes.Basic

/-!
# Equality of attributes

Two collections of attributes are equal when they have the same shape and the
same values.  The order of values with keys does not count and that of unnamed
ones does.

The hash of a collection is computed from the same data.  Values with keys go
into it by a sum, in which their order is lost.
-/

namespace BracketTags
namespace Attributes

/-- Whether two collections are equal. -/
def same : Attributes → Attributes → Bool
  | keyed m vs, keyed n ws => m.same n && vs == ws
  | positional vs, positional ws => vs == ws
  | raw t, raw u => t == u
  | _, _ => false

/-- The sum of the hashes of values with keys. -/
def namedHash (entries : List (Key × Text)) : UInt64 :=
  entries.foldl (fun sum e => sum + hash e) 0

/-- The hash of a collection. -/
def hashCode : Attributes → UInt64
  | keyed named values => mixHash (namedHash named.entries) (hash values)
  | positional values => hash values
  | raw text => hash text

instance : BEq Attributes := ⟨same⟩

instance : Hashable Attributes := ⟨hashCode⟩

end Attributes

end BracketTags
