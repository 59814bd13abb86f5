import BracketTags.Key

/-!
# Errors

Malformed tags and attributes are no errors: text that forms no tag stays as it
is.  What can fail is a registration, a pass that meets a missing handler or an
awaitable result, an access to attributes, and a handler for a reason of its
own.
-/

namespace BracketTags

/-- The reasons for a failure. -/
inductive Error where
  /-- A handler was to be registered under the empty name. -/
  | emptyName
  /-- A tag has no handler.  The offset of the tag may be known. -/
  | missingHandler (name : Text) (offset : Option Int)
  /-- A handler gave an awaitable result to a pass that does not wait. -/
  | awaitable (name : Text)
  /-- There is no attribute value under the key. -/
  | missingKey (key : Key)
  /-- The attribute collection has no access of its own. -/
  | unsupported
  /-- The attribute collection has no shape to show. -/
  | shapeless
  /-- A handler failed, with a word for the kind of failure. -/
  | raised (kind message : Text)
  /-- Passes are nested deeper than allowed. -/
  | tooDeep
deriving DecidableEq

/-- The message of a failure. -/
def Error.message : Error → Text
  | .emptyName => "Shortcode name must be a non-empty string".toList
  | .missingHandler name offset =>
      "No handler registered for shortcode '".toList ++ name ++ "'".toList ++
        match offset with
        | some i => " at offset ".toList ++ signedDecimal i
        | none => []
  | .awaitable name =>
      "Handler for shortcode '".toList ++ name ++
        "' returned an awaitable; use expand_async()".toList
  | .missingKey key => key.toText
  | .unsupported => []
  | .shapeless => "'Attributes' object has no attribute 'text'".toList
  | .raised _ message => message
  | .tooDeep => "maximum nesting depth exceeded".toList

end BracketTags
