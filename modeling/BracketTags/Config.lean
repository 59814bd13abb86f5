import BracketTags.Value

/-!
# Configuration

The one setting tells whether a tag without a handler is an error.  It is kept
as the value that was given and only its truth counts.
-/

namespace BracketTags

/-- The settings of a pass. -/
structure Config where
  /-- Whether a tag without a handler is an error.  If not, the tag stays in place. -/
  strictHandlers : Value := .bool true
deriving DecidableEq

instance : Inhabited Config := ⟨{}⟩

namespace Config

/-- The name of the setting. -/
def strictKey : Text := "strict_handlers".toList

/-- The configuration given by named settings.  Unknown names are dropped, and of a repeated name
the last value counts. -/
def ofSettings (settings : List (Text × Value)) : Config :=
  match settings.reverse.find? fun e => e.1 == strictKey with
  | some e => { strictHandlers := e.2 }
  | none => {}

/-- Whether a tag without a handler is an error. -/
def isStrict (c : Config) : Bool := c.strictHandlers.isTrue

/-- Whether the settings equal the default ones. -/
def isDefault (c : Config) : Bool := c.strictHandlers.same (default : Config).strictHandlers

end Config

end BracketTags
