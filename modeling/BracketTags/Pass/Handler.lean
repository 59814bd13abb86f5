import BracketTags.Attributes.Parse
import BracketTags.Pass.Run

/-!
# Handlers

The handlers in a registry are of any type `η`.  A *behaviour* tells what each
of them does when it is called.  A call passes the attributes and the content
of a tag, and its name.  A handler answers with a value or with an awaitable
result, which is a run of its own that gives the value once it is awaited.
-/

namespace BracketTags

/-- What a handler is called with. -/
structure Call where
  attributes : Attributes
  /-- The content of the tag, as it is written. -/
  content : Option Text
  name : Text

/-- The call for a tag. -/
def Tag.call (t : Tag) : Call := ⟨.parse t.attributes, t.content?, t.name⟩

/-- What a handler answers. -/
inductive Reply (η σ : Type) where
  | value (v : Value)
  /-- A run that gives the value when it is awaited. -/
  | awaitable (body : Run η σ Value)

/-- What the handlers do when they are called. -/
abbrev Behaviour (η σ : Type) := η → Call → Run η σ (Reply η σ)

def Behaviour.invoke {η σ : Type} (act : Behaviour η σ) (h : η) (c : Call) :
    Run η σ (Reply η σ) := do
  Run.emit (.called c.name c.attributes c.content)
  act h c

end BracketTags
