import BracketTags.Session.Run

/-!
# Inspecting a text

An inspection shows what each kind of pass makes of one text.  Every part of it
starts with the same handlers in a new registry.  The context configuration and
the expressions built so far are kept from part to part.

The handlers are first registered once before any part is run.  So handlers that
cannot be registered fail the inspection as a whole, also when no part of it is
wanted.
-/

namespace BracketTags

/-- A part of an inspection. -/
inductive Part where
  | expand
  /-- The text is expanded and awaitable results are awaited. -/
  | expandAwaiting
  | strip
  /-- The tags in the text are listed. -/
  | scan
  /-- The names with a tag in the text are found. -/
  | has
deriving DecidableEq

/-- The parts, in the order in which they are run. -/
def Part.all : List Part := [.expand, .expandAwaiting, .strip, .scan, .has]

/-- What a part of an inspection shows. -/
inductive Finding where
  /-- The outcome of an expansion and its events. -/
  | expanded (outcome : Except Error Text) (events : List Event)
  /-- The outcome of an expansion that awaits, and its events. -/
  | awaited (outcome : Except Error Text) (events : List Event)
  | stripped (t : Text)
  | tags (os : List Occurrence)
  /-- Whether there is a tag that is not escaped, of any name and of each registered name. -/
  | has (any : Bool) (each : List (Text × Bool))

/-- A text to be inspected. -/
structure Inspection where
  handlers : OrderedMap Text (Offer Script)
  /-- The configuration of the facade, if it has one. -/
  fixed : Option Config
  text : Text

namespace Inspection

/-- The names of a list that have a tag in the text. -/
def hasEach (e : Expander Handler) (t : Text) : List Text → Scripted (List (Text × Bool))
  | [] => pure []
  | name :: rest => do
      let b ← e.hasTag t (some name)
      return (name, b) :: (← hasEach e t rest)

/-- Run a part over the registry as it is. -/
def find (i : Inspection) (e : Expander Handler) : Part → Scripted Finding
  | .expand => do
      let (outcome, events) ← (Command.expandBy i.fixed e i.text).observe
      return .expanded outcome events
  | .expandAwaiting => do
      let (outcome, events) ← (Command.expandAwaitingBy i.fixed e i.text).observe
      return .awaited outcome events
  | .strip => do return .stripped (← e.strip i.text)
  | .scan => do return .tags (← e.scan i.text)
  | .has => do
      let any ← e.hasTag i.text none
      return .has any (← hasEach e i.text (← Run.registry).names)

/-- Put the handlers into a new registry. -/
def prepare (i : Inspection) : Scripted Unit := do
  Run.setRegistry World.initial.registry
  registerAll i.handlers.entries

/-- Run parts, each over a new registry. -/
def findAll (i : Inspection) : List Part → Scripted (List Finding)
  | [] => pure []
  | p :: rest => do
      i.prepare
      let f ← i.find (Command.facade i.fixed) p
      return f :: (← i.findAll rest)

/-- The handlers are registered, and then the wanted parts are run. -/
def findWanted (i : Inspection) (wanted : List Part) : Scripted (List Finding) := do
  i.prepare
  i.findAll (Part.all.filter fun p => wanted.contains p)

def run (i : Inspection) (wanted : List Part) : Except Error (List Finding) :=
  (i.findWanted wanted World.initial).outcome

end Inspection

end BracketTags
