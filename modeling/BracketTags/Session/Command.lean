import BracketTags.Session.Script

/-!
# Commands and answers

A session works on one registry and one facade, which is an expander over that
registry with a configuration of its own or none.  Its commands change the
registry, take snapshots, ask about them, and run passes.  Every command is
reported with its outcome, its events, and the names and the version of the
registry after it.
-/

namespace BracketTags

/-- The registry or a snapshot. -/
inductive Place where
  | registry
  /-- A snapshot taken before. -/
  | snapshot (name : Text)

/-- What runs a pass. -/
inductive Target where
  | facade
  /-- A new expander over a place, with a configuration of its own or none. -/
  | fresh (place : Place) (fixed : Option Config)

/-- A command of a session. -/
inductive Command where
  | register (name : Text) (offer : Offer Script)
  /-- Register a handler or another value, and give it back. -/
  | decorate (name : Text) (offer : Offer Script)
  | unregister (name : Text)
  | clear
  | snapshot (name : Text)
  | state (place : Place)
  | lookup (place : Place) (name : Text)
  /-- Tell whether two places have the same handler for a name. -/
  | sameHandler (a b : Place) (name : Text)
  /-- Tell whether facade, expander and stripper use the place they were made for. -/
  | wiring (place : Place)
  /-- Build the expression for a text or for any text. -/
  | pattern (place : Place) (text? : Option Text)
  | expand (target : Target) (text : Text)
  | expandAwaiting (target : Target) (text : Text)
  | scan (target : Target) (text : Text)
  /-- Tell whether a text has a tag that is not escaped. -/
  | hasTag (target : Target) (text : Text) (name? : Option Text)
  | expandMany (texts : List Text)
  | strip (place : Place) (text : Text)
  /-- Give the configuration of a pass with a fixed configuration or none. -/
  | effectiveConfig (fixed : Option Config)
  | getConfig
  | setConfig (c : Config)
  /-- Go back to the default context configuration. -/
  | resetConfig
  /-- Run commands inside a context configuration, and then fail inside it if there is a message. -/
  | withConfig (c : Config) (commands : List Command) (failure : Option Text)

/-- A place as it is shown. -/
structure PlaceState where
  names : List Text
  /-- The number of changes. -/
  version : Nat
  shown : Text

/-- What is reported about a command. -/
structure Report (α : Type) where
  /-- The answer, or the reason for the failure. -/
  outcome : Except Error α
  events : List Event
  /-- The registered names after the command. -/
  names : List Text
  /-- The version of the registry after the command. -/
  version : Nat

/-- The answer to a command. -/
inductive Answer where
  | done
  | flag (b : Bool)
  | flags (bs : List Bool)
  | text (t : Text)
  | texts (ts : List Text)
  | tags (os : List Occurrence)
  /-- The form of an expression, if there is one. -/
  | form (f : Option Form)
  | config (c : Config)
  | state (s : PlaceState)
  /-- Whether a name is known, and whether it has a handler. -/
  | found (known handled : Bool)
  /-- The reports of inner commands, the message of the failure inside, and the context
  configuration afterwards. -/
  | block (reports : List (Report Answer)) (failure : Option Text) (after : Config)

end BracketTags
