import BracketTags.Attributes.Basic
import BracketTags.Value

/-!
# Events

What happens in a pass, apart from its answer, is a list of events in order:
handlers are called, awaitable results are awaited, and records are logged.  A
record has a level, the channel it is logged on, and a message.
-/

namespace BracketTags

/-- Something that happens in a pass. -/
inductive Event where
  /-- The handler of a name is called. -/
  | called (name : Text) (attributes : Attributes) (content : Option Text)
  /-- The awaitable result for a name is awaited. -/
  | awaited (name : Text)
  /-- A registration is ignored, since the value offered for the name is no handler. -/
  | ignored (name : Text) (value : Value)
  /-- A tag stays in place, since it has no handler. -/
  | unhandled (name : Text) (offset : Nat)
  /-- The expression of a number of names is built, with or without content. -/
  | compiled (count : Nat) (enclosing : Bool)

/-! ## Log records -/

/-- How much a log record matters. -/
inductive Level where
  | debug
  | warning
deriving DecidableEq

structure Record where
  level : Level
  /-- The name of the channel. -/
  channel : Text
  message : Text
deriving DecidableEq

/-- The root of all channels. -/
def rootChannel : Text := "shortcodes".toList

/-- The full name of a channel, which lies under the root unless it already names the root or a
channel under it. -/
def channelName (name : Text) : Text :=
  if name = rootChannel ∨ (rootChannel ++ ['.']).isPrefixOf name then name
  else rootChannel ++ '.' :: name

/-- The record that an event logs, if it logs one. -/
def Event.record? : Event → Option Record
  | .called _ _ _ => none
  | .awaited _ => none
  | .ignored name value =>
      some
        { level := .debug
          channel := channelName "registry".toList
          message := "Ignoring registration of ".toList ++ name.quoted ++ ": handler ".toList ++
            value.quoted ++ " is not callable".toList }
  | .unhandled name offset =>
      some
        { level := .warning
          channel := channelName "expander".toList
          message := "No handler registered for shortcode ".toList ++ name.quoted ++
            " at offset ".toList ++ decimal offset ++ "; leaving it in place".toList }
  | .compiled count enclosing =>
      some
        { level := .debug
          channel := channelName "pattern".toList
          message := "Compiling shortcode pattern for ".toList ++ decimal count ++
            " tag names (enclosing=".toList ++ Value.boolText enclosing ++ ")".toList }

/-- Whether an event is shown.  The building of expressions is shown on request only. -/
def Event.isShown (building : Bool) : Event → Bool
  | .compiled _ _ => building
  | _ => true

end BracketTags
