import BracketTags.Attributes.Merge
import BracketTags.Pass.Nesting

/-!
# Scripted handlers

A script describes what a handler does: it answers with a value, with its
content, or with something read from its attributes; it fails; it expands or
strips its content; or it acts on the registry and the context configuration
and then goes on with another script.  A script may also put off the rest of
its work until its answer is awaited.

A handler is a script with a serial number.  Every registration makes a new
handler, so handlers with the same script can be told apart.
-/

namespace BracketTags

/-! ## Scripts -/

/-- What a handler does to the registry and the context. -/
inductive Action (η : Type) where
  | register (name : Text) (offer : Offer η)
  | unregister (name : Text)
  | clear
  | setConfig (c : Config)

/-- What a handler does. -/
inductive Script where
  | value (v : Value)
  | content
  /-- Answer with the content between an opening and a closing mark of the name. -/
  | wrap
  /-- Answer with the attribute value under a key, or with a default. -/
  | attribute (key : Key) (default : Value)
  /-- Answer with the attribute value under a key, which has to be there. -/
  | item (key : Key)
  /-- Answer whether there is an attribute value under a key. -/
  | has (key : Key)
  /-- Answer with the known keys and their values. -/
  | merge (known : OrderedMap Key Value)
  | fail (e : Error)
  /-- Answer with the expanded content in round brackets. -/
  | expandContent
  /-- Answer with the stripped content in round brackets. -/
  | stripContent
  /-- Act, and then go on. -/
  | act (actions : List (Action Script)) (next : Script)
  /-- Go on when the answer is awaited. -/
  | later (next : Script)

/-- A handler made from a script. -/
structure Handler where
  /-- The number of handlers made before. -/
  serial : Nat
  script : Script

/-- What handlers and sessions remember. -/
structure Memory where
  /-- The number of handlers made so far. -/
  made : Nat := 0
  /-- The snapshots taken so far. -/
  snapshots : OrderedMap Text (Snapshot Handler) := .empty

/-- A run over handlers made from scripts. -/
abbrev Scripted (α : Type) := Run Handler Memory α

/-! ## Actions -/

/-- Make a handler from an offered script.  A plain value stays one. -/
def Offer.make : Offer Script → Scripted (Offer Handler)
  | .handler script => do
      let m ← Run.memory
      Run.setMemory { m with made := m.made + 1 }
      return .handler ⟨m.made, script⟩
  | .scalar v => pure (.scalar v)

/-- Register a handler made from an offered script. -/
def registerScript (name : Text) (offer : Offer Script) : Scripted Unit := do
  Run.register name (← offer.make)

def Action.perform : Action Script → Scripted Unit
  | .register name offer => registerScript name offer
  | .unregister name => Run.unregister name
  | .clear => Run.clear
  | .setConfig c => Run.setConfig c

def performAll : List (Action Script) → Scripted Unit
  | [] => pure ()
  | a :: rest => do
      a.perform
      performAll rest

/-! ## Answers -/

/-- A text in round brackets, or nothing. -/
def inBrackets : Option Text → Value
  | some t => .text ("(".toList ++ t ++ ")".toList)
  | none => .nothing

/-- A text between an opening and a closing mark of a name. -/
def inMarks (name t : Text) : Text :=
  "<".toList ++ name ++ ">".toList ++ t ++ "</".toList ++ name ++ ">".toList

/-- Entries written one after another, with semicolons between them. -/
def writtenEntries : List (Key × Value) → Text
  | [] => []
  | [e] => e.1.toText ++ '=' :: e.2.toText
  | e :: rest => e.1.toText ++ '=' :: e.2.toText ++ ';' :: writtenEntries rest

/-- The value that a text or its absence stands for. -/
def Value.ofText? : Option Text → Value
  | some t => .text t
  | none => .nothing

namespace Script

/-- Do what a script says.  The run `inner` expands the content of the call, and `e` tells which
names are stripped from it. -/
def perform (e : Expander Handler) (inner : Scripted (Option Text)) (c : Call) :
    Script → Scripted (Reply Handler Memory)
  | .value v => pure (.value v)
  | .content => pure (.value (Value.ofText? c.content))
  | .wrap => pure (.value (.text (inMarks c.name (c.content.getD []))))
  | .attribute key default => pure (.value (c.attributes.getD key default))
  | .item key => do return .value (.text (← Run.ofExcept (c.attributes.item key)))
  | .has key => pure (.value (.bool (c.attributes.contains key)))
  | .merge known => do
      let merged ← Run.ofExcept (mergeDefaults known (.attributes (.known c.attributes)))
      return .value (.text (writtenEntries merged.entries))
  | .fail reason => Run.fail reason
  | .expandContent => do return .value (inBrackets (← inner))
  | .stripContent =>
      match c.content with
      | some t => do return .value (inBrackets (some (← e.strip t)))
      | none => pure (.value .nothing)
  | .act actions next => do
      performAll actions
      perform e inner c next
  | .later next => pure (.awaitable (do
      match ← perform e inner c next with
      | .value v => return v
      | .awaitable body => body))

/-- The behaviour of scripted handlers, which expand their content by `e`. -/
def behaviour (e : Expander Handler) (depth : Nat) : Behaviour Handler Memory :=
  Reentrant.nested (fun inner h c => h.script.perform e inner c) e depth

end Script

end BracketTags
