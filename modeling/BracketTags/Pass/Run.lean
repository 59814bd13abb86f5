import BracketTags.Config
import BracketTags.Registry
import BracketTags.Tag.Compiled

/-!
# Runs

A pass and its handlers share a *world*: the registry, the context
configuration, the expressions built so far, and the memory of the handlers,
which is of any type.  A *run* starts in a world and leaves another one.  It
gives a value or fails, and events happen on the way.  The world and the events
of a failed run are those up to the failure.
-/

namespace BracketTags

/-- What a pass and its handlers share. -/
structure World (η σ : Type) where
  registry : Registry η := {}
  config : Config := {}
  /-- The expressions built so far. -/
  expressions : ExpressionCache := {}
  /-- The memory of the handlers. -/
  memory : σ

/-- How a run ends. -/
structure Result (η σ α : Type) where
  /-- The value, or the reason for the failure. -/
  outcome : Except Error α
  /-- The world after the run. -/
  world : World η σ
  events : List Event

/-- A computation that starts in a world. -/
def Run (η σ α : Type) : Type := World η σ → Result η σ α

namespace Run

variable {η σ α β : Type}

/-! ## Sequence -/

/-- The run that gives a value and does nothing else. -/
def pure (a : α) : Run η σ α := fun w => ⟨.ok a, w, []⟩

/-- A run and then another one, which depends on the value of the first. -/
def bind (x : Run η σ α) (f : α → Run η σ β) : Run η σ β := fun w =>
  match x w with
  | ⟨.ok a, w', events⟩ =>
      match f a w' with
      | ⟨outcome, w'', more⟩ => ⟨outcome, w'', events ++ more⟩
  | ⟨.error e, w', events⟩ => ⟨.error e, w', events⟩

/-- A run with a function applied to its value. -/
def map (f : α → β) (x : Run η σ α) : Run η σ β := fun w =>
  match x w with
  | ⟨.ok a, w', events⟩ => ⟨.ok (f a), w', events⟩
  | ⟨.error e, w', events⟩ => ⟨.error e, w', events⟩

instance : Monad (Run η σ) where
  pure := pure
  bind := bind
  map := map

def fail (e : Error) : Run η σ α := fun w => ⟨.error e, w, []⟩

/-- The run that gives a result which is known to succeed or fail. -/
def ofExcept : Except Error α → Run η σ α
  | .ok a => pure a
  | .error e => fail e

/-- The run in which one event happens. -/
def emit (e : Event) : Run η σ Unit := fun w => ⟨.ok (), w, [e]⟩

/-- The run in which some events happen. -/
def emitAll (es : List Event) : Run η σ Unit := fun w => ⟨.ok (), w, es⟩

/-- A run whose outcome and events are its value, and which never fails. -/
def observe (x : Run η σ α) : Run η σ (Except Error α × List Event) := fun w =>
  match x w with
  | ⟨outcome, w', events⟩ => ⟨.ok (outcome, events), w', []⟩

/-! ## The world -/

def registry : Run η σ (Registry η) := fun w => ⟨.ok w.registry, w, []⟩

def setRegistry (r : Registry η) : Run η σ Unit := fun w => ⟨.ok (), { w with registry := r }, []⟩

def config : Run η σ Config := fun w => ⟨.ok w.config, w, []⟩

def setConfig (c : Config) : Run η σ Unit := fun w => ⟨.ok (), { w with config := c }, []⟩

/-- The memory of the handlers. -/
def memory : Run η σ σ := fun w => ⟨.ok w.memory, w, []⟩

/-- Replace the memory of the handlers. -/
def setMemory (m : σ) : Run η σ Unit := fun w => ⟨.ok (), { w with memory := m }, []⟩

/-- A run inside a context configuration.  However it ends, the configuration after it is the one
before it. -/
def withConfig (c : Config) (x : Run η σ α) : Run η σ α := fun w =>
  match x { w with config := c } with
  | ⟨outcome, w', events⟩ => ⟨outcome, { w' with config := w.config }, events⟩

/-- Register a handler, or ignore the value offered in its place. -/
def register (name : Text) (offer : Offer η) : Run η σ Unit := do
  match (← registry).register name offer with
  | .ok (r, events) => setRegistry r; emitAll events
  | .error e => fail e

/-- Remove the handler of a name. -/
def unregister (name : Text) : Run η σ Unit := do
  setRegistry ((← registry).unregister name)

def clear : Run η σ Unit := do
  setRegistry (← registry).clear

/-- The expression of a vocabulary.  It is built if it is not kept from before. -/
def expression (v : Vocabulary) : Run η σ (Pattern Field) := fun w =>
  match w.expressions.request v with
  | ⟨p, computed, cache⟩ =>
      ⟨.ok p, { w with expressions := cache },
        if computed then [.compiled v.names.length (v.form == .full)] else []⟩

end Run

end BracketTags
