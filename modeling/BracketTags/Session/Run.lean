import BracketTags.Session.Command

/-!
# Running a session

`Session.run` registers the first handlers and then runs the commands one after
another.  A command that fails does not end the session.
-/

namespace BracketTags

namespace Command

/-! ## Places and passes -/

/-- Where a place has its names and handlers. -/
def sourceOf : Place → Scripted (Source Handler)
  | .registry => pure .live
  | .snapshot name => do
      match (← Run.memory).snapshots.find? name with
      | some s => return .frozen s
      | none => Run.fail (.missingKey (.name name))

def facade (fixed : Option Config) : Expander Handler := ⟨.live, fixed⟩

/-- The expander of a target, when `fixed` is the configuration of the facade. -/
def expanderOf (fixed : Option Config) : Target → Scripted (Expander Handler)
  | .facade => pure (facade fixed)
  | .fresh place own => do return ⟨← sourceOf place, own⟩

/-- Expand a text by an expander. -/
def expandBy (fixed : Option Config) (e : Expander Handler) (t : Text) : Scripted Text :=
  e.expand (Script.behaviour (facade fixed) (depthFor t)) t

/-- Expand a text by an expander and await awaitable results. -/
def expandAwaitingBy (fixed : Option Config) (e : Expander Handler) (t : Text) : Scripted Text :=
  e.expandAwaiting (Script.behaviour (facade fixed) (depthFor t)) t

def expandAll (fixed : Option Config) : List Text → Scripted (List Text)
  | [] => pure []
  | t :: ts => do
      let u ← expandBy fixed (facade fixed) t
      return u :: (← expandAll fixed ts)

/-- Whether two look-ups gave the same handler, or both gave none. -/
def sameSerial (a b : Option Handler) : Bool := a.map Handler.serial == b.map Handler.serial

/-! ## Commands -/

/-- Report on a run. -/
def report (x : Scripted Answer) : Scripted (Report Answer) := do
  let (outcome, events) ← x.observe
  let r ← Run.registry
  return ⟨outcome, events, r.names, r.version⟩

mutual

/-- Run a command, when `fixed` is the configuration of the facade. -/
def perform (fixed : Option Config) : Command → Scripted Answer
  | .register name offer => do
      registerScript name offer
      return .done
  | .decorate name offer => do
      registerScript name offer
      return .flag true
  | .unregister name => do
      Run.unregister name
      return .done
  | .clear => do
      Run.clear
      return .done
  | .snapshot name => do
      let s := (← Run.registry).snapshot
      let m ← Run.memory
      Run.setMemory { m with snapshots := m.snapshots.insert name s }
      return .done
  | .state place => do
      let s ← sourceOf place
      let r ← Run.registry
      return .state ⟨s.names r, s.version r, s.shown r⟩
  | .lookup place name => do
      let s ← sourceOf place
      let r ← Run.registry
      return .found ((s.names r).contains name) (s.get? r name).isSome
  | .sameHandler a b name => do
      let s ← sourceOf a
      let t ← sourceOf b
      let r ← Run.registry
      return .flag (sameSerial (s.get? r name) (t.get? r name))
  | .wiring place => do
      let _ ← sourceOf place
      return .flags [true, true, true]
  | .pattern place text? => do
      let e : Expander Handler := ⟨← sourceOf place, none⟩
      return .form ((← e.pattern? text?).map Prod.fst)
  | .expand target t => do return .text (← expandBy fixed (← expanderOf fixed target) t)
  | .expandAwaiting target t => do
      return .text (← expandAwaitingBy fixed (← expanderOf fixed target) t)
  | .scan target t => do return .tags (← (← expanderOf fixed target).scan t)
  | .hasTag target t name? => do return .flag (← (← expanderOf fixed target).hasTag t name?)
  | .expandMany ts => do return .texts (← expandAll fixed ts)
  | .strip place t => do
      let e : Expander Handler := ⟨← sourceOf place, none⟩
      return .text (← e.strip t)
  | .effectiveConfig own => do return .config (← (facade own).config)
  | .getConfig => do return .config (← Run.config)
  | .setConfig c => do
      Run.setConfig c
      return .done
  | .resetConfig => do
      Run.setConfig {}
      return .done
  | .withConfig c commands failure => do
      let reports ← Run.withConfig c (reportAll fixed commands)
      return .block reports failure (← Run.config)

/-- Run commands one after another and report on each. -/
def reportAll (fixed : Option Config) : List Command → Scripted (List (Report Answer))
  | [] => pure []
  | c :: rest => do
      let r ← report (perform fixed c)
      return r :: (← reportAll fixed rest)

end

end Command

/-! ## Sessions -/

def registerAll : List (Text × Offer Script) → Scripted Unit
  | [] => pure ()
  | (name, offer) :: rest => do
      registerScript name offer
      registerAll rest

/-- The world in which a session starts. -/
def World.initial : World Handler Memory := { memory := {} }

/-- A session to be run. -/
structure Session where
  /-- The first handlers by name. -/
  handlers : OrderedMap Text (Offer Script)
  /-- The configuration of the facade, if it has one. -/
  fixed : Option Config
  commands : List Command

namespace Session

/-- Register the first handlers, and then run the commands. -/
def perform (s : Session) : Scripted (Report Answer × List (Report Answer)) := do
  let start ← Command.report do
    registerAll s.handlers.entries
    return .done
  match start.outcome with
  | .ok _ => return (start, ← Command.reportAll s.fixed s.commands)
  | .error _ => return (start, [])

/-- The report on the start of a session and those on its commands. -/
def run (s : Session) : Except Error (Report Answer × List (Report Answer)) :=
  (s.perform World.initial).outcome

end Session

end BracketTags
