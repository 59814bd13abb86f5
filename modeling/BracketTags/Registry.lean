import BracketTags.Event

/-!
# Registries

A registry holds at most one handler for each name, in the order in which the
names came, and counts the changes made to it.

* Registering a handler counts.  A known name keeps its place.
* Registering a value that is no handler changes nothing.
* The empty name cannot be registered.
* Removing a name counts if the name was there.
* Clearing always counts.

A snapshot holds what a registry held when it was taken.
-/

namespace BracketTags

/-- What is offered for registration. -/
inductive Offer (η : Type) where
  | handler (h : η)
  /-- A plain value, which is no handler. -/
  | scalar (v : Value)

/-- The handlers by name, with a count of changes. -/
structure Registry (η : Type) where
  handlers : OrderedMap Text η := .empty
  /-- The number of changes. -/
  version : Nat := 0
  /-- No handler has the empty name. -/
  nil_notMem : [] ∉ handlers.keys := by simp

/-- The handlers that a registry held at one time. -/
structure Snapshot (η : Type) where
  handlers : OrderedMap Text η
  /-- The number of changes of the registry at that time. -/
  version : Nat
  /-- No handler has the empty name. -/
  nil_notMem : [] ∉ handlers.keys

namespace Registry

variable {η : Type}

def names (r : Registry η) : List Text := r.handlers.keys

def get? (r : Registry η) (name : Text) : Option η := r.handlers.find? name

/-- The registry with a handler for a name that is not empty. -/
def accept (r : Registry η) (name : Text) (hn : name ≠ []) (h : η) : Registry η where
  handlers := r.handlers.insert name h
  version := r.version + 1
  nil_notMem := fun hm =>
    (OrderedMap.mem_keys_insert.mp hm).elim (fun he => hn he.symm) r.nil_notMem

/-- The registry after a registration, and what is logged. -/
def register (r : Registry η) (name : Text) (offer : Offer η) :
    Except Error (Registry η × List Event) :=
  if hn : name = [] then .error .emptyName
  else
    match offer with
    | .handler h => .ok (r.accept name hn h, [])
    | .scalar v => .ok (r, [.ignored name v])

/-- The registry without a handler for a name. -/
def unregister (r : Registry η) (name : Text) : Registry η :=
  if r.handlers.contains name then
    { handlers := r.handlers.erase name
      version := r.version + 1
      nil_notMem := fun hm => r.nil_notMem (OrderedMap.mem_keys_of_mem_keys_erase hm) }
  else r

def clear (r : Registry η) : Registry η := { version := r.version + 1 }

/-- What the registry holds now. -/
def snapshot (r : Registry η) : Snapshot η := ⟨r.handlers, r.version, r.nil_notMem⟩

def shown (r : Registry η) : Text :=
  "ShortcodeRegistry(names=".toList ++ Text.quotedList r.names ++ ")".toList

end Registry

namespace Snapshot

variable {η : Type}

def names (s : Snapshot η) : List Text := s.handlers.keys

def get? (s : Snapshot η) (name : Text) : Option η := s.handlers.find? name

def shown (s : Snapshot η) : Text :=
  "RegistrySnapshot(names=".toList ++ Text.quotedList s.names ++ ")".toList

end Snapshot

/-! ## Sources -/

/-- Where a pass finds names and handlers. -/
inductive Source (η : Type) where
  /-- In the registry, as it is when it is asked. -/
  | live
  | frozen (s : Snapshot η)

namespace Source

variable {η : Type}

/-- The names that a source has, when the registry is `r`. -/
def names : Source η → Registry η → List Text
  | live, r => r.names
  | frozen s, _ => s.names

/-- The handler that a source has for a name, when the registry is `r`. -/
def get? : Source η → Registry η → Text → Option η
  | live, r, name => r.get? name
  | frozen s, _, name => s.get? name

/-- The number of changes that a source shows, when the registry is `r`. -/
def version : Source η → Registry η → Nat
  | live, r => r.version
  | frozen s, _ => s.version

/-- The source as it is shown, when the registry is `r`. -/
def shown : Source η → Registry η → Text
  | live, r => r.shown
  | frozen s, _ => s.shown

end Source

end BracketTags
