/-!
# Caches

A cache keeps the results of a function for the arguments that were requested
last.  A request for a kept argument makes it the most recent one.  Any other
request computes the result and keeps it, and when there are too many the one
whose last request is longest ago goes.

Every kept result is the result of the function, so a request gives the same
answer with any cache.
-/

namespace BracketTags

variable {κ ν : Type}

/-- A result together with its argument. -/
structure Kept (f : κ → ν) where
  key : κ
  value : ν
  /-- The result is that of the function. -/
  value_eq : value = f key

/-- The results of `f` for at most `capacity` arguments, the most recently requested one first. -/
structure Cache (capacity : Nat) (f : κ → ν) where
  entries : List (Kept f) := []

namespace Cache

variable {capacity : Nat} {f : κ → ν}

/-- The arguments whose results are kept, the most recently requested one first. -/
def keys (c : Cache capacity f) : List κ := c.entries.map Kept.key

/-- The answer to a request. -/
structure Answer (capacity : Nat) (f : κ → ν) where
  value : ν
  /-- Whether the result was computed for this request. -/
  computed : Bool
  /-- The cache after the request. -/
  cache : Cache capacity f

variable [DecidableEq κ]

/-- Request the result for an argument. -/
def request (c : Cache capacity f) (k : κ) : Answer capacity f :=
  match c.entries.find? fun e => e.key = k with
  | some e => ⟨e.value, false, ⟨e :: c.entries.filter fun e => e.key ≠ k⟩⟩
  | none => ⟨f k, true, ⟨(⟨k, f k, rfl⟩ :: c.entries).take capacity⟩⟩

/-- A request gives the result of the function. -/
@[simp] theorem value_request (c : Cache capacity f) (k : κ) : (c.request k).value = f k := by
  unfold request
  split
  · next e he =>
      have hk : e.key = k := by simpa using List.find?_some he
      rw [e.value_eq, hk]
  · rfl

end Cache

end BracketTags
