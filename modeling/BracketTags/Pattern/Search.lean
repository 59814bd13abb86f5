import BracketTags.Pattern.Matching

/-!
# Searching

`Pattern.findAll` gives the matches of a pattern in a text, from left to right.
A match begins at the first place at or after the end of the one before where
the pattern matches.  A match takes at least one character.
-/

namespace BracketTags

/-- A match of a pattern in a text. -/
structure Found (γ : Type) where
  /-- The offset of its first character. -/
  start : Nat
  /-- The text it takes, and that text's parts, as parts of the rest of the text. -/
  whole : Capture
  captures : γ → Option Capture

namespace Found

variable {γ : Type}

/-- The offset just past its last character. -/
def stop (m : Found γ) : Nat := m.start + m.whole.length

def text (m : Found γ) : Text := m.whole.text

def part? (m : Found γ) (g : γ) : Option Text := (m.captures g).map Capture.text

end Found

namespace Pattern

variable {γ : Type} [DecidableEq γ]

/-- The match at the start of a text that stands at offset `start`, if there is one. -/
def found? (p : Pattern γ) (start : Nat) (t : Text) : Option (Found γ) :=
  match p.matchStart? t with
  | some s => if s.taken = 0 then none else some ⟨start, ⟨t, s.taken⟩, s.captures⟩
  | none => none

/-- The matches in a text that stands at offset `start`, after `skip` more characters of the last
match. -/
def findFrom (p : Pattern γ) : (skip start : Nat) → Text → List (Found γ)
  | _, _, [] => []
  | skip + 1, start, _ :: cs => findFrom p skip (start + 1) cs
  | 0, start, c :: cs =>
      match p.found? start (c :: cs) with
      | some m => m :: findFrom p (m.whole.length - 1) (start + 1) cs
      | none => findFrom p 0 (start + 1) cs

/-- The matches in a text, from left to right. -/
def findAll (p : Pattern γ) (t : Text) : List (Found γ) := p.findFrom 0 0 t

end Pattern

end BracketTags
