import BracketTags.Pattern.Basic

/-!
# Matching

`Pattern.attempt` matches a pattern at the start of a text and then goes on
with what shall follow it.  If what follows fails, the pattern gives its next
choice, until one choice leads to a match of both.  The first such choice is
the answer, so the order of choices decides which match is found:

* `alt p q` tries `p` before `q`, and `optional p` tries `p` before nothing;
* a repetition tries its rounds in the order of its greed.

A part kept under a name is the text its group took on the way to the match.
A look-ahead keeps nothing.

A repetition goes at most one round for each character that is left.  That is
no limit for a pattern that takes a character in every round.
-/

namespace BracketTags

/-- A part of a text: its first `length` characters from some place on. -/
structure Capture where
  /-- The text from the start of the part to the end of the whole text. -/
  source : Text
  length : Nat

/-- The part as a text of its own. -/
def Capture.text (c : Capture) : Text := c.source.take c.length

/-- How far a match has come. -/
structure Progress (γ : Type) where
  rest : Text
  taken : Nat
  /-- The parts kept so far. -/
  captures : γ → Option Capture

namespace Progress

variable {γ : Type}

/-- The state before a match. -/
def start (t : Text) : Progress γ := ⟨t, 0, fun _ => none⟩

/-- The state after one more character, with `rest` left. -/
def step (s : Progress γ) (rest : Text) : Progress γ := ⟨rest, s.taken + 1, s.captures⟩

/-- The state with the text taken since `s` kept under the name `g`. -/
def keep [DecidableEq γ] (g : γ) (s s' : Progress γ) : Progress γ :=
  { s' with
    captures := fun h => if h = g then some ⟨s.rest, s'.taken - s.taken⟩ else s'.captures h }

end Progress

namespace Pattern

variable {γ : Type}

/-- What shall follow a pattern: it leads on to the end of a match, or to none. -/
abbrev Follow (γ : Type) := Progress γ → Option (Progress γ)

/-! ## Repetition of characters -/

/-- As many characters of a class as lead to a match, the most first. -/
def mostChars (cls : CharClass) (next : Follow γ) (caps : γ → Option Capture) :
    Text → Nat → Option (Progress γ)
  | [], n => next ⟨[], n, caps⟩
  | c :: cs, n =>
      if cls.has c then
        match mostChars cls next caps cs (n + 1) with
        | some s => some s
        | none => next ⟨c :: cs, n, caps⟩
      else next ⟨c :: cs, n, caps⟩

/-- As many characters of a class as lead to a match, the fewest first. -/
def fewestChars (cls : CharClass) (next : Follow γ) (caps : γ → Option Capture) :
    Text → Nat → Option (Progress γ)
  | [], n => next ⟨[], n, caps⟩
  | c :: cs, n =>
      match next ⟨c :: cs, n, caps⟩ with
      | some s => some s
      | none => if cls.has c then fewestChars cls next caps cs (n + 1) else none

/-- All characters of a class that a text begins with. -/
def allChars (cls : CharClass) (next : Follow γ) (caps : γ → Option Capture) :
    Text → Nat → Option (Progress γ)
  | [], n => next ⟨[], n, caps⟩
  | c :: cs, n =>
      if cls.has c then allChars cls next caps cs (n + 1) else next ⟨c :: cs, n, caps⟩

/-! ## Repetition of patterns -/

/-- As many rounds as lead to a match, the most first. -/
def mostRounds (round : Follow γ → Follow γ) (next : Follow γ) : Text → Follow γ
  | [], s => next s
  | _ :: bound, s =>
      match round (mostRounds round next bound) s with
      | some s' => some s'
      | none => next s

/-- As many rounds as lead to a match, the fewest first. -/
def fewestRounds (round : Follow γ → Follow γ) (next : Follow γ) : Text → Follow γ
  | [], s => next s
  | _ :: bound, s =>
      match next s with
      | some s' => some s'
      | none => round (fewestRounds round next bound) s

/-- All rounds that can be gone. -/
def allRounds (round : Follow γ) : Text → Progress γ → Progress γ
  | [], s => s
  | _ :: bound, s =>
      match round s with
      | some s' => allRounds round bound s'
      | none => s

/-! ## Matching -/

variable [DecidableEq γ]

/-- Match a pattern and then what shall follow it, and give the end of the first match of both. -/
def attempt : Pattern γ → Follow γ → Follow γ
  | .empty, next, s => next s
  | .char c, next, s =>
      match s.rest with
      | [] => none
      | d :: rest => if d = c then next (s.step rest) else none
  | .one cls, next, s =>
      match s.rest with
      | [] => none
      | d :: rest => if cls.has d then next (s.step rest) else none
  | .many .greedy cls, next, s => mostChars cls next s.captures s.rest s.taken
  | .many .sparing cls, next, s => fewestChars cls next s.captures s.rest s.taken
  | .many .possessive cls, next, s => allChars cls next s.captures s.rest s.taken
  | .seq p q, next, s => attempt p (attempt q next) s
  | .alt p q, next, s =>
      match attempt p next s with
      | some s' => some s'
      | none => attempt q next s
  | .optional p, next, s =>
      match attempt p next s with
      | some s' => some s'
      | none => next s
  | .star .greedy p, next, s => mostRounds (attempt p) next s.rest s
  | .star .sparing p, next, s => fewestRounds (attempt p) next s.rest s
  | .star .possessive p, next, s => next (allRounds (attempt p some) s.rest s)
  | .group g p, next, s => attempt p (fun s' => next (s.keep g s')) s
  | .again g, next, s =>
      match s.captures g with
      | none => none
      | some c =>
          match Text.dropStart? c.text s.rest with
          | some rest => next ⟨rest, s.taken + c.length, s.captures⟩
          | none => none
  | .notAhead p, next, s => if (attempt p some s).isSome then none else next s
  | .atEnd, next, s => if s.rest.isEmpty then next s else none

/-- The end of the match of a pattern at the start of a text, if there is one. -/
def matchStart? (p : Pattern γ) (t : Text) : Option (Progress γ) := p.attempt some (.start t)

end Pattern

end BracketTags
