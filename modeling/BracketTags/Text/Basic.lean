/-!
# Texts

A text is a list of characters.  Lengths and offsets count characters.  A text
is *at the start* of another when the other begins with it, and *occurs* in it
when it is at the start of some rest of it.
-/

namespace BracketTags

/-- A text, character by character. -/
abbrev Text := List Char

/-- Texts are hashed as strings. -/
instance : Hashable Text := ⟨fun t => hash (String.ofList t)⟩

namespace Text

/-- What is left of a text after a given beginning, if the text begins with it. -/
def dropStart? : Text → Text → Option Text
  | [], t => some t
  | _ :: _, [] => none
  | c :: cs, d :: ds => if c = d then dropStart? cs ds else none

/-- Whether a text occurs in another one. -/
def occursIn (part : Text) : Text → Bool
  | [] => part.isEmpty
  | c :: cs => part.isPrefixOf (c :: cs) || occursIn part cs

/-- The characters from offset `start` up to offset `stop`. -/
def slice (t : Text) (start stop : Nat) : Text := (t.drop start).take (stop - start)

theorem dropStart?_eq_some_iff {part t rest : Text} :
    dropStart? part t = some rest ↔ t = part ++ rest := by
  induction part generalizing t with
  | nil => simp [dropStart?, eq_comm]
  | cons c cs ih =>
      cases t with
      | nil => simp [dropStart?]
      | cons d ds =>
          by_cases h : c = d
          · simp [dropStart?, h, ih]
          · simp [dropStart?, h, Ne.symm h]

theorem occursIn_iff {part t : Text} : occursIn part t = true ↔ part <:+: t := by
  induction t with
  | nil => simp [occursIn]
  | cons c cs ih => simp [occursIn, ih, List.infix_cons_iff]

end Text

end BracketTags
