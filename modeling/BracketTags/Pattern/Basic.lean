import BracketTags.Text.Blank
import BracketTags.Text.Word

/-!
# Patterns

A pattern describes the beginning of a text.  It is built from single
characters and character classes by sequence, ordered choice and repetition,
and it may name the parts of the text it takes.  The names are the values of a
type `γ`, one for each group, so a pattern of tags and a pattern of attribute
tokens name their parts by different types.

How often a repetition goes round is settled by its greed.

* A *greedy* repetition tries more rounds first and gives them back one by one.
* A *lazy* repetition tries fewer rounds first.
* A *possessive* repetition goes as many rounds as it can and gives none back.
-/

namespace BracketTags

/-! ## Character classes -/

/-- A kind of character, as a member of a class. -/
inductive CharKind where
  | exact (c : Char)
  | word
  | blank
deriving DecidableEq

/-- Whether a character is of a kind. -/
def CharKind.has : CharKind → Char → Bool
  | .exact c, d => c == d
  | .word, d => isWord d
  | .blank, d => isBlank d

/-- A class of characters: those of some kinds, or all the others. -/
structure CharClass where
  kinds : List CharKind
  /-- Whether the class has the characters that are of no kind in the list. -/
  negated : Bool := false
deriving DecidableEq

namespace CharClass

/-- The characters of some kinds. -/
def of (kinds : List CharKind) : CharClass := ⟨kinds, false⟩

/-- The characters of none of some kinds. -/
def except (kinds : List CharKind) : CharClass := ⟨kinds, true⟩

/-- Whether a character belongs to a class. -/
def has (cls : CharClass) (c : Char) : Bool := (cls.kinds.any fun k => k.has c) != cls.negated

end CharClass

/-! ## Patterns -/

/-- Which number of rounds a repetition tries first. -/
inductive Greed where
  /-- As many rounds as possible, then fewer. -/
  | greedy
  /-- As few rounds as possible, then more. -/
  | sparing
  /-- As many rounds as possible and no fewer. -/
  | possessive
deriving DecidableEq

/-- A pattern whose groups are named by the values of `γ`. -/
inductive Pattern (γ : Type) where
  | empty
  | char (c : Char)
  | one (cls : CharClass)
  /-- Characters of a class, any number of them. -/
  | many (greed : Greed) (cls : CharClass)
  | seq (p q : Pattern γ)
  /-- The first of two patterns, or else the second. -/
  | alt (p q : Pattern γ)
  | optional (p : Pattern γ)
  /-- A pattern any number of times. -/
  | star (greed : Greed) (p : Pattern γ)
  /-- A pattern whose text is kept under a name. -/
  | group (g : γ) (p : Pattern γ)
  /-- The text kept under a name, once more. -/
  | again (g : γ)
  /-- The empty text, where a pattern does not match. -/
  | notAhead (p : Pattern γ)
  /-- The empty text, at the end. -/
  | atEnd

namespace Pattern

variable {γ : Type}

def sequence : List (Pattern γ) → Pattern γ
  | [] => .empty
  | [p] => p
  | p :: ps => .seq p (sequence ps)

def literal (t : Text) : Pattern γ := sequence (t.map .char)

/-- The first of some patterns that leads to a match. -/
def choice : List (Pattern γ) → Pattern γ
  | [] => .empty
  | [p] => p
  | p :: ps => .alt p (choice ps)

/-- Characters of a class, at least one of them. -/
def oneOrMore (cls : CharClass) : Pattern γ := .seq (.one cls) (.many .greedy cls)

end Pattern

end BracketTags
