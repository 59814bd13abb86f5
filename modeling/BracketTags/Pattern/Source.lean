import BracketTags.Pattern.Basic

/-!
# Written patterns

`Pattern.source` writes a pattern as a regular expression.

* A character that has a meaning in expressions follows a backslash, and so
  does a blank of the first code points.
* A group is written `(?P<name>…)`, its text once more `(?P=name)`, and a
  negative look-ahead `(?!…)`.
* A repetition or an option of more than one character, and a choice that is a
  member of a sequence, stand in `(?:…)`.
-/

namespace BracketTags

/-- Whether a character follows a backslash in an expression. -/
def isSpecial (c : Char) : Bool := c ∈ "()[]\x7b\x7d?*+-|^$\\.&~# \t\n\r\x0b\x0c".toList

/-- A character in an expression. -/
def escapedChar (c : Char) : Text := if isSpecial c then ['\\', c] else [c]

/-- A text in an expression, standing for itself. -/
def Text.escaped (t : Text) : Text := t.flatMap escapedChar

/-- A kind of character inside the brackets of a class. -/
def CharKind.source : CharKind → Text
  | .exact c => if c ∈ "[]\\^".toList then ['\\', c] else [c]
  | .word => "\\w".toList
  | .blank => "\\s".toList

/-- A class in its brackets. -/
def CharClass.source (cls : CharClass) : Text :=
  (if cls.negated then "[^".toList else "[".toList) ++ cls.kinds.flatMap CharKind.source ++ [']']

/-- The mark after the sign of a repetition. -/
def Greed.mark : Greed → Text
  | .greedy => []
  | .sparing => ['?']
  | .possessive => ['+']

namespace Pattern

variable {γ : Type}

/-- Whether a pattern is a choice, which has to be enclosed inside a sequence. -/
def isChoice : Pattern γ → Bool
  | .alt _ _ => true
  | _ => false

/-- Whether a pattern takes one character, so that a sign after it applies to all of it. -/
def isSingle : Pattern γ → Bool
  | .char _ | .one _ => true
  | _ => false

/-- A text enclosed without a name, when that is needed. -/
def enclosedIf (needed : Bool) (t : Text) : Text :=
  if needed then "(?:".toList ++ t ++ ")".toList else t

/-- A pattern written as a regular expression, where `label` gives the names of its groups. -/
def source (label : γ → Text) : Pattern γ → Text
  | .empty => []
  | .char c => escapedChar c
  | .one cls => cls.source
  | .many greed cls => cls.source ++ '*' :: greed.mark
  | .seq p q => enclosedIf p.isChoice (source label p) ++ enclosedIf q.isChoice (source label q)
  | .alt p q => source label p ++ '|' :: source label q
  | .optional p => enclosedIf (!p.isSingle) (source label p) ++ ['?']
  | .star greed p => enclosedIf (!p.isSingle) (source label p) ++ '*' :: greed.mark
  | .group g p => "(?P<".toList ++ label g ++ ">".toList ++ source label p ++ ")".toList
  | .again g => "(?P=".toList ++ label g ++ ")".toList
  | .notAhead p => "(?!".toList ++ source label p ++ ")".toList
  | .atEnd => ['$']

end Pattern

end BracketTags
