import BracketTags.Text.Quoted

/-!
# Values

A value is what a handler answers, a setting or the default of an attribute: no
value at all, a truth value, an integer or a text.

As replacement text no value is empty and a text stands for itself.  In a
message a value is shown so that the kinds can be told apart.
-/

namespace BracketTags

/-- A plain value. -/
inductive Value where
  | nothing
  | bool (b : Bool)
  | int (i : Int)
  | text (t : Text)
deriving DecidableEq, Inhabited

namespace Value

/-- The written form of a truth value. -/
def boolText (b : Bool) : Text := if b then "True".toList else "False".toList

/-- The value as replacement text. -/
def toText : Value → Text
  | nothing => []
  | bool b => boolText b
  | int i => signedDecimal i
  | text t => t

/-- The value as it is shown in a message. -/
def quoted : Value → Text
  | nothing => "None".toList
  | bool b => boolText b
  | int i => signedDecimal i
  | text t => t.quoted

/-- Whether the value counts as true: neither nothing, nor false, nor zero, nor the empty text. -/
def isTrue : Value → Bool
  | nothing => false
  | bool b => b
  | int i => i != 0
  | text t => !t.isEmpty

/-- The number a value stands for, where a truth value stands for one or zero. -/
def number? : Value → Option Int
  | bool b => some (if b then 1 else 0)
  | int i => some i
  | _ => none

/-- Whether two values are equal, where numbers and truth values are compared as numbers. -/
def same (v w : Value) : Bool :=
  match v.number?, w.number? with
  | some i, some j => i == j
  | none, none => v == w
  | _, _ => false

example : (bool true).same (int 1) = true := by decide

end Value

end BracketTags
