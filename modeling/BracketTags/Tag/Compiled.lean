import BracketTags.Cache
import BracketTags.Tag.Scan

/-!
# Compiled expressions

The expression of a list of names is built once for each of the two forms and
kept for the next pass.  The last 128 expressions are kept.
-/

namespace BracketTags

/-- What an expression is built from. -/
structure Vocabulary where
  /-- The names, in the order in which they are tried. -/
  names : List Text
  /-- The form. -/
  form : Form
deriving DecidableEq

/-- The expression built from a vocabulary. -/
def Vocabulary.expression (v : Vocabulary) : Pattern Field := Tag.expression v.names v.form

/-- The number of expressions that are kept. -/
def expressionLimit : Nat := 128

/-- The expressions built so far. -/
abbrev ExpressionCache := Cache expressionLimit Vocabulary.expression

end BracketTags
