/-!
# Sets of code points

A set of code points is a list of closed intervals in increasing order.  The
tables of character properties are such sets.
-/

namespace BracketTags

/-- A set of code points, as closed intervals in increasing order. -/
abbrev CodePoints := List (Nat × Nat)

/-- Whether a code point lies in one of the intervals.  The search stops at the first interval
that begins after it. -/
def CodePoints.has : CodePoints → Nat → Bool
  | [], _ => false
  | (first, last) :: rest, n =>
      if n < first then false
      else if n ≤ last then true
      else CodePoints.has rest n

end BracketTags
