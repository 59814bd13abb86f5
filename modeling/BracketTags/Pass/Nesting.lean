import BracketTags.Pass.Expander

/-!
# Nested passes

A handler may expand the content it is called with, which starts a pass inside
the pass that called it.  The handlers of the inner pass may do the same.

The content of a tag is shorter than the text the tag stands in, so the nesting
ends.  `Reentrant.nested` counts it down from a given depth.  A handler that
would start one more pass after that fails.
-/

namespace BracketTags

/-- Behaviour that may expand the content it is called with.  The run it is given does that. -/
abbrev Reentrant (η σ : Type) := Run η σ (Option Text) → Behaviour η σ

namespace Reentrant

variable {η σ : Type}

/-- The behaviour when content is expanded by `e` and passes are nested at most `depth` deep. -/
def nested (act : Reentrant η σ) (e : Expander η) : Nat → Behaviour η σ
  | 0 => act (Run.fail .tooDeep)
  | depth + 1 => fun h call =>
      let inner := match call.content with
        | none => pure none
        | some content => some <$> e.expand (nested act e depth) content
      act inner h call

end Reentrant

/-- A depth that is enough for the passes that start with a text. -/
def depthFor (t : Text) : Nat := t.length + 1

end BracketTags
