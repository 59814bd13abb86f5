import BracketTags.Text.Basic

/-!
# Text builders

A builder gathers the parts of a text and joins them once at the end.  Empty
parts are not kept, so its size is the number of parts that are not empty.
-/

namespace BracketTags

/-- The parts of a text that is being built. -/
structure Builder where
  /-- The parts gathered so far, last part first. -/
  parts : List Text := []

namespace Builder

/-- The builder with a part added at the end, or the same builder for an empty part. -/
def append (b : Builder) (part : Text) : Builder :=
  if part.isEmpty then b else ⟨part :: b.parts⟩

/-- The text made of all parts. -/
def build (b : Builder) : Text := b.parts.reverse.flatten

/-- The number of parts kept. -/
def size (b : Builder) : Nat := b.parts.length

/-- Whether no part is kept. -/
def isEmpty (b : Builder) : Bool := b.parts.isEmpty

@[simp] theorem build_empty : (Builder.mk []).build = [] := rfl

@[simp] theorem build_append (b : Builder) (part : Text) :
    (b.append part).build = b.build ++ part := by
  cases part with
  | nil => simp [append]
  | cons c cs => simp [append, build]

end Builder

end BracketTags
