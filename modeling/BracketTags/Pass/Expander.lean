import BracketTags.Pass.Handler
import BracketTags.Text.Builder

/-!
# Passes

An expander goes over a text once and replaces each tag by what its handler
answers.

* The tags are those of the names that its source has when the pass starts.
* An escaped tag loses its markers and no handler is called.
* Any other tag is answered by the handler that the source has for its name at
  that moment.  Its markers stay around the answer.
* If there is no handler, the pass fails when it is strict.  Otherwise the tag
  stays in place.
* Replacements are not looked at again.

Whether a pass is strict is settled when it starts, by the fixed configuration
of the expander or else by the context.

There are two ways to expand.  `Expander.expand` replaces the segments of the
text one by one and takes no awaitable result.  `Expander.expandAwaiting` moves
a cursor along the text, gathers the parts of its result in a builder, and
awaits each awaitable result before it goes on.
-/

namespace BracketTags

/-- What a pass uses. -/
structure Expander (η : Type) where
  /-- Where names and handlers are found. -/
  source : Source η
  /-- The configuration, unless the context gives it. -/
  fixed : Option Config := none

namespace Expander

variable {η σ : Type}

/-- The names that are recognized now. -/
def names (e : Expander η) : Run η σ (List Text) := do
  return e.source.names (← Run.registry)

/-- The configuration of a pass that starts now. -/
def config (e : Expander η) : Run η σ Config :=
  match e.fixed with
  | some c => pure c
  | none => Run.config

/-- What the expression for a text, or for any text, is built from, unless there are no names. -/
def vocabulary? (e : Expander η) (text? : Option Text) : Run η σ (Option Vocabulary) := do
  let names ← e.names
  if names.isEmpty then return none
  let form := match text? with
    | some t => Tag.formFor names t
    | none => .full
  return some ⟨names, form⟩

/-- The form of the expression and the expression itself. -/
def pattern? (e : Expander η) (text? : Option Text) :
    Run η σ (Option (Form × Pattern Field)) := do
  match ← e.vocabulary? text? with
  | none => return none
  | some v => return some (v.form, ← Run.expression v)

/-- The tags in a text, or nothing if no names are recognized. -/
def scan? (e : Expander η) (t : Text) : Run η σ (Option (List Occurrence)) := do
  match ← e.pattern? (some t) with
  | none => return none
  | some (_, p) => return some (Tag.occurrences p t)

/-- The tags in a text. -/
def scan (e : Expander η) (t : Text) : Run η σ (List Occurrence) := do
  return (← e.scan? t).getD []

/-- Whether a text has a tag that is not escaped, of one name or of any. -/
def hasTag (e : Expander η) (t : Text) (name? : Option Text) : Run η σ Bool := do
  return (← e.scan t).any fun o =>
    !o.tag.isEscaped && name?.all fun name => o.tag.name == name

/-- The text without its tags.  Markers of tags that are not escaped stay. -/
def strip (e : Expander η) (t : Text) : Run η σ Text := do
  match ← e.scan? t with
  | none => return t
  | some os => return stripped t os

/-- The handler to call for a tag, or nothing if the tag stays literal. -/
def resolve (e : Expander η) (strict : Bool) (o : Occurrence) : Run η σ (Option η) := do
  if o.tag.isEscaped then return none
  match e.source.get? (← Run.registry) o.tag.name with
  | some h => return some h
  | none =>
      if strict then Run.fail (.missingHandler o.tag.name (some o.start))
      Run.emit (.unhandled o.tag.name o.start)
      return none

/-! ## Expansion -/

/-- What a tag is replaced by. -/
def replacement (act : Behaviour η σ) (e : Expander η) (strict : Bool) (o : Occurrence) :
    Run η σ Text := do
  match ← e.resolve strict o with
  | none => return o.literalText
  | some h =>
      match ← act.invoke h o.tag.call with
      | .value v => return o.tag.withMarkers v.toText
      | .awaitable _ => Run.fail (.awaitable o.tag.name)

/-- The segments with every tag replaced, as one text. -/
def replaceAll (act : Behaviour η σ) (e : Expander η) (strict : Bool) :
    List Segment → Run η σ Text
  | [] => pure []
  | .gap t :: rest => (t ++ ·) <$> replaceAll act e strict rest
  | .tag o :: rest => do
      let t ← replacement act e strict o
      (t ++ ·) <$> replaceAll act e strict rest

/-- The text with every tag replaced. -/
def expand (act : Behaviour η σ) (e : Expander η) (t : Text) : Run η σ Text := do
  match ← e.scan? t with
  | none => return t
  | some os => replaceAll act e (← e.config).isStrict (segments t os)

/-! ## Expansion that awaits -/

/-- The value of a handler's answer, awaited if need be. -/
def settle (name : Text) : Reply η σ → Run η σ Value
  | .value v => pure v
  | .awaitable body => do
      Run.emit (.awaited name)
      body

/-- The rest of the work when the cursor stands at offset `pos` and `done` is built. -/
def advance (act : Behaviour η σ) (e : Expander η) (strict : Bool) (t : Text) :
    Nat → Builder → List Occurrence → Run η σ Text
  | pos, done, [] => pure (done.append (t.drop pos)).build
  | pos, done, o :: os => do
      let done := done.append (t.slice pos o.start)
      match ← e.resolve strict o with
      | none => advance act e strict t o.stop (done.append o.literalText) os
      | some h =>
          let v ← settle o.tag.name (← act.invoke h o.tag.call)
          let done := ((done.append o.tag.openText).append v.toText).append o.tag.closeText
          advance act e strict t o.stop done os

/-- The text with every tag replaced, where awaitable results are awaited in order. -/
def expandAwaiting (act : Behaviour η σ) (e : Expander η) (t : Text) : Run η σ Text := do
  match ← e.scan? t with
  | none => return t
  | some os => advance act e (← e.config).isStrict t 0 {} os

end Expander

end BracketTags
