import BracketTags.Proofs.Forms
import BracketTags.Proofs.Runs
import BracketTags.Proofs.Splicing

/-!
# What a pass does

A pass is told by a relation, tag by tag.

*One tag.*  `Answers` has one rule for each way in which a tag is met.  It says
which handler is called and with what, what the tag is replaced by or why the
pass fails, which world is left and which events happen.  The handler is looked
up in the world in which the tag is met.

*Some tags.*  `Visits` meets the tags in order, each in the world that the one
before it left, and none of them fails.

*A pass.*  `Expands` scans the text once, with the names in the world at the
start.  It visits all tags and splices the replacements into the text, or it
visits the tags before one that fails and stops there.

The relations say how a pass goes on only through the rules for its tags.  A
handler may do anything to the world, and may answer differently each time.
-/

namespace BracketTags

variable {η σ : Type}

/-! ## One tag -/

/-- The tag `o` is met in the world `w`.  Then follow the calls with their handlers, the text
that replaces the tag or the reason for a failure, the world after it, and the events. -/
inductive Answers (act : Behaviour η σ) (e : Expander η) (strict : Bool) (o : Occurrence)
    (w : World η σ) : List (η × Call) → Except Error Text → World η σ → List Event → Prop where
  /-- An escaped tag loses its outer brackets. -/
  | escaped (hesc : o.tag.isEscaped = true) :
      Answers act e strict o w [] (.ok o.unescapedText) w []
  /-- A tag without a handler stays as it is. -/
  | unhandled (hesc : o.tag.isEscaped = false)
      (hget : e.source.get? w.registry o.tag.name = none) (hstrict : strict = false) :
      Answers act e strict o w [] (.ok o.text) w [.unhandled o.tag.name o.start]
  /-- A tag without a handler is a failure of a strict pass. -/
  | missing (hesc : o.tag.isEscaped = false)
      (hget : e.source.get? w.registry o.tag.name = none) (hstrict : strict = true) :
      Answers act e strict o w [] (.error (.missingHandler o.tag.name (some o.start))) w []
  /-- The handler gives a value, which is put between the markers. -/
  | value {h : η} {v : Value} {w' : World η σ} {events : List Event}
      (hesc : o.tag.isEscaped = false) (hget : e.source.get? w.registry o.tag.name = some h)
      (hcall : act h o.tag.call w = ⟨.ok (.value v), w', events⟩) :
      Answers act e strict o w [(h, o.tag.call)]
        (.ok (o.tag.openText ++ v.toText ++ o.tag.closeText)) w'
        (.called o.tag.name (.parse o.tag.attributes) o.tag.content? :: events)
  /-- The handler gives an awaitable result, which is a failure.  It is not awaited. -/
  | awaitable {h : η} {body : Run η σ Value} {w' : World η σ} {events : List Event}
      (hesc : o.tag.isEscaped = false) (hget : e.source.get? w.registry o.tag.name = some h)
      (hcall : act h o.tag.call w = ⟨.ok (.awaitable body), w', events⟩) :
      Answers act e strict o w [(h, o.tag.call)]
        (.error (.awaitable o.tag.name)) w'
        (.called o.tag.name (.parse o.tag.attributes) o.tag.content? :: events)
  /-- The handler fails, and so does the pass. -/
  | failed {h : η} {err : Error} {w' : World η σ} {events : List Event}
      (hesc : o.tag.isEscaped = false) (hget : e.source.get? w.registry o.tag.name = some h)
      (hcall : act h o.tag.call w = ⟨.error err, w', events⟩) :
      Answers act e strict o w [(h, o.tag.call)]
        (.error err) w'
        (.called o.tag.name (.parse o.tag.attributes) o.tag.content? :: events)

/-! ## Some tags -/

/-- The tags are met one after another, from the world `w` on, and none of them fails.  Then
follow the calls, the replacements, the world after the tags, and the events. -/
inductive Visits (act : Behaviour η σ) (e : Expander η) (strict : Bool) :
    List Occurrence → World η σ → List (η × Call) → List Text → World η σ → List Event → Prop where
  | nil {w : World η σ} : Visits act e strict [] w [] [] w []
  | cons {o : Occurrence} {os : List Occurrence} {w w' w'' : World η σ}
      {calls more : List (η × Call)} {r : Text} {rs : List Text} {events rest : List Event}
      (head : Answers act e strict o w calls (.ok r) w' events)
      (tail : Visits act e strict os w' more rs w'' rest) :
      Visits act e strict (o :: os) w (calls ++ more) (r :: rs) w'' (events ++ rest)

/-! ## A pass -/

/-- A pass over the text `t` begins in the world `w`: there are names, and they settle the tags.
The configuration settles whether the pass is strict.  Only the expressions built so far may
change before the first tag is met, in the world `w₀`. -/
structure Begins (e : Expander η) (t : Text) (w : World η σ) (os : List Occurrence)
    (strict : Bool) (w₀ : World η σ) (events : List Event) : Prop where
  names_ne : e.source.names w.registry ≠ []
  tags : os = Tag.scan (e.source.names w.registry) t
  strict : strict = (e.fixed.getD w.config).isStrict
  compiled : ∃ p, Run.expression
    ⟨e.source.names w.registry, Tag.formFor (e.source.names w.registry) t⟩ w = ⟨.ok p, w₀, events⟩

/-- A pass over the text `t` that begins in the world `w`, and its result. -/
inductive Expands (act : Behaviour η σ) (e : Expander η) (t : Text) (w : World η σ) :
    Result η σ Text → Prop where
  /-- There are no names, so the text stays as it is. -/
  | nameless (hnames : e.source.names w.registry = []) : Expands act e t w ⟨.ok t, w, []⟩
  /-- All tags are replaced. -/
  | finished {os : List Occurrence} {strict : Bool} {w₀ w' : World η σ} {first events : List Event}
      {calls : List (η × Call)} {rs : List Text}
      (begins : Begins e t w os strict w₀ first)
      (visits : Visits act e strict os w₀ calls rs w' events) :
      Expands act e t w ⟨.ok (splice t 0 os rs), w', first ++ events⟩
  /-- A tag fails after those before it, and no other tag is met. -/
  | stopped {before after : List Occurrence} {o : Occurrence} {strict : Bool}
      {w₀ w₁ w' : World η σ} {first events last : List Event} {calls call : List (η × Call)}
      {rs : List Text} {err : Error}
      (begins : Begins e t w (before ++ o :: after) strict w₀ first)
      (visits : Visits act e strict before w₀ calls rs w₁ events)
      (fails : Answers act e strict o w₁ call (.error err) w' last) :
      Expands act e t w ⟨.error err, w', first ++ (events ++ last)⟩

/-- A pass over the text `t` that begins in the world `w` calls the handler `h` in the world
`w₁`. -/
inductive Calls (act : Behaviour η σ) (e : Expander η) (t : Text) (w : World η σ) :
    η → Call → World η σ → Prop where
  | intro {before after : List Occurrence} {o : Occurrence} {strict : Bool} {w₀ w₁ : World η σ}
      {first events : List Event} {calls : List (η × Call)} {rs : List Text} {h : η}
      (begins : Begins e t w (before ++ o :: after) strict w₀ first)
      (visits : Visits act e strict before w₀ calls rs w₁ events)
      (hesc : o.tag.isEscaped = false) (hget : e.source.get? w₁.registry o.tag.name = some h) :
      Calls act e t w h o.tag.call w₁

/-! ## Tags are answered as they are replaced -/

section Replacement

variable {act : Behaviour η σ} {e : Expander η} {strict : Bool} {o : Occurrence}
  {w w' : World η σ} {calls : List (η × Call)} {out : Except Error Text} {events : List Event}

theorem resolve_escaped (hesc : o.tag.isEscaped = true) :
    e.resolve strict o w = ⟨.ok none, w, []⟩ := by
  rw [Expander.resolve, if_pos hesc]
  rfl

theorem resolve_some {h : η} (hesc : o.tag.isEscaped = false)
    (hget : e.source.get? w.registry o.tag.name = some h) :
    e.resolve strict o w = ⟨.ok (some h), w, []⟩ := by
  rw [Expander.resolve, if_neg (by simp [hesc])]
  rw [Run.bind_ok (show Run.registry w = ⟨.ok w.registry, w, []⟩ from rfl), hget]
  rfl

theorem resolve_none (hesc : o.tag.isEscaped = false)
    (hget : e.source.get? w.registry o.tag.name = none) :
    e.resolve strict o w =
      if strict then ⟨.error (.missingHandler o.tag.name (some o.start)), w, []⟩
      else ⟨.ok none, w, [.unhandled o.tag.name o.start]⟩ := by
  rw [Expander.resolve, if_neg (by simp [hesc])]
  rw [Run.bind_ok (show Run.registry w = ⟨.ok w.registry, w, []⟩ from rfl), hget]
  cases strict with
  | false => rfl
  | true => rfl

/-- A call is recorded before the handler does anything. -/
theorem invoke_apply (h : η) (c : Call) (w : World η σ) :
    act.invoke h c w = (act h c w).after [.called c.name c.attributes c.content] := by
  rw [Behaviour.invoke, Run.bind_ok (show Run.emit _ w = ⟨.ok (), w, _⟩ from rfl)]

theorem invoke_of_call {h : η} {outcome : Except Error (Reply η σ)}
    (hcall : act h o.tag.call w = ⟨outcome, w', events⟩) :
    act.invoke h o.tag.call w =
      ⟨outcome, w', .called o.tag.name (.parse o.tag.attributes) o.tag.content? :: events⟩ := by
  rw [invoke_apply, hcall]
  rfl

theorem Answers.replacement (h : Answers act e strict o w calls out w' events) :
    Expander.replacement act e strict o w = ⟨out, w', events⟩ := by
  rw [Expander.replacement]
  cases h with
  | escaped hesc =>
      rw [Run.bind_ok (resolve_escaped hesc)]
      simp [Occurrence.literalText, hesc]
  | unhandled hesc hget hstrict =>
      rw [Run.bind_ok (by rw [resolve_none hesc hget, hstrict]; rfl)]
      simp [Occurrence.literalText, hesc]
  | missing hesc hget hstrict =>
      rw [Run.bind_error (by rw [resolve_none hesc hget, hstrict]; rfl)]
  | value hesc hget hcall =>
      rw [Run.bind_ok (resolve_some hesc hget)]
      dsimp only
      rw [Run.bind_ok (invoke_of_call hcall)]
      simp [Tag.withMarkers]
  | awaitable hesc hget hcall =>
      rw [Run.bind_ok (resolve_some hesc hget)]
      dsimp only
      rw [Run.bind_ok (invoke_of_call hcall)]
      simp [Run.fail]
  | failed hesc hget hcall =>
      rw [Run.bind_ok (resolve_some hesc hget)]
      dsimp only
      rw [Run.bind_error (invoke_of_call hcall), Result.after_nil]

/-- A tag is answered in one way. -/
theorem Answers.unique {calls' : List (η × Call)} {out' : Except Error Text} {w'' : World η σ}
    {events' : List Event} (h : Answers act e strict o w calls out w' events)
    (h' : Answers act e strict o w calls' out' w'' events') :
    out = out' ∧ w' = w'' ∧ events = events' := by
  have hresult := h.replacement.symm.trans h'.replacement
  exact ⟨congrArg Result.outcome hresult, congrArg Result.world hresult,
    congrArg Result.events hresult⟩

/-- Every tag is answered in every world. -/
theorem exists_answers (act : Behaviour η σ) (e : Expander η) (strict : Bool) (o : Occurrence)
    (w : World η σ) : ∃ calls out w' events, Answers act e strict o w calls out w' events := by
  cases hesc : o.tag.isEscaped with
  | true => exact ⟨_, _, _, _, .escaped hesc⟩
  | false =>
      cases hget : e.source.get? w.registry o.tag.name with
      | none =>
          cases hstrict : strict with
          | false => exact ⟨_, _, _, _, .unhandled hesc hget rfl⟩
          | true => exact ⟨_, _, _, _, .missing hesc hget rfl⟩
      | some h =>
          cases hcall : act h o.tag.call w with
          | mk outcome w' events =>
              cases outcome with
              | error err => exact ⟨_, _, _, _, .failed hesc hget hcall⟩
              | ok reply =>
                  cases reply with
                  | value v => exact ⟨_, _, _, _, .value hesc hget hcall⟩
                  | awaitable body => exact ⟨_, _, _, _, .awaitable hesc hget hcall⟩

end Replacement

/-! ## Tags are visited as they are replaced -/

section Visits

variable {act : Behaviour η σ} {e : Expander η} {strict : Bool} {os before after : List Occurrence}
  {o : Occurrence} {t : Text} {pos : Nat} {w w₁ w' : World η σ} {calls call : List (η × Call)}
  {rs : List Text} {events last : List Event} {err : Error}

theorem Visits.append {more : List (η × Call)} {rs' : List Text} {rest : List Event}
    (h : Visits act e strict before w calls rs w₁ events)
    (h' : Visits act e strict after w₁ more rs' w' rest) :
    Visits act e strict (before ++ after) w (calls ++ more) (rs ++ rs') w' (events ++ rest) := by
  induction h with
  | nil => exact h'
  | cons head tail ih =>
      rw [List.append_assoc, List.append_assoc]
      exact .cons head (ih h')

/-- A visit of some tags and some others goes through the world between them. -/
theorem Visits.exists_between (h : Visits act e strict (before ++ after) w calls rs w' events) :
    ∃ calls₁ calls₂ rs₁ rs₂ w₁ events₁ events₂,
      Visits act e strict before w calls₁ rs₁ w₁ events₁ ∧
      Visits act e strict after w₁ calls₂ rs₂ w' events₂ := by
  induction before generalizing w calls rs events with
  | nil => exact ⟨_, _, _, _, _, _, _, .nil, h⟩
  | cons o before ih =>
      cases h with
      | cons head tail =>
          obtain ⟨_, _, _, _, _, _, _, hbefore, hafter⟩ := ih tail
          exact ⟨_, _, _, _, _, _, _, .cons head hbefore, hafter⟩

/-- Tags are visited in one way. -/
theorem Visits.unique {calls' : List (η × Call)} {rs' : List Text} {w'' : World η σ}
    {events' : List Event} (h : Visits act e strict os w calls rs w' events)
    (h' : Visits act e strict os w calls' rs' w'' events') :
    rs = rs' ∧ w' = w'' ∧ events = events' := by
  induction h generalizing calls' rs' w'' events' with
  | nil =>
      cases h' with
      | nil => exact ⟨rfl, rfl, rfl⟩
  | cons head tail ih =>
      cases h' with
      | cons head' tail' =>
          obtain ⟨houtcome, rfl, rfl⟩ := head.unique head'
          obtain ⟨rfl, rfl, rfl⟩ := ih tail'
          obtain rfl := Except.ok.inj houtcome
          exact ⟨rfl, rfl, rfl⟩

/-- Tags that are visited are replaced. -/
theorem Visits.replaceAll (hp : Placed t pos os) (h : Visits act e strict os w calls rs w' events) :
    Expander.replaceAll act e strict (segmentsFrom pos (t.drop pos) os) w =
      ⟨.ok (splice t pos os rs), w', events⟩ := by
  induction h generalizing pos with
  | nil =>
      rw [segmentsFrom, Expander.replaceAll, Expander.replaceAll]
      simp
  | cons head tail ih =>
      rw [segmentsFrom_cons hp, Expander.replaceAll, Expander.replaceAll]
      refine Run.map_ok ?_ _
      rw [Run.bind_ok head.replacement, Run.map_ok (ih hp.tail), Result.after_mk]

/-- A tag that fails stops the replacement. -/
theorem Visits.replaceAll_error (hp : Placed t pos (before ++ o :: after))
    (h : Visits act e strict before w calls rs w₁ events)
    (hfail : Answers act e strict o w₁ call (.error err) w' last) :
    Expander.replaceAll act e strict (segmentsFrom pos (t.drop pos) (before ++ o :: after)) w =
      ⟨.error err, w', events ++ last⟩ := by
  induction h generalizing pos with
  | nil =>
      rw [List.nil_append] at hp ⊢
      rw [segmentsFrom_cons hp, Expander.replaceAll, Expander.replaceAll]
      exact Run.map_error (Run.bind_error hfail.replacement _) _
  | cons head tail ih =>
      rw [List.cons_append] at hp ⊢
      rw [segmentsFrom_cons hp, Expander.replaceAll, Expander.replaceAll]
      refine Run.map_error ?_ _
      rw [Run.bind_ok head.replacement, Run.map_error (ih hp.tail hfail), Result.after_mk,
        List.append_assoc]

/-- All tags can be visited, or the tags before one that fails. -/
theorem visits_or_stops (act : Behaviour η σ) (e : Expander η) (strict : Bool)
    (os : List Occurrence) (w : World η σ) :
    (∃ calls rs w' events, Visits act e strict os w calls rs w' events) ∨
      ∃ before o after calls rs w₁ events call err w' last, os = before ++ o :: after ∧
        Visits act e strict before w calls rs w₁ events ∧
        Answers act e strict o w₁ call (.error err) w' last := by
  induction os generalizing w with
  | nil => exact .inl ⟨_, _, _, _, .nil⟩
  | cons o os ih =>
      obtain ⟨calls, out, w₁, events, head⟩ := exists_answers act e strict o w
      cases out with
      | error err => exact .inr ⟨[], o, os, _, _, _, _, _, _, _, _, rfl, .nil, head⟩
      | ok r =>
          rcases ih w₁ with ⟨more, rs, w', rest, tail⟩ |
            ⟨before, o', after, more, rs, w₂, rest, call, err, w', last, rfl, tail, hfail⟩
          · exact .inl ⟨_, _, _, _, .cons head tail⟩
          · exact .inr ⟨o :: before, o', after, _, _, _, _, _, _, _, _, rfl, .cons head tail, hfail⟩

end Visits

/-! ## The beginning of a pass -/

section Beginning

variable {e : Expander η} {t : Text} {w w₀ : World η σ} {os : List Occurrence} {strict : Bool}
  {events : List Event}

theorem vocabulary?_apply (e : Expander η) (text? : Option Text) (w : World η σ) :
    e.vocabulary? text? w =
      ⟨.ok (if (e.source.names w.registry).isEmpty then none
        else some ⟨e.source.names w.registry,
          (text?.map (Tag.formFor (e.source.names w.registry))).getD .full⟩), w, []⟩ := by
  have hnames : e.names w = ⟨.ok (e.source.names w.registry), w, []⟩ := rfl
  rw [Expander.vocabulary?, Run.bind_ok hnames, Result.after_nil]
  cases (e.source.names w.registry).isEmpty with
  | true => rfl
  | false =>
      cases text? with
      | none => rfl
      | some t => rfl

/-- A requested expression is the one that is built from the vocabulary, whatever is kept. -/
theorem expression_apply (v : Vocabulary) (w : World η σ) :
    ∃ cache events,
      Run.expression v w = ⟨.ok v.expression, { w with expressions := cache }, events⟩ := by
  have hvalue := w.expressions.value_request v
  cases hr : w.expressions.request v with
  | mk p computed cache =>
      rw [hr] at hvalue
      obtain rfl : p = v.expression := hvalue
      exact ⟨cache, _, by rw [Run.expression, hr]⟩

theorem pattern?_of_nameless (hnames : e.source.names w.registry = []) (text? : Option Text) :
    e.pattern? text? w = ⟨.ok none, w, []⟩ := by
  have hv : e.vocabulary? text? w = ⟨.ok none, w, []⟩ := by
    rw [vocabulary?_apply, hnames]
    rfl
  rw [Expander.pattern?, Run.bind_ok hv]
  rfl

theorem scan?_of_nameless (hnames : e.source.names w.registry = []) :
    e.scan? t w = ⟨.ok none, w, []⟩ := by
  rw [Expander.scan?, Run.bind_ok (pattern?_of_nameless hnames _)]
  rfl

/-- The expression for the text is built before the first tag is met. -/
theorem Begins.pattern? (hb : Begins e t w os strict w₀ events) :
    e.pattern? (some t) w = ⟨.ok (some (Tag.formFor (e.source.names w.registry) t,
      Tag.expression (e.source.names w.registry) (Tag.formFor (e.source.names w.registry) t))),
      w₀, events⟩ := by
  obtain ⟨p, hp⟩ := hb.compiled
  obtain ⟨cache, more, happly⟩ := expression_apply (η := η) (σ := σ) _ w
  obtain rfl : p = Tag.expression (e.source.names w.registry)
      (Tag.formFor (e.source.names w.registry) t) :=
    Except.ok.inj (congrArg Result.outcome (hp.symm.trans happly))
  have hv := vocabulary?_apply e (some t) w
  rw [if_neg (by simpa using hb.names_ne), Option.map_some, Option.getD_some] at hv
  rw [Expander.pattern?, Run.bind_ok hv]
  dsimp only
  rw [Run.bind_ok hp, Run.pure_apply]
  simp

theorem Begins.scan? (hb : Begins e t w os strict w₀ events) :
    e.scan? t w = ⟨.ok (some os), w₀, events⟩ := by
  rw [Expander.scan?, Run.bind_ok hb.pattern?, hb.tags, Tag.scan]
  simp

/-- Only the expressions built so far change before the first tag is met. -/
theorem Begins.exists_world_eq (hb : Begins e t w os strict w₀ events) :
    ∃ cache, w₀ = { w with expressions := cache } := by
  obtain ⟨p, hp⟩ := hb.compiled
  obtain ⟨cache, more, happly⟩ := expression_apply (η := η) (σ := σ) _ w
  exact ⟨cache, congrArg Result.world (hp.symm.trans happly)⟩

theorem Begins.config (hb : Begins e t w os strict w₀ events) :
    e.config w₀ = ⟨.ok (e.fixed.getD w.config), w₀, []⟩ := by
  obtain ⟨cache, rfl⟩ := hb.exists_world_eq
  rw [Expander.config]
  cases e.fixed with
  | none => rfl
  | some c => rfl

/-- Nothing is registered or removed before the first tag is met. -/
theorem Begins.registry (hb : Begins e t w os strict w₀ events) : w₀.registry = w.registry := by
  obtain ⟨cache, rfl⟩ := hb.exists_world_eq
  rfl

/-- A pass begins in one way. -/
theorem Begins.unique {os' : List Occurrence} {strict' : Bool} {w₁ : World η σ}
    {events' : List Event} (h : Begins e t w os strict w₀ events)
    (h' : Begins e t w os' strict' w₁ events') :
    os = os' ∧ strict = strict' ∧ w₀ = w₁ ∧ events = events' := by
  obtain ⟨p, hp⟩ := h.compiled
  obtain ⟨q, hq⟩ := h'.compiled
  have hresult := hp.symm.trans hq
  exact ⟨h.tags.trans h'.tags.symm, h.strict.trans h'.strict.symm,
    congrArg Result.world hresult, congrArg Result.events hresult⟩

/-- A pass begins wherever there are names. -/
theorem exists_begins (t : Text) (hnames : e.source.names w.registry ≠ []) :
    ∃ strict w₀ events,
      Begins e t w (Tag.scan (e.source.names w.registry) t) strict w₀ events := by
  obtain ⟨cache, events, happly⟩ := expression_apply (η := η) (σ := σ) _ w
  exact ⟨_, _, _, hnames, rfl, rfl, _, happly⟩

end Beginning

/-! ## The whole pass -/

section Pass

variable {act : Behaviour η σ} {e : Expander η} {t : Text} {w w₀ : World η σ}
  {os : List Occurrence} {strict : Bool} {events : List Event} {r : Result η σ Text}

theorem Begins.placed (hb : Begins e t w os strict w₀ events) : Placed t 0 os := by
  rw [hb.tags]
  exact Tag.placed_scan hb.names_ne t

theorem Begins.expand (hb : Begins e t w os strict w₀ events) :
    e.expand act t w = (Expander.replaceAll act e strict (segments t os) w₀).after events := by
  rw [Expander.expand, Run.bind_ok hb.scan?]
  dsimp only
  rw [Run.bind_ok hb.config, Result.after_nil, hb.strict]

theorem Begins.strip (hb : Begins e t w os strict w₀ events) :
    e.strip t w = ⟨.ok (stripped t os), w₀, events⟩ := by
  rw [Expander.strip, Run.bind_ok hb.scan?]
  dsimp only
  rw [Run.pure_apply, Result.after_mk, List.append_nil]

/-- The result that the rules give is the result of the pass. -/
theorem Expands.expand_eq (h : Expands act e t w r) : e.expand act t w = r := by
  cases h with
  | nameless hnames =>
      rw [Expander.expand, Run.bind_ok (scan?_of_nameless hnames)]
      rfl
  | finished begins visits =>
      rw [begins.expand]
      exact congrArg (Result.after _) (visits.replaceAll begins.placed)
  | stopped begins visits fails =>
      rw [begins.expand]
      exact congrArg (Result.after _) (visits.replaceAll_error begins.placed fails)

/-- Every pass goes by the rules. -/
theorem expands_expand (act : Behaviour η σ) (e : Expander η) (t : Text) (w : World η σ) :
    Expands act e t w (e.expand act t w) := by
  have hex : ∃ r, Expands act e t w r := by
    by_cases hnames : e.source.names w.registry = []
    · exact ⟨_, .nameless hnames⟩
    · obtain ⟨strict, w₀, first, hb⟩ := exists_begins t hnames
      rcases visits_or_stops act e strict (Tag.scan (e.source.names w.registry) t) w₀ with
        ⟨calls, rs, w', events, hv⟩ |
        ⟨before, o, after, calls, rs, w₁, events, call, err, w', last, hos, hv, hfail⟩
      · exact ⟨_, .finished hb hv⟩
      · rw [hos] at hb
        exact ⟨_, .stopped hb hv hfail⟩
  obtain ⟨r, hr⟩ := hex
  rw [hr.expand_eq]
  exact hr

/-- A pass does what the rules say and nothing else. -/
theorem expand_eq_iff_expands (act : Behaviour η σ) (e : Expander η) (t : Text) (w : World η σ)
    (r : Result η σ Text) : e.expand act t w = r ↔ Expands act e t w r := by
  constructor
  · rintro rfl
    exact expands_expand act e t w
  · exact Expands.expand_eq

end Pass

/-! ## Behaviours that agree on the calls of a pass -/

section Agreement

variable {act act' : Behaviour η σ} {e : Expander η} {t : Text} {strict : Bool}
  {w w' : World η σ} {os : List Occurrence} {calls : List (η × Call)} {events : List Event}

theorem Answers.congr {o : Occurrence} {out : Except Error Text}
    (h : Answers act e strict o w calls out w' events)
    (hact : ∀ h, o.tag.isEscaped = false → e.source.get? w.registry o.tag.name = some h →
      act' h o.tag.call w = act h o.tag.call w) :
    Answers act' e strict o w calls out w' events := by
  cases h with
  | escaped hesc => exact .escaped hesc
  | unhandled hesc hget hstrict => exact .unhandled hesc hget hstrict
  | missing hesc hget hstrict => exact .missing hesc hget hstrict
  | value hesc hget hcall => exact .value hesc hget ((hact _ hesc hget).trans hcall)
  | awaitable hesc hget hcall => exact .awaitable hesc hget ((hact _ hesc hget).trans hcall)
  | failed hesc hget hcall => exact .failed hesc hget ((hact _ hesc hget).trans hcall)

/-- A behaviour may be replaced by one that gives the same answers in the worlds of the visit. -/
theorem Visits.congr {rs : List Text} (h : Visits act e strict os w calls rs w' events)
    (hact : ∀ before o after more rs w₁ rest h, os = before ++ o :: after →
      Visits act e strict before w more rs w₁ rest → o.tag.isEscaped = false →
      e.source.get? w₁.registry o.tag.name = some h →
      act' h o.tag.call w₁ = act h o.tag.call w₁) :
    Visits act' e strict os w calls rs w' events := by
  induction h with
  | nil => exact .nil
  | cons head tail ih =>
      refine .cons (head.congr fun h => hact [] _ _ _ _ _ _ h rfl .nil) (ih ?_)
      intro before o after more rs w₁ rest h hos hv
      exact hact (_ :: before) o after _ _ _ _ h (by rw [hos, List.cons_append]) (.cons head hv)

/-- A pass depends only on how the handlers answer its calls. -/
theorem expand_congr
    (hact : ∀ h c w₁, Calls act e t w h c w₁ → act' h c w₁ = act h c w₁) :
    e.expand act' t w = e.expand act t w := by
  have hrun := expands_expand act e t w
  generalize e.expand act t w = r at hrun
  refine Expands.expand_eq ?_
  cases hrun with
  | nameless hnames => exact .nameless hnames
  | finished begins visits =>
      refine .finished begins (visits.congr ?_)
      rintro before o after more rs w₁ rest h rfl hv hesc hget
      exact hact _ _ _ (.intro begins hv hesc hget)
  | stopped begins visits fails =>
      refine .stopped begins (visits.congr ?_) (fails.congr ?_)
      · rintro before o after more rs w₁ rest h rfl hv hesc hget
        rw [List.append_assoc, List.cons_append] at begins
        exact hact _ _ _ (.intro begins hv hesc hget)
      · intro h hesc hget
        exact hact _ _ _ (.intro begins visits hesc hget)

end Agreement

end BracketTags
