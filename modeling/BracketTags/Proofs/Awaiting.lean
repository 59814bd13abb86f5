import BracketTags.Proofs.Passes

/-!
# Passes that await

The two ways to expand are compared here.

*One as the other.*  Awaiting an answer can be left to the handlers.  When each
handler awaits its own answer (`Behaviour.awaited`), a pass that does not await
does exactly what a pass that awaits does (`expandAwaiting_eq`).  The cursor and
the builder of the one and the segments of the other keep in step, since the
tags are in place.

*Without records.*  `Run.unawaited` leaves the await records out of the events
of a run.  It respects the sequence of runs.  So handlers that differ only in
these records differ in nothing else in a pass.

*Bodies.*  A pass that does not await never starts the body of an awaitable
result, since other bodies in its place make no difference to it.
-/

namespace BracketTags

variable {η σ α β : Type}

/-! ## Behaviours -/

/-- The value of an answer, when an awaitable result is run at once and without a record. -/
def Reply.run : Reply η σ → Run η σ Value
  | .value v => pure v
  | .awaitable body => body

/-- An answer with another body, if it has one. -/
def Reply.mapBody (f : Run η σ Value → Run η σ Value) : Reply η σ → Reply η σ
  | .value v => .value v
  | .awaitable body => .awaitable (f body)

namespace Behaviour

/-- The handlers, each of which awaits its own answer. -/
def awaited (act : Behaviour η σ) : Behaviour η σ := fun h c => do
  let r ← act h c
  .value <$> Expander.settle c.name r

/-- The handlers with the outcome of its body in place of each awaitable result. -/
def atOnce (act : Behaviour η σ) : Behaviour η σ := fun h c => do
  let r ← act h c
  .value <$> r.run

/-- The handlers with other bodies in their awaitable results. -/
def mapBodies (act : Behaviour η σ) (f : η → Call → Run η σ Value → Run η σ Value) :
    Behaviour η σ := fun h c => Reply.mapBody (f h c) <$> act h c

end Behaviour

/-! ## One as the other -/

section Awaited

variable (act : Behaviour η σ) (e : Expander η) (strict : Bool)

theorem invoke_awaited (h : η) (c : Call) :
    act.awaited.invoke h c =
      (act.invoke h c >>= fun r => .value <$> Expander.settle c.name r) := by
  simp only [Behaviour.invoke, Behaviour.awaited, bind_assoc]

/-- A tag is replaced by what the cursor puts in its place. -/
theorem replacement_awaited (o : Occurrence) :
    Expander.replacement act.awaited e strict o =
      (e.resolve strict o >>= fun
        | none => pure o.literalText
        | some h => act.invoke h o.tag.call >>= fun r =>
            Expander.settle o.tag.name r >>= fun v => pure (o.tag.withMarkers v.toText)) := by
  rw [Expander.replacement]
  congr 1
  funext h?
  cases h? with
  | none => rfl
  | some h =>
      dsimp only
      rw [invoke_awaited, bind_assoc]
      simp only [bind_map_left, Tag.call]

/-- The cursor keeps in step with the segments.  It is past the tags before it, so the next gap is a
slice of the whole text. -/
theorem advance_eq_replaceAll {t : Text} {pos : Nat} {os : List Occurrence} (hp : Placed t pos os)
    (done : Builder) :
    Expander.advance act e strict t pos done os =
      (done.build ++ ·) <$>
        Expander.replaceAll act.awaited e strict (segmentsFrom pos (t.drop pos) os) := by
  induction os generalizing pos done with
  | nil =>
      rw [Expander.advance, segmentsFrom, Expander.replaceAll, Expander.replaceAll]
      simp
  | cons o os ih =>
      rw [Expander.advance, segmentsFrom_cons hp, Expander.replaceAll, Expander.replaceAll,
        replacement_awaited]
      simp only [bind_assoc, map_bind, Functor.map_map]
      congr 1
      funext h?
      cases h? with
      | none => simp [ih hp.tail]
      | some h => simp [ih hp.tail, Tag.withMarkers]

/-- A pass that awaits is a pass whose handlers await their own answers. -/
theorem expandAwaiting_eq (t : Text) :
    e.expandAwaiting act t = e.expand act.awaited t := by
  funext w
  by_cases hnames : e.source.names w.registry = []
  · rw [Expander.expandAwaiting, Expander.expand, Run.bind_ok (scan?_of_nameless hnames),
      Run.bind_ok (scan?_of_nameless hnames)]
  · obtain ⟨strict, w₀, first, hb⟩ := exists_begins t hnames
    rw [hb.expand, Expander.expandAwaiting, Run.bind_ok hb.scan?]
    dsimp only
    rw [Run.bind_ok hb.config, Result.after_nil, ← hb.strict,
      advance_eq_replaceAll act e strict hb.placed]
    simp [segments]

end Awaited

/-! ## Without records -/

/-- Whether an event is an await record. -/
def Event.isAwaited : Event → Bool
  | .awaited _ => true
  | _ => false

/-- The result with the await records left out of its events. -/
def Result.unawaited (r : Result η σ α) : Result η σ α :=
  { r with events := r.events.filter fun ev => !ev.isAwaited }

/-- The run with the await records left out of its events. -/
def Run.unawaited (x : Run η σ α) : Run η σ α := fun w => (x w).unawaited

namespace Run

theorem unawaited_bind (x : Run η σ α) (f : α → Run η σ β) :
    (x >>= f).unawaited = x.unawaited >>= fun a => (f a).unawaited := by
  funext w
  cases h : x w with
  | mk outcome w' events =>
      have hx : x.unawaited w = (Result.mk outcome w' events).unawaited := congrArg _ h
      cases outcome with
      | error err => rw [bind_error hx, unawaited, bind_error h, Result.unawaited]
      | ok a =>
          rw [bind_ok hx, unawaited, bind_ok h]
          simp [Result.unawaited, Result.after, unawaited]

theorem unawaited_map (f : α → β) (x : Run η σ α) : (f <$> x).unawaited = f <$> x.unawaited := by
  rw [← bind_pure_comp, ← bind_pure_comp, unawaited_bind]
  rfl

end Run

section Records

variable {act act' : Behaviour η σ}

/-- Replacements differ in their await records only if the answers of the handlers do. -/
theorem unawaited_replacement (hact : ∀ h c, (act h c).unawaited = (act' h c).unawaited)
    (e : Expander η) (strict : Bool) (o : Occurrence) :
    (Expander.replacement act e strict o).unawaited =
      (Expander.replacement act' e strict o).unawaited := by
  rw [Expander.replacement, Expander.replacement, Run.unawaited_bind, Run.unawaited_bind]
  congr 1
  funext h?
  cases h? with
  | none => rfl
  | some h =>
      dsimp only
      rw [Behaviour.invoke, Behaviour.invoke]
      simp only [Run.unawaited_bind, hact]

theorem unawaited_replaceAll (hact : ∀ h c, (act h c).unawaited = (act' h c).unawaited)
    (e : Expander η) (strict : Bool) (segs : List Segment) :
    (Expander.replaceAll act e strict segs).unawaited =
      (Expander.replaceAll act' e strict segs).unawaited := by
  induction segs with
  | nil => rfl
  | cons seg segs ih =>
      cases seg with
      | gap t =>
          rw [Expander.replaceAll, Expander.replaceAll, Run.unawaited_map, Run.unawaited_map, ih]
      | tag o =>
          rw [Expander.replaceAll, Expander.replaceAll]
          simp only [Run.unawaited_bind, Run.unawaited_map, ih, unawaited_replacement hact]

/-- Handlers that differ only in await records differ only in these in a pass. -/
theorem unawaited_expand (hact : ∀ h c, (act h c).unawaited = (act' h c).unawaited)
    (e : Expander η) (t : Text) :
    (e.expand act t).unawaited = (e.expand act' t).unawaited := by
  rw [Expander.expand, Expander.expand, Run.unawaited_bind, Run.unawaited_bind]
  congr 1
  funext os?
  cases os? with
  | none => rfl
  | some os => simp only [Run.unawaited_bind, unawaited_replaceAll hact]

theorem unawaited_settle (name : Text) (r : Reply η σ) :
    (Expander.settle name r).unawaited = r.run.unawaited := by
  cases r with
  | value v => rfl
  | awaitable body =>
      rw [Expander.settle, Run.unawaited_bind]
      rfl

theorem unawaited_awaited (act : Behaviour η σ) (h : η) (c : Call) :
    (act.awaited h c).unawaited = (act.atOnce h c).unawaited := by
  rw [Behaviour.awaited, Behaviour.atOnce]
  simp only [Run.unawaited_bind, Run.unawaited_map, unawaited_settle]

end Records

/-! ## Bodies -/

section Bodies

variable (act : Behaviour η σ) (f : η → Call → Run η σ Value → Run η σ Value) (e : Expander η)

theorem invoke_mapBodies (h : η) (c : Call) :
    (act.mapBodies f).invoke h c = Reply.mapBody (f h c) <$> act.invoke h c := by
  simp only [Behaviour.invoke, Behaviour.mapBodies, map_bind]

/-- The body of an awaitable result does not matter for the replacement of a tag, which uses only
the name of the tag. -/
theorem replacement_mapBodies (strict : Bool) (o : Occurrence) :
    Expander.replacement (act.mapBodies f) e strict o = Expander.replacement act e strict o := by
  rw [Expander.replacement, Expander.replacement]
  congr 1
  funext h?
  cases h? with
  | none => rfl
  | some h =>
      dsimp only
      rw [invoke_mapBodies, bind_map_left]
      congr 1
      funext r
      cases r with
      | value v => rfl
      | awaitable body => rfl

theorem replaceAll_mapBodies (strict : Bool) (segs : List Segment) :
    Expander.replaceAll (act.mapBodies f) e strict segs =
      Expander.replaceAll act e strict segs := by
  induction segs with
  | nil => rfl
  | cons seg segs ih =>
      cases seg with
      | gap t => rw [Expander.replaceAll, Expander.replaceAll, ih]
      | tag o => rw [Expander.replaceAll, Expander.replaceAll, replacement_mapBodies, ih]

/-- A pass that does not await makes no use of the bodies of awaitable results. -/
theorem expand_mapBodies (t : Text) : e.expand (act.mapBodies f) t = e.expand act t := by
  simp only [Expander.expand, replaceAll_mapBodies]

end Bodies

/-! ## The two ways -/

/-- A handler that gives a value leaves nothing to await. -/
theorem awaited_of_value {act : Behaviour η σ} {h : η} {c : Call} {w : World η σ}
    (hvalue : ∀ body, (act h c w).outcome ≠ .ok (.awaitable body)) :
    act.awaited h c w = act h c w := by
  rw [Behaviour.awaited]
  cases hact : act h c w with
  | mk outcome w' events =>
      cases outcome with
      | error err => rw [Run.bind_error hact]
      | ok r =>
          cases r with
          | value v =>
              rw [Run.bind_ok hact, Expander.settle]
              simp
          | awaitable body =>
              rw [hact] at hvalue
              exact absurd rfl (hvalue body)

/-- The two ways to expand agree.

* If no call of the pass is answered by an awaitable result, they give the same result.
* In any case a pass that awaits does what a pass does whose handlers await their own answers.
  Apart from the await records, that is what it does when each awaitable result is replaced by the
  outcome of its body.
* A pass that does not await fails at the first tag whose handler gives an awaitable result, if no
  tag before it fails.  The events are those up to this call.
* No body matters for such a pass. -/
theorem expandAwaiting_agrees (act : Behaviour η σ) (e : Expander η) (t : Text) (w : World η σ) :
    ((∀ h c w₁, Calls act e t w h c w₁ → ∀ body, (act h c w₁).outcome ≠ .ok (.awaitable body)) →
      e.expandAwaiting act t w = e.expand act t w) ∧
    (e.expandAwaiting act t w = e.expand act.awaited t w ∧
      (e.expandAwaiting act t w).unawaited = (e.expand act.atOnce t w).unawaited) ∧
    (∀ before o after strict w₀ first calls rs w₁ events h body w₂ last,
      Begins e t w (before ++ o :: after) strict w₀ first →
      Visits act e strict before w₀ calls rs w₁ events →
      o.tag.isEscaped = false → e.source.get? w₁.registry o.tag.name = some h →
      act h o.tag.call w₁ = ⟨.ok (.awaitable body), w₂, last⟩ →
      e.expand act t w = ⟨.error (.awaitable o.tag.name), w₂,
        first ++ (events ++
          .called o.tag.name (.parse o.tag.attributes) o.tag.content? :: last)⟩) ∧
    ∀ f, e.expand (act.mapBodies f) t w = e.expand act t w := by
  refine ⟨fun hvalue => ?_, ⟨?_, ?_⟩, ?_, fun f => ?_⟩
  · rw [expandAwaiting_eq]
    exact expand_congr fun h c w₁ hcall => awaited_of_value (hvalue h c w₁ hcall)
  · rw [expandAwaiting_eq]
  · rw [expandAwaiting_eq]
    exact congrFun (unawaited_expand (unawaited_awaited act) e t) w
  · intro before o after strict w₀ first calls rs w₁ events h body w₂ last begins visits hesc hget
      hcall
    exact (Expands.stopped begins visits (.awaitable hesc hget hcall)).expand_eq
  · rw [expand_mapBodies]

/-- A world in which one name has a handler. -/
def oneName : World Unit Unit where
  registry := ({} : Registry Unit).accept ['b'] (by decide) ()
  memory := ()

/-- The first tag is escaped and the second one is answered, first by a value and then by an
awaitable result. -/
theorem expandAwaiting_agrees_after_escaped :
    Expander.expandAwaiting (fun _ _ => pure (.value (.int 1))) ⟨.live, none⟩ "[[b]][b]".toList
        oneName =
      Expander.expand (fun _ _ => pure (.value (.int 1))) ⟨.live, none⟩ "[[b]][b]".toList
        oneName ∧
    ∃ o w₀,
      Begins ⟨.live, none⟩ "[[b]][b]".toList oneName (Tag.scan [['b']] "[[b]][b]".toList) true w₀
        [.compiled 1 false] ∧
      Tag.scan [['b']] "[[b]][b]".toList =
        [⟨⟨['b'], [], .opening, true, true⟩, 0, "[[b]]".toList⟩, o] ∧
      Expander.expand (fun _ _ => pure (.awaitable (pure (.int 1)))) ⟨.live, none⟩ "[[b]][b]".toList
        oneName = ⟨.error (.awaitable ['b']), w₀,
          [.compiled 1 false, .called ['b'] (.parse []) none]⟩ := by
  have hscan : Tag.scan [['b']] "[[b]][b]".toList =
      [⟨⟨['b'], [], .opening, true, true⟩, 0, "[[b]]".toList⟩,
        ⟨⟨['b'], [], .opening, false, false⟩, 5, "[b]".toList⟩] := by decide +kernel
  have begins : Begins ⟨.live, none⟩ "[[b]][b]".toList oneName
      (Tag.scan [['b']] "[[b]][b]".toList) true _ [.compiled 1 false] :=
    ⟨by decide, rfl, rfl, _, rfl⟩
  refine ⟨(expandAwaiting_agrees _ _ _ _).1 ?_, _, _, begins, hscan, ?_⟩
  · intro h c w₁ hcall body hbody
    cases hbody
  rw [hscan] at begins
  exact (expandAwaiting_agrees _ _ _ _).2.2.1 [_] _ [] _ _ _ _ _ _ _ () _ _ _ begins
    (.cons (.escaped rfl) .nil) rfl rfl rfl

end BracketTags
