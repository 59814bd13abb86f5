import BracketTags.Proofs.Awaiting
import BracketTags.Proofs.Recency

/-!
# Expressions that are kept

Expressions are asked for by passes and by handlers, in any order, and the
expressions that are kept are those that were asked for last.

*Courses.*  A course leads from one world to another one.  It tells which
expressions were asked for on the way, and which events happened (`Course`).
Apart from the requests it may be anything that leaves the kept expressions
alone.  So the kept expressions and the records of building are known from the
requests (`Course.expressions_eq`, `Course.filter_isCompiled`).

*Uses.*  There are five ways to use an expander.  Without names a use does
nothing (`use_of_nameless`).  Otherwise it asks for one expression first and
then goes on with it (`use_of_expression`).

*Handlers.*  What the handlers of a pass ask for comes after that.  So a use is
a course if its handlers are (`exists_course_use`), and so is whatever is put
together from uses (`Run.OnlyAsks`).
-/

namespace BracketTags

variable {η σ α β : Type}

/-- Whether an event is the building of an expression. -/
def Event.isCompiled : Event → Bool
  | .compiled _ _ => true
  | _ => false

/-- The building of the expression. -/
def Vocabulary.compiled (v : Vocabulary) : Event := .compiled v.names.length (v.form == .full)

/-! ## Courses -/

/-- A course from the world `w₀`: the expressions that were asked for, the events, and the world
that is reached. -/
inductive Course (w₀ : World η σ) : List Vocabulary → List Event → World η σ → Prop where
  | start : Course w₀ [] [] w₀
  /-- An expression is asked for. -/
  | ask {vs : List Vocabulary} {events : List Event} {w : World η σ}
      (before : Course w₀ vs events w) (v : Vocabulary) :
      Course w₀ (vs ++ [v]) (events ++ (Run.expression v w).events) (Run.expression v w).world
  /-- Anything else happens. -/
  | other {vs : List Vocabulary} {events more : List Event} {w w' : World η σ}
      (before : Course w₀ vs events w) (hkept : w'.expressions = w.expressions)
      (hmore : ∀ ev ∈ more, ev.isCompiled = false) : Course w₀ vs (events ++ more) w'

section Courses

variable {w₀ w w' : World η σ} {vs us : List Vocabulary} {events more : List Event}

/-- Asking for an expression gives it, freshly built or not. -/
theorem expression_eq (v : Vocabulary) (w : World η σ) :
    Run.expression v w =
      ⟨.ok v.expression, { w with expressions := (w.expressions.request v).cache },
        if (w.expressions.request v).computed then [v.compiled] else []⟩ := by
  rw [← w.expressions.value_request v]
  rfl

theorem course_expression (v : Vocabulary) (w : World η σ) :
    Course w [v] (Run.expression v w).events (Run.expression v w).world :=
  Course.start.ask v

theorem Course.trans (h : Course w₀ vs events w) (h' : Course w us more w') :
    Course w₀ (vs ++ us) (events ++ more) w' := by
  induction h' with
  | start => simpa using h
  | ask _ v ih =>
      rw [← List.append_assoc, ← List.append_assoc]
      exact .ask ih v
  | other _ hkept hmore ih =>
      rw [← List.append_assoc]
      exact .other ih hkept hmore

/-- There is a course with any requests. -/
theorem exists_course (w₀ : World η σ) (vs : List Vocabulary) :
    ∃ events cache, Course w₀ vs events { w₀ with expressions := cache } := by
  induction vs using List.reverseRecOn with
  | nil => exact ⟨_, _, .start⟩
  | append_singleton vs v ih =>
      obtain ⟨events, cache, h⟩ := ih
      have hask := h.ask v
      rw [expression_eq] at hask
      exact ⟨_, _, hask⟩

theorem Course.expressions_eq (h : Course w₀ vs events w) :
    w.expressions = w₀.expressions.after vs := by
  induction h with
  | start => rfl
  | ask _ v ih => rw [expression_eq, Cache.after_concat, ih]
  | other _ hkept _ ih => rw [hkept, ih]

/-- After a course from an empty cache, an expression is built unless it was asked for not long
ago. -/
theorem Course.events_expression (h : Course w₀ vs events w) (h₀ : w₀.expressions = {})
    (v : Vocabulary) :
    (Run.expression v w).events = if Unkept expressionLimit vs v then [v.compiled] else [] := by
  have hcomputed : ((({} : ExpressionCache).after vs).request v).computed =
      decide (Unkept expressionLimit vs v) := Cache.computed_request_after vs v
  rw [← h₀, ← h.expressions_eq] at hcomputed
  rw [expression_eq, hcomputed]
  simp

/-- The records of building are known from the requests. -/
theorem Course.filter_isCompiled (h : Course w₀ vs events w) (h₀ : w₀.expressions = {}) :
    events.filter Event.isCompiled =
      (misses expressionLimit [] vs).map Vocabulary.compiled := by
  induction h with
  | start => rfl
  | ask before v ih =>
      rw [List.filter_append, ih, before.events_expression h₀, misses_concat, List.map_append,
        List.nil_append]
      split <;> rfl
  | other _ _ hmore ih =>
      have hnone := List.filter_eq_nil_iff.mpr fun ev hev => by simpa using hmore ev hev
      rw [List.filter_append, ih, hnone, List.append_nil]

end Courses

/-! ## Uses -/

/-- A way to use an expander. -/
inductive Use where
  | pattern (text? : Option Text)
  | scan (t : Text)
  | strip (t : Text)
  | expand (t : Text)
  | expandAwaiting (t : Text)

namespace Use

/-- The text that the expression is for. -/
def text? : Use → Option Text
  | pattern text? => text?
  | scan t | strip t | expand t | expandAwaiting t => some t

/-- The expression that is asked for if there are these names. -/
def vocabulary (u : Use) (names : List Text) : Vocabulary :=
  ⟨names, (u.text?.map (Tag.formFor names)).getD .full⟩

def Answer : Use → Type
  | pattern _ => Option (Form × Pattern Field)
  | scan _ => List Occurrence
  | strip _ | expand _ | expandAwaiting _ => Text

/-- The answer if there are no names. -/
def idle : (u : Use) → u.Answer
  | pattern _ => (none : Option (Form × Pattern Field))
  | scan _ => ([] : List Occurrence)
  | strip t | expand t | expandAwaiting t => t

end Use

namespace Expander

/-- Use an expander. -/
def use (act : Behaviour η σ) (e : Expander η) : (u : Use) → Run η σ u.Answer
  | .pattern text? => e.pattern? text?
  | .scan t => e.scan t
  | .strip t => e.strip t
  | .expand t => e.expand act t
  | .expandAwaiting t => e.expandAwaiting act t

/-- What a use does with an expression of some form. -/
def useWith (act : Behaviour η σ) (e : Expander η) (form : Form) (p : Pattern Field) :
    (u : Use) → Run η σ u.Answer
  | .pattern _ => (pure (some (form, p)) : Run η σ (Option (Form × Pattern Field)))
  | .scan t => (pure (Tag.occurrences p t) : Run η σ (List Occurrence))
  | .strip t => (pure (stripped t (Tag.occurrences p t)) : Run η σ Text)
  | .expand t => do
      replaceAll act e (← e.config).isStrict (segments t (Tag.occurrences p t))
  | .expandAwaiting t => do
      advance act e (← e.config).isStrict t 0 {} (Tag.occurrences p t)

end Expander

section Uses

variable {act : Behaviour η σ} {e : Expander η} {w w' : World η σ} {u : Use}
  {events : List Event}

/-- Without names, nothing is asked for and nothing happens. -/
theorem use_of_nameless (act : Behaviour η σ) (hnames : e.source.names w.registry = []) (u : Use) :
    e.use act u w = ⟨.ok u.idle, w, []⟩ := by
  cases u with
  | pattern text? => exact pattern?_of_nameless hnames text?
  | scan t =>
      show e.scan t w = _
      rw [Expander.scan, Run.bind_ok (scan?_of_nameless hnames)]
      rfl
  | strip t =>
      show e.strip t w = _
      rw [Expander.strip, Run.bind_ok (scan?_of_nameless hnames)]
      rfl
  | expand t => exact (Expands.nameless hnames).expand_eq
  | expandAwaiting t =>
      show e.expandAwaiting act t w = _
      rw [expandAwaiting_eq]
      exact (Expands.nameless hnames).expand_eq

theorem pattern?_of_expression (text? : Option Text) {p : Pattern Field}
    (hnames : e.source.names w.registry ≠ [])
    (hp : Run.expression ((Use.pattern text?).vocabulary (e.source.names w.registry)) w =
      ⟨.ok p, w', events⟩) :
    e.pattern? text? w =
      ⟨.ok (some (((Use.pattern text?).vocabulary (e.source.names w.registry)).form, p)), w',
        events⟩ := by
  have hv := vocabulary?_apply e text? w
  rw [if_neg (by simpa using hnames)] at hv
  rw [Expander.pattern?, Run.bind_ok hv, Result.after_nil]
  exact (Run.bind_ok hp _).trans (congrArg _ (List.append_nil events))

theorem scan?_of_expression {t : Text} {p : Pattern Field}
    (hnames : e.source.names w.registry ≠ [])
    (hp : Run.expression ((Use.scan t).vocabulary (e.source.names w.registry)) w =
      ⟨.ok p, w', events⟩) :
    e.scan? t w = ⟨.ok (some (Tag.occurrences p t)), w', events⟩ := by
  rw [Expander.scan?, Run.bind_ok (pattern?_of_expression (some t) hnames hp)]
  exact congrArg _ (List.append_nil events)

/-- A use asks for its expression and goes on with it. -/
theorem use_of_expression (act : Behaviour η σ) {p : Pattern Field}
    (hnames : e.source.names w.registry ≠ [])
    (hp : Run.expression (u.vocabulary (e.source.names w.registry)) w = ⟨.ok p, w', events⟩) :
    e.use act u w =
      (e.useWith act (u.vocabulary (e.source.names w.registry)).form p u w').after events := by
  cases u with
  | pattern text? =>
      have hpattern := pattern?_of_expression text? hnames hp
      exact hpattern.trans (congrArg _ (List.append_nil events).symm)
  | scan t =>
      show e.scan t w = _
      rw [Expander.scan, Run.bind_ok (scan?_of_expression hnames hp)]
      rfl
  | strip t =>
      show e.strip t w = _
      rw [Expander.strip, Run.bind_ok (scan?_of_expression hnames hp)]
      rfl
  | expand t =>
      show e.expand act t w = _
      rw [Expander.expand, Run.bind_ok (scan?_of_expression hnames hp)]
      rfl
  | expandAwaiting t =>
      show e.expandAwaiting act t w = _
      rw [Expander.expandAwaiting, Run.bind_ok (scan?_of_expression hnames hp)]
      rfl

end Uses

/-! ## Uses are courses -/

/-- From any world, the run leaves the kept expressions alone but for asking. -/
def Run.OnlyAsks (x : Run η σ α) : Prop := ∀ w, ∃ vs, Course w vs (x w).events (x w).world

/-- All handlers only ask. -/
def Behaviour.OnlyAsks (act : Behaviour η σ) : Prop := ∀ h c, (act h c).OnlyAsks

/-- What the handlers do in a use, the awaiting included. -/
def Use.handlers (act : Behaviour η σ) : Use → Behaviour η σ
  | expandAwaiting _ => act.awaited
  | _ => act

section Passes

variable {act : Behaviour η σ} {e : Expander η} {strict : Bool} {o : Occurrence}
  {os : List Occurrence} {w w' : World η σ} {calls : List (η × Call)}
  {out : Except Error Text} {rs : List Text} {events : List Event}

/-- A call is recorded, and then the handler asks. -/
theorem Behaviour.OnlyAsks.exists_course_call (hact : act.OnlyAsks) {h : η} {c : Call}
    {outcome : Except Error (Reply η σ)} (hcall : act h c w = ⟨outcome, w', events⟩)
    (name : Text) (attributes : Attributes) (content : Option Text) :
    ∃ vs, Course w vs (.called name attributes content :: events) w' := by
  obtain ⟨vs, hvs⟩ := hact h c w
  rw [hcall] at hvs
  have hfirst : Course w [] [.called name attributes content] w :=
    .other .start rfl fun ev hev => by rw [List.mem_singleton.mp hev]; rfl
  exact ⟨vs, hfirst.trans hvs⟩

theorem Answers.exists_course (h : Answers act e strict o w calls out w' events)
    (hact : act.OnlyAsks) : ∃ vs, Course w vs events w' := by
  cases h with
  | escaped => exact ⟨[], .start⟩
  | unhandled => exact ⟨[], .other .start rfl fun ev hev => by rw [List.mem_singleton.mp hev]; rfl⟩
  | missing => exact ⟨[], .start⟩
  | value _ _ hcall => exact hact.exists_course_call hcall _ _ _
  | awaitable _ _ hcall => exact hact.exists_course_call hcall _ _ _
  | failed _ _ hcall => exact hact.exists_course_call hcall _ _ _

theorem Visits.exists_course (h : Visits act e strict os w calls rs w' events)
    (hact : act.OnlyAsks) : ∃ vs, Course w vs events w' := by
  induction h with
  | nil => exact ⟨[], .start⟩
  | cons head tail ih =>
      obtain ⟨vs, hhead⟩ := head.exists_course hact
      obtain ⟨us, htail⟩ := ih
      exact ⟨vs ++ us, hhead.trans htail⟩

theorem Begins.course {t : Text} (hb : Begins e t w os strict w' events) :
    Course w [(Use.expand t).vocabulary (e.source.names w.registry)] events w' := by
  obtain ⟨p, hp⟩ := hb.compiled
  have hask := course_expression ((Use.expand t).vocabulary (e.source.names w.registry)) w
  rw [Use.vocabulary, Use.text?, Option.map_some, Option.getD_some, hp] at hask
  exact hask

/-- A pass asks for its expression, and then its handlers ask. -/
theorem exists_course_expand (hact : act.OnlyAsks) (hnames : e.source.names w.registry ≠ [])
    (t : Text) :
    ∃ vs, Course w ((Use.expand t).vocabulary (e.source.names w.registry) :: vs)
      (e.expand act t w).events (e.expand act t w).world := by
  have hrun := expands_expand act e t w
  generalize e.expand act t w = r at hrun
  cases hrun with
  | nameless hnil => exact absurd hnil hnames
  | finished begins visits =>
      obtain ⟨vs, hvs⟩ := visits.exists_course hact
      exact ⟨vs, begins.course.trans hvs⟩
  | stopped begins visits fails =>
      obtain ⟨vs, hvs⟩ := visits.exists_course hact
      obtain ⟨us, hus⟩ := fails.exists_course hact
      exact ⟨vs ++ us, begins.course.trans (hvs.trans hus)⟩

/-- A use asks for its expression, and then its handlers ask.  What calls no handler is at its end
once it has the expression. -/
theorem exists_course_use {u : Use} (hact : (u.handlers act).OnlyAsks)
    (hnames : e.source.names w.registry ≠ []) :
    ∃ vs, Course w (u.vocabulary (e.source.names w.registry) :: vs) (e.use act u w).events
      (e.use act u w).world := by
  have hpure (a : u.Answer) (ha : e.useWith act (u.vocabulary (e.source.names w.registry)).form
      (u.vocabulary (e.source.names w.registry)).expression u = pure a) :
      ∃ vs, Course w (u.vocabulary (e.source.names w.registry) :: vs) (e.use act u w).events
        (e.use act u w).world := by
    have hask := course_expression (u.vocabulary (e.source.names w.registry)) w
    have hp := expression_eq (u.vocabulary (e.source.names w.registry)) w
    rw [hp] at hask
    rw [use_of_expression act hnames hp, ha, Run.pure_apply, Result.after_mk, List.append_nil]
    exact ⟨[], hask⟩
  cases u with
  | pattern text? => exact hpure _ rfl
  | scan t => exact hpure _ rfl
  | strip t => exact hpure _ rfl
  | expand t => exact exists_course_expand hact hnames t
  | expandAwaiting t =>
      show ∃ vs, Course w _ (e.expandAwaiting act t w).events (e.expandAwaiting act t w).world
      rw [expandAwaiting_eq]
      exact exists_course_expand hact hnames t

/-- A use only asks, with handlers that only ask. -/
theorem onlyAsks_use {u : Use} (hact : (u.handlers act).OnlyAsks) : (e.use act u).OnlyAsks := by
  intro w
  by_cases hnames : e.source.names w.registry = []
  · rw [use_of_nameless act hnames]
    exact ⟨[], .start⟩
  · obtain ⟨vs, hvs⟩ := exists_course_use hact hnames
    exact ⟨_, hvs⟩

namespace Run.OnlyAsks

theorem pure (a : α) : (Pure.pure a : Run η σ α).OnlyAsks := fun _ => ⟨[], .start⟩

theorem bind {x : Run η σ α} {f : α → Run η σ β} (hx : x.OnlyAsks) (hf : ∀ a, (f a).OnlyAsks) :
    (x >>= f).OnlyAsks := by
  intro w
  obtain ⟨vs, hvs⟩ := hx w
  cases h : x w with
  | mk outcome w' events =>
      rw [h] at hvs
      cases outcome with
      | error err =>
          rw [bind_error h]
          exact ⟨vs, hvs⟩
      | ok a =>
          obtain ⟨us, hus⟩ := hf a w'
          rw [bind_ok h]
          exact ⟨vs ++ us, hvs.trans hus⟩

end Run.OnlyAsks

/-- A pass calls its handlers on a course, after it asked for its expression. -/
theorem Calls.exists_course {t : Text} {h : η} {c : Call} {w₁ : World η σ}
    (hcalls : Calls act e t w h c w₁) (hact : act.OnlyAsks) :
    ∃ vs events,
      Course w ((Use.expand t).vocabulary (e.source.names w.registry) :: vs) events w₁ := by
  cases hcalls with
  | intro begins visits =>
      obtain ⟨vs, hvs⟩ := visits.exists_course hact
      exact ⟨vs, _, begins.course.trans hvs⟩

/-- The expressions that are kept are those that were asked for last, and nobody can tell that they
are kept but by the records of building.

At any time of a course that began with no expressions, the kept ones are the first in the order of
recency.  Each of them is there once, and there are not too many.  The records of building are those
of the requests for an expression that was never asked for before, or after whose last request too
many others were asked for.

A use without names does nothing.  Any other use asks for the expression of its names and form.  It
is recorded if the expression is built, and the use goes on as with an expression that is built for
it alone.  The course goes on with the use, and the handlers are called on it, if they leave the
kept expressions alone but for asking. -/
theorem expressions_kept_by_recency {w₀ w : World η σ} {asked : List Vocabulary}
    {events : List Event} (h : Course w₀ asked events w) (h₀ : w₀.expressions = {}) :
    w.expressions.keys = (recent asked).take expressionLimit ∧
      w.expressions.keys.Nodup ∧ w.expressions.keys.length ≤ expressionLimit ∧
      events.filter Event.isCompiled = (misses expressionLimit [] asked).map Vocabulary.compiled ∧
      ∀ (act : Behaviour η σ) (e : Expander η) (u : Use),
        (e.source.names w.registry = [] → e.use act u w = ⟨.ok u.idle, w, []⟩) ∧
        (e.source.names w.registry ≠ [] → ∀ v, v = u.vocabulary (e.source.names w.registry) →
          e.use act u w =
            (e.useWith act v.form (Tag.expression v.names v.form) u
              { w with expressions := (w.expressions.request v).cache }).after
              (if Unkept expressionLimit asked v then [v.compiled] else []) ∧
          ((u.handlers act).OnlyAsks →
            (∃ more, Course w₀ (asked ++ v :: more) (events ++ (e.use act u w).events)
              (e.use act u w).world) ∧
            ∀ t, u.text? = some t → ∀ h c w₁, Calls (u.handlers act) e t w h c w₁ →
              ∃ more events', Course w₀ (asked ++ v :: more) (events ++ events') w₁)) := by
  have hkept := h.expressions_eq
  rw [h₀] at hkept
  refine ⟨hkept ▸ Cache.keys_after asked, hkept ▸ Cache.nodup_keys_after asked,
    hkept ▸ Cache.length_keys_after_le asked, h.filter_isCompiled h₀,
    fun act e u => ⟨fun hnames => use_of_nameless act hnames u, ?_⟩⟩
  rintro hnames v rfl
  constructor
  · have hp := expression_eq (u.vocabulary (e.source.names w.registry)) w
    have hevents := h.events_expression h₀ (u.vocabulary (e.source.names w.registry))
    rw [hp] at hevents
    rw [use_of_expression act hnames hp]
    exact congrArg (Result.after · _) hevents
  · intro hact
    obtain ⟨more, hmore⟩ := exists_course_use hact hnames
    refine ⟨⟨more, h.trans hmore⟩, fun t ht k c w₁ hcalls => ?_⟩
    obtain ⟨more, events', hcourse⟩ := hcalls.exists_course hact
    have hv : u.vocabulary (e.source.names w.registry) =
        (Use.expand t).vocabulary (e.source.names w.registry) := by
      rw [Use.vocabulary, ht]
      rfl
    exact ⟨more, events', hv ▸ h.trans hcourse⟩

/-- The handlers strip the content. -/
def stripsContent (e : Expander Unit) : Behaviour Unit Unit := fun _ c => do
  let t ← e.strip (c.content.getD [])
  return .value (.text t)

theorem onlyAsks_stripsContent (e : Expander Unit) : (stripsContent e).OnlyAsks := by
  intro _ c
  have hnone : Behaviour.OnlyAsks fun (_ : Unit) _ => (pure (.value .nothing) : Run Unit Unit _) :=
    fun _ _ => .pure _
  have hstrip : (e.strip (c.content.getD []) : Run Unit Unit Text).OnlyAsks :=
    onlyAsks_use (u := .strip (c.content.getD [])) hnone
  exact hstrip.bind fun t => .pure _

/-- The vocabulary of the one name, and then `n` others, each of them with a longer name. -/
def oneAndOthers (n : Nat) : List Vocabulary :=
  ⟨[['b']], .full⟩ :: (List.range n).map fun i => ⟨[List.replicate (i + 1) 'x'], .full⟩

theorem unkept_oneAndOthers (n : Nat) :
    Unkept expressionLimit (oneAndOthers n) ⟨[['b']], .full⟩ ↔ 128 ≤ n := by
  have hnotMem : (⟨[['b']], .full⟩ : Vocabulary) ∉
      (List.range n).map fun i => (⟨[List.replicate (i + 1) 'x'], .full⟩ : Vocabulary) := by
    intro hmem
    obtain ⟨i, -, heq⟩ := List.mem_map.mp hmem
    cases i <;> simp [List.replicate_succ] at heq
  have hnodup : ((List.range n).map fun i =>
      (⟨[List.replicate (i + 1) 'x'], .full⟩ : Vocabulary)).Nodup :=
    List.nodup_range.map fun i j hij => by
      simpa using congrArg (fun v => v.names.flatten.length) hij
  have hiff := unkept_append_cons_iff (n := expressionLimit) [] hnotMem
  rw [hnodup.dedup, List.length_map, List.length_range] at hiff
  exact hiff

/-- An expression outlasts 127 others and no more.  A pass whose handlers strip their content goes
on with the history. -/
theorem expressions_kept_by_recency_at_limit :
    (∃ events w, Course oneName (oneAndOthers 127) events w ∧
      (Expander.use (stripsContent ⟨.live, none⟩) ⟨.live, none⟩ (.pattern none) w).events = []) ∧
    ∃ events w more r, Course oneName (oneAndOthers 128) events w ∧
      (Expander.use (stripsContent ⟨.live, none⟩) ⟨.live, none⟩ (.pattern none) w).events =
        [.compiled 1 true] ∧
      r = Expander.use (stripsContent ⟨.live, none⟩) ⟨.live, none⟩
        (.expand "[b][b /][/b]".toList) w ∧
      Course oneName (oneAndOthers 128 ++ ⟨[['b']], .full⟩ :: more) (events ++ r.events)
        r.world := by
  constructor
  · obtain ⟨events, cache, h⟩ := exists_course oneName (oneAndOthers 127)
    refine ⟨events, _, h, ?_⟩
    obtain ⟨-, -, -, -, huse⟩ := expressions_kept_by_recency h rfl
    have hlog := ((huse (stripsContent ⟨.live, none⟩) ⟨.live, none⟩ (.pattern none)).2
      (List.cons_ne_nil _ _) ⟨[['b']], .full⟩ rfl).1
    rw [if_neg (by rw [unkept_oneAndOthers]; omega)] at hlog
    rw [hlog]
    rfl
  · obtain ⟨events, cache, h⟩ := exists_course oneName (oneAndOthers 128)
    obtain ⟨-, -, -, -, huse⟩ := expressions_kept_by_recency h rfl
    have hlog := ((huse (stripsContent ⟨.live, none⟩) ⟨.live, none⟩ (.pattern none)).2
      (List.cons_ne_nil _ _) ⟨[['b']], .full⟩ rfl).1
    rw [if_pos ((unkept_oneAndOthers 128).mpr le_rfl)] at hlog
    have hact := onlyAsks_stripsContent ⟨.live, none⟩
    obtain ⟨more, hmore⟩ := ((huse (stripsContent ⟨.live, none⟩) ⟨.live, none⟩
      (.expand "[b][b /][/b]".toList)).2 (List.cons_ne_nil _ _) ⟨[['b']], .full⟩ rfl).2 hact |>.1
    refine ⟨events, _, more, _, h, ?_, rfl, hmore⟩
    rw [hlog]
    rfl

end Passes

end BracketTags
