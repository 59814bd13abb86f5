import BracketTags.Proofs.Building
import BracketTags.Proofs.MissingHandlers

/-!
# The calls of a pass

A pass calls handlers one after another (`Makes`).  The calls are those of its
run: they are determined, and the events show them.

*Calls that are due.*  A call is due for each tag that is not escaped, in the
order of the tags, with the handler that its name has (`due`).

*Steady handlers.*  A call may change the handlers that the source has.  If no
call of a pass does (`Steady`), then every tag has the handler that it had at the
start.  So the calls made are a beginning of those that are due, and all of them
if the pass does not fail (`Makes.of_steady`).  No handler is missing, and a pass
fails only with a call (`expand_error_of_steady`).

*Prediction.*  A text is asked for tags of a name by `Expander.hasTag`.  The answer
tells whether handlers will be called, how often is told by a scan, and where there
is nothing to call all passes do the same (`hasTag_predicts`).
-/

namespace BracketTags

variable {η σ : Type}

/-! ## Calls made -/

/-- A pass over the text `t` that begins in the world `w` makes these calls with their handlers, in
this order. -/
inductive Makes (act : Behaviour η σ) (e : Expander η) (t : Text) (w : World η σ) :
    List (η × Call) → Prop where
  | nameless (hnames : e.source.names w.registry = []) : Makes act e t w []
  | finished {os : List Occurrence} {strict : Bool} {w₀ w' : World η σ}
      {first events : List Event} {calls : List (η × Call)} {rs : List Text}
      (begins : Begins e t w os strict w₀ first)
      (visits : Visits act e strict os w₀ calls rs w' events) : Makes act e t w calls
  | stopped {before after : List Occurrence} {o : Occurrence} {strict : Bool}
      {w₀ w₁ w' : World η σ} {first events last : List Event} {calls call : List (η × Call)}
      {rs : List Text} {err : Error}
      (begins : Begins e t w (before ++ o :: after) strict w₀ first)
      (visits : Visits act e strict before w₀ calls rs w₁ events)
      (fails : Answers act e strict o w₁ call (.error err) w' last) :
      Makes act e t w (calls ++ call)

/-- The event of a call. -/
def Call.event (c : Call) : Event := .called c.name c.attributes c.content

def Event.isCalled : Event → Bool
  | .called _ _ _ => true
  | _ => false

section Makes

variable {act : Behaviour η σ} {e : Expander η} {strict : Bool} {t : Text} {o : Occurrence}
  {os : List Occurrence} {w w' : World η σ} {calls calls' : List (η × Call)} {rs : List Text}
  {out : Except Error Text} {events : List Event}

/-- The handler of a tag is called once, if it is looked up and found. -/
theorem Answers.calls_eq (h : Answers act e strict o w calls out w' events) :
    calls = (if o.tag.isEscaped then none else e.source.get? w.registry o.tag.name).toList.map
      fun h => (h, o.tag.call) := by
  cases h with
  | escaped hesc => simp [hesc]
  | unhandled hesc hget => simp [hesc, hget]
  | missing hesc hget => simp [hesc, hget]
  | value hesc hget => simp [hesc, hget]
  | awaitable hesc hget => simp [hesc, hget]
  | failed hesc hget => simp [hesc, hget]

theorem Visits.calls_unique {rs' : List Text} {w'' : World η σ} {events' : List Event}
    (h : Visits act e strict os w calls rs w' events)
    (h' : Visits act e strict os w calls' rs' w'' events') : calls = calls' := by
  induction h generalizing calls' rs' w'' events' with
  | nil =>
      cases h' with
      | nil => rfl
  | cons head tail ih =>
      cases h' with
      | cons head' tail' =>
          obtain ⟨-, rfl, -⟩ := head.unique head'
          rw [head.calls_eq, head'.calls_eq, ih tail']

/-- Tags are not all visited if one of them fails. -/
theorem Answers.not_visits {before after : List Occurrence} {err : Error} {w₁ w₂ : World η σ}
    {call : List (η × Call)} {rs' : List Text} {last events' : List Event}
    (fails : Answers act e strict o w₁ call (.error err) w' last)
    (h : Visits act e strict before w calls rs w₁ events)
    (h' : Visits act e strict (before ++ o :: after) w calls' rs' w₂ events') : False := by
  obtain ⟨_, _, _, _, w₃, _, _, hbefore, hrest⟩ := h'.exists_between
  obtain ⟨-, rfl, -⟩ := h.unique hbefore
  cases hrest with
  | cons head tail => cases (fails.unique head).1

/-- The calls of a pass are determined. -/
theorem Makes.unique (h : Makes act e t w calls) (h' : Makes act e t w calls') :
    calls = calls' := by
  cases h with
  | nameless hnames =>
      cases h' with
      | nameless _ => rfl
      | finished begins' _ => exact absurd hnames begins'.names_ne
      | stopped begins' _ _ => exact absurd hnames begins'.names_ne
  | finished begins visits =>
      cases h' with
      | nameless hnames => exact absurd hnames begins.names_ne
      | finished begins' visits' =>
          obtain ⟨rfl, rfl, rfl, -⟩ := begins.unique begins'
          exact visits.calls_unique visits'
      | stopped begins' visits' fails' =>
          obtain ⟨rfl, rfl, rfl, -⟩ := begins.unique begins'
          exact (fails'.not_visits visits' visits).elim
  | @stopped before after o strict w₀ w₁ w₂ first events last calls call rs err begins visits
      fails =>
      cases h' with
      | nameless hnames => exact absurd hnames begins.names_ne
      | finished begins' visits' =>
          obtain ⟨rfl, rfl, rfl, -⟩ := begins.unique begins'
          exact (fails.not_visits visits visits').elim
      | @stopped before' after' o' strict' w₀' w₁' w₂' first' events' last' calls' call' rs' err'
          begins' visits' fails' =>
          obtain ⟨htags, rfl, rfl, -⟩ := begins.unique begins'
          rcases eq_or_before_of_append_cons_eq htags with
            ⟨rfl, rfl, rfl⟩ | ⟨next, rfl⟩ | ⟨next, rfl⟩
          · obtain ⟨-, rfl, -⟩ := visits.unique visits'
            rw [visits.calls_unique visits', fails.calls_eq, fails'.calls_eq]
          · exact (fails'.not_visits visits' visits).elim
          · exact (fails.not_visits visits visits').elim

theorem exists_makes (act : Behaviour η σ) (e : Expander η) (t : Text) (w : World η σ) :
    ∃ calls, Makes act e t w calls := by
  have hrun := expands_expand act e t w
  generalize e.expand act t w = r at hrun
  cases hrun with
  | nameless hnames => exact ⟨_, .nameless hnames⟩
  | finished begins visits => exact ⟨_, .finished begins visits⟩
  | stopped begins visits fails => exact ⟨_, .stopped begins visits fails⟩

/-- The calls are among the events, and there are no others, if the handlers start no passes. -/
theorem Answers.filter_isCalled (h : Answers act e strict o w calls out w' events)
    (hquiet : ∀ h, o.tag.isEscaped = false → e.source.get? w.registry o.tag.name = some h →
      (act h o.tag.call w).events.filter Event.isCalled = []) :
    events.filter Event.isCalled = calls.map fun p => p.2.event := by
  have hcalled {h : η} {reply : Except Error (Reply η σ)} {w' : World η σ} {events : List Event}
      (hesc : o.tag.isEscaped = false) (hget : e.source.get? w.registry o.tag.name = some h)
      (hcall : act h o.tag.call w = ⟨reply, w', events⟩) :
      (.called o.tag.name (.parse o.tag.attributes) o.tag.content? :: events).filter
        Event.isCalled = [o.tag.call.event] := by
    have hrest := hquiet h hesc hget
    rw [hcall] at hrest
    rw [List.filter_cons_of_pos rfl, hrest]
    rfl
  cases h with
  | escaped hesc => rfl
  | unhandled hesc hget => rfl
  | missing hesc hget => rfl
  | value hesc hget hcall => exact hcalled hesc hget hcall
  | awaitable hesc hget hcall => exact hcalled hesc hget hcall
  | failed hesc hget hcall => exact hcalled hesc hget hcall

theorem Visits.filter_isCalled (h : Visits act e strict os w calls rs w' events)
    (hquiet : ∀ before o after w₁ h, os = before ++ o :: after →
      Leads act e strict before w w₁ → o.tag.isEscaped = false →
      e.source.get? w₁.registry o.tag.name = some h →
      (act h o.tag.call w₁).events.filter Event.isCalled = []) :
    events.filter Event.isCalled = calls.map fun p => p.2.event := by
  induction h with
  | nil => rfl
  | @cons o os w w₁ w₂ calls more r rs events rest head tail ih =>
      have hrest := ih fun before o' after w' h hos hleads =>
        hquiet (o :: before) o' after w' h (by rw [hos, List.cons_append])
          (leads_cons_iff.mpr ⟨_, _, _, _, head, hleads⟩)
      rw [List.filter_append, List.map_append, hrest,
        head.filter_isCalled fun h => hquiet [] o os w h rfl (leads_nil w)]

theorem Begins.filter_isCalled {w₀ : World η σ} {begun : List Event}
    (hb : Begins e t w os strict w₀ begun) : begun.filter Event.isCalled = [] := by
  obtain ⟨p?, cache, events, hbuilt, hevents⟩ := exists_onlyBuilds_pattern? e (some t) w
  obtain rfl : begun = events := congrArg Result.events (hb.pattern?.symm.trans hbuilt)
  rw [List.filter_eq_nil_iff]
  intro ev hev
  obtain ⟨count, enclosing, rfl⟩ := hevents ev hev
  exact Bool.false_ne_true

/-- The events of a pass show its calls, if the handlers start no passes of their own. -/
theorem Makes.filter_isCalled (hmakes : Makes act e t w calls)
    (hquiet : ∀ h c w₁, Calls act e t w h c w₁ →
      (act h c w₁).events.filter Event.isCalled = []) :
    (e.expand act t w).events.filter Event.isCalled = calls.map fun p => p.2.event := by
  cases hmakes with
  | nameless hnames =>
      rw [(Expands.nameless hnames).expand_eq]
      rfl
  | finished begins visits =>
      rw [(Expands.finished begins visits).expand_eq, List.filter_append, begins.filter_isCalled,
        List.nil_append]
      refine visits.filter_isCalled fun before o after w₁ h hos hleads hesc hget => ?_
      obtain ⟨_, _, _, hv⟩ := hleads
      rw [hos] at begins
      exact hquiet _ _ _ (.intro begins hv hesc hget)
  | stopped begins visits fails =>
      rw [(Expands.stopped begins visits fails).expand_eq, List.filter_append,
        begins.filter_isCalled, List.nil_append, List.filter_append, List.map_append]
      congr 1
      · refine visits.filter_isCalled fun before o after w₁ h hos hleads hesc hget => ?_
        obtain ⟨_, _, _, hv⟩ := hleads
        rw [hos, List.append_assoc, List.cons_append] at begins
        exact hquiet _ _ _ (.intro begins hv hesc hget)
      · exact fails.filter_isCalled fun h hesc hget =>
          hquiet _ _ _ (.intro begins visits hesc hget)

end Makes

/-! ## Steady handlers -/

/-- The calls that are due for some tags, with the handlers that `get?` has. -/
def due (get? : Text → Option η) (os : List Occurrence) : List (Option η × Call) :=
  (os.filter fun o => !o.tag.isEscaped).map fun o => (get? o.tag.name, o.tag.call)

/-- No call that answers one of the tags, from the world `w` on, changes the handlers that the
source has. -/
def Steady (act : Behaviour η σ) (e : Expander η) (strict : Bool) (os : List Occurrence)
    (w : World η σ) : Prop :=
  ∀ before o after w₁ h, os = before ++ o :: after → Leads act e strict before w w₁ →
    o.tag.isEscaped = false → e.source.get? w₁.registry o.tag.name = some h →
    e.source.get? (act h o.tag.call w₁).world.registry = e.source.get? w₁.registry

section Steady

variable {act : Behaviour η σ} {e : Expander η} {strict : Bool} {t : Text} {o : Occurrence}
  {os before after : List Occurrence} {w w' : World η σ} {calls : List (η × Call)}
  {rs : List Text} {out : Except Error Text} {events : List Event} {get? : Text → Option η}

theorem due_append (get? : Text → Option η) (os os' : List Occurrence) :
    due get? (os ++ os') = due get? os ++ due get? os' := by
  rw [due, List.filter_append, List.map_append, due, due]

theorem Steady.left_of_append (h : Steady act e strict (before ++ after) w) :
    Steady act e strict before w := by
  intro before' o after' w₁ x hos hleads
  exact h before' o (after' ++ after) w₁ x
    (by rw [hos, List.append_assoc, List.cons_append]) hleads

theorem Steady.get?_head (h : Steady act e strict (o :: os) w)
    (ha : Answers act e strict o w calls out w' events) :
    e.source.get? w'.registry = e.source.get? w.registry := by
  rcases ha.by_call_or_without with ⟨x, hesc, hget, rfl, -⟩ | ⟨rfl, -⟩
  · exact h [] o os w x rfl (leads_nil w) hesc hget
  · rfl

theorem Steady.tail {r : Text} (h : Steady act e strict (o :: os) w)
    (ha : Answers act e strict o w calls (.ok r) w' events) : Steady act e strict os w' := by
  intro before o' after w₁ x hos hleads
  exact h (o :: before) o' after w₁ x (by rw [hos, List.cons_append])
    (leads_cons_iff.mpr ⟨_, _, _, _, ha, hleads⟩)

/-- A tag with a handler is answered by the call that is due. -/
theorem Answers.map_calls_eq_due (h : Answers act e strict o w calls out w' events)
    (hhas : e.source.get? w.registry o.tag.name ≠ none) :
    (calls.map fun p => (some p.1, p.2)) = due (e.source.get? w.registry) [o] := by
  obtain ⟨x, hget⟩ := Option.ne_none_iff_exists'.mp hhas
  rw [h.calls_eq, due]
  cases hesc : o.tag.isEscaped with
  | true => simp [hesc]
  | false => simp [hesc, hget]

/-- Tags are visited with the calls that are due, and the handlers stay as they are. -/
theorem Visits.of_steady (h : Visits act e strict os w calls rs w' events)
    (hsteady : Steady act e strict os w)
    (hhas : ∀ o ∈ os, e.source.get? w.registry o.tag.name ≠ none) :
    (calls.map fun p => (some p.1, p.2)) = due (e.source.get? w.registry) os ∧
      e.source.get? w'.registry = e.source.get? w.registry := by
  induction h with
  | nil => exact ⟨rfl, rfl⟩
  | @cons o os w w₁ w₂ calls more r rs events rest head tail ih =>
      have hget := hsteady.get?_head head
      obtain ⟨hmore, hget'⟩ := ih (hsteady.tail head) fun o' ho' => by
        rw [hget]
        exact hhas o' (List.mem_cons_of_mem o ho')
      refine ⟨?_, hget'.trans hget⟩
      rw [List.map_append, head.map_calls_eq_due (hhas o List.mem_cons_self), hmore, hget,
        ← due_append, List.singleton_append]

/-- No call of the pass changes the handlers that the source has. -/
def Expander.IsSteady (e : Expander η) (act : Behaviour η σ) (t : Text) (w : World η σ) : Prop :=
  ∀ h c w₁, Calls act e t w h c w₁ →
    e.source.get? (act h c w₁).world.registry = e.source.get? w₁.registry

theorem Expander.IsSteady.steady (h : e.IsSteady act t w) {w₀ : World η σ} {begun : List Event}
    (hb : Begins e t w os strict w₀ begun) : Steady act e strict os w₀ := by
  intro before o after w₁ x hos hleads hesc hget
  obtain ⟨_, _, _, hv⟩ := hleads
  rw [hos] at hb
  exact h _ _ _ (.intro hb hv hesc hget)

theorem Begins.tagsIn_eq {w₀ : World η σ} {begun : List Event}
    (hb : Begins e t w os strict w₀ begun) :
    Tag.tagsIn (e.source.names w.registry) t = os := by
  rw [Tag.tagsIn, if_neg hb.names_ne, hb.tags]

/-- The tags that a pass visits have the handlers that they had at the start. -/
theorem Expander.IsSteady.visited (h : e.IsSteady act t w) {w₀ : World η σ} {begun : List Event}
    (hb : Begins e t w (before ++ after) strict w₀ begun)
    (hv : Visits act e strict before w₀ calls rs w' events) :
    (calls.map fun p => (some p.1, p.2)) = due (e.source.get? w.registry) before ∧
      e.source.get? w'.registry = e.source.get? w.registry := by
  rw [← hb.registry]
  exact hv.of_steady (h.steady hb).left_of_append
    fun o ho => hb.get?_ne_none (List.mem_append_left after ho)

/-- The calls made are a beginning of those that are due.  A pass that gives a text made them
all. -/
theorem Makes.of_steady (h : Makes act e t w calls) (hsteady : e.IsSteady act t w) :
    (calls.map fun p => (some p.1, p.2)) <+:
        due (e.source.get? w.registry) (Tag.tagsIn (e.source.names w.registry) t) ∧
      ∀ u, (e.expand act t w).outcome = .ok u → (calls.map fun p => (some p.1, p.2)) =
        due (e.source.get? w.registry) (Tag.tagsIn (e.source.names w.registry) t) := by
  cases h with
  | nameless hnames =>
      rw [hnames]
      exact ⟨List.nil_prefix, fun _ _ => rfl⟩
  | @finished os strict w₀ w' first events calls rs begins visits =>
      have hall := begins
      rw [← List.append_nil os] at hall
      have hcalls := (hsteady.visited hall visits).1
      rw [begins.tagsIn_eq]
      exact ⟨hcalls ▸ List.prefix_refl _, fun _ _ => hcalls⟩
  | @stopped before after o strict w₀ w₁ w' first events last calls call rs err begins visits
      fails =>
      obtain ⟨hcalls, hget⟩ := hsteady.visited begins visits
      have hhas : e.source.get? w₁.registry o.tag.name ≠ none := by
        rw [hget, ← begins.registry]
        exact begins.get?_ne_none (by simp)
      refine ⟨⟨due (e.source.get? w.registry) after, ?_⟩, fun u hu => ?_⟩
      · rw [List.map_append, hcalls, fails.map_calls_eq_due hhas, hget, begins.tagsIn_eq,
          ← due_append, ← due_append, List.append_assoc, List.singleton_append]
      · rw [(Expands.stopped begins visits fails).expand_eq] at hu
        cases hu

/-- A pass with steady handlers fails only with one of its calls. -/
theorem expand_error_of_steady (hsteady : e.IsSteady act t w) {err : Error}
    (h : (e.expand act t w).outcome = .error err) :
    ∃ x c w₁, Calls act e t w x c w₁ ∧ ((act x c w₁).outcome = .error err ∨
      ∃ body, (act x c w₁).outcome = .ok (.awaitable body) ∧ err = .awaitable c.name) := by
  have hrun := expands_expand act e t w
  generalize e.expand act t w = r at hrun h
  cases hrun with
  | nameless hnames => cases h
  | finished begins visits => cases h
  | stopped begins visits fails =>
      obtain rfl := Except.error.inj h
      cases fails with
      | missing hesc hnone hstrict =>
          rw [(hsteady.visited begins visits).2, ← begins.registry] at hnone
          exact absurd hnone (begins.get?_ne_none (by simp))
      | awaitable hesc hget hcall =>
          exact ⟨_, _, _, .intro begins visits hesc hget, .inr ⟨_, by rw [hcall], rfl⟩⟩
      | failed hesc hget hcall =>
          exact ⟨_, _, _, .intro begins visits hesc hget, .inl (by rw [hcall])⟩

/-- Steady handlers are never missing, so all warnings are those of handlers. -/
theorem happensInCall_of_steady (hsteady : e.IsSteady act t w) {name : Text} {i : Nat}
    (h : .unhandled name i ∈ (e.expand act t w).events) :
    HappensInCall act e t w (.unhandled name i) := by
  rcases unhandled_mem_expand h with hcall | ⟨-, m, hm, hmiss, -⟩
  · exact hcall
  · refine absurd hmiss (hm.not_misses fun x c w₁ hcall name hname => ?_)
    rw [hsteady x c w₁ hcall]
    exact hname

end Steady

/-! ## Prediction -/

/-- The call is answered by a value, and it leaves the registry as it is. -/
def Behaviour.AnswersPlainly (act : Behaviour η σ) (h : η) (c : Call) (w : World η σ) : Prop :=
  ∃ v w' events, act h c w = ⟨.ok (.value v), w', events⟩ ∧ w'.registry = w.registry

section Prediction

variable {act : Behaviour η σ} {e : Expander η} {t : Text} {w : World η σ}
  {calls : List (η × Call)}

theorem hasTag_outcome (e : Expander η) (t : Text) (name? : Option Text) (w : World η σ) :
    (e.hasTag t name? w).outcome = .ok ((Tag.tagsIn (e.source.names w.registry) t).any fun o =>
      !o.tag.isEscaped && name?.all fun name => o.tag.name == name) := by
  have hscan := scan_outcome e t w
  cases h : e.scan t w with
  | mk outcome w' events =>
      rw [h] at hscan
      obtain rfl : outcome = .ok _ := hscan
      rw [Expander.hasTag, Run.bind_ok h]
      rfl

/-- A text has a tag of some kind if one of its tags is of this kind and not escaped. -/
theorem hasTag_iff {name? : Option Text} :
    (e.hasTag t name? w).outcome = .ok true ↔
      ∃ o ∈ Tag.tagsIn (e.source.names w.registry) t, o.tag.isEscaped = false ∧
        ∀ name ∈ name?, o.tag.name = name := by
  rw [hasTag_outcome, Except.ok.injEq, List.any_eq_true]
  simp [Option.all_eq_true]

theorem hasTag_eq_false_iff {name? : Option Text} :
    (e.hasTag t name? w).outcome = .ok false ↔ (e.hasTag t name? w).outcome ≠ .ok true := by
  rw [hasTag_outcome, Except.ok.injEq, ne_eq, Except.ok.injEq, Bool.not_eq_true]

theorem Tag.name_mem_of_mem_tagsIn {names : List Text} {o : Occurrence}
    (h : o ∈ tagsIn names t) : o.tag.name ∈ names := by
  obtain ⟨-, -, u, hread⟩ := exists_read?_of_mem_tagsIn h
  exact name_mem_of_read? hread

/-- As many calls are due under a name as there are tags of this name. -/
theorem countP_due (get? : Text → Option η) (os : List Occurrence) (n : Text) :
    (due get? os).countP (fun p => p.2.name == n) =
      os.countP fun o => !o.tag.isEscaped && o.tag.name == n := by
  rw [due, List.countP_map, List.countP_filter]
  exact List.countP_congr fun o _ => by simp [Tag.call, and_comm]

/-- Calls that are answered plainly leave the handlers as they are. -/
theorem isSteady_of_answersPlainly
    (h : ∀ x c w₁, Calls act e t w x c w₁ → act.AnswersPlainly x c w₁) : e.IsSteady act t w := by
  intro x c w₁ hcall
  obtain ⟨v, w', events, happly, hregistry⟩ := h x c w₁ hcall
  rw [happly]
  exact congrArg _ hregistry

/-- A pass whose calls are answered plainly gives a text. -/
theorem exists_expand_ok (h : ∀ x c w₁, Calls act e t w x c w₁ → act.AnswersPlainly x c w₁) :
    ∃ u, (e.expand act t w).outcome = .ok u := by
  cases hout : (e.expand act t w).outcome with
  | ok u => exact ⟨u, rfl⟩
  | error err =>
      obtain ⟨x, c, w₁, hcall, hfails⟩ :=
        expand_error_of_steady (isSteady_of_answersPlainly h) hout
      obtain ⟨v, w', events, happly, -⟩ := h x c w₁ hcall
      rw [happly] at hfails
      rcases hfails with hfails | ⟨body, hfails, -⟩
      · cases hfails
      · cases hfails

/-- Where no tag is to be answered, no handler is called. -/
theorem not_calls_of_escaped
    (h : ∀ o ∈ Tag.tagsIn (e.source.names w.registry) t, o.tag.isEscaped = true)
    {x : η} {c : Call} {w₁ : World η σ} : ¬ Calls act e t w x c w₁ := by
  rintro ⟨begins, visits, hesc, hget⟩
  have hmem := h _ (begins.tagsIn_eq ▸ List.mem_append_right _ List.mem_cons_self)
  exact Bool.false_ne_true (hesc.symm.trans hmem)

/-- Asking for tags predicts a pass.

If the calls of a pass are answered plainly, it gives a text, and its calls are determined.  Under
each name there are as many as the scan has tags of this name that are not escaped, with the
handler of the name, so there is one exactly if the text has such a tag.  Of any handlers, those
that start no passes show their calls in the events.

A text has a tag exactly if it has one of a registered name, and it has none of any other name.
If it has none, then no handler is called, whatever the handlers do, and both ways to expand do
what stripping does. -/
theorem hasTag_predicts (act : Behaviour η σ) (e : Expander η) (t : Text) (w : World η σ) :
    (∃ calls os, (∀ calls', Makes act e t w calls' ↔ calls' = calls) ∧
      (e.scan t w).outcome = .ok os ∧
      ((∀ h c w₁, Calls act e t w h c w₁ → act.AnswersPlainly h c w₁) →
        (∃ u, (e.expand act t w).outcome = .ok u) ∧
        ∀ n, calls.countP (fun p => p.2.name == n) =
            os.countP (fun o => !o.tag.isEscaped && o.tag.name == n) ∧
          (∀ p ∈ calls, p.2.name = n → e.source.get? w.registry n = some p.1) ∧
          ((∃ p ∈ calls, p.2.name = n) ↔ (e.hasTag t (some n) w).outcome = .ok true)) ∧
      ((∀ h c w₁, Calls act e t w h c w₁ →
          (act h c w₁).events.filter Event.isCalled = []) →
        (e.expand act t w).events.filter Event.isCalled = calls.map fun p => p.2.event)) ∧
    ((e.hasTag t none w).outcome = .ok true ↔
      ∃ n ∈ e.source.names w.registry, (e.hasTag t (some n) w).outcome = .ok true) ∧
    (∀ n, n ∉ e.source.names w.registry → (e.hasTag t (some n) w).outcome = .ok false) ∧
    ((e.hasTag t none w).outcome = .ok false →
      e.expand act t w = e.strip t w ∧ e.expandAwaiting act t w = e.strip t w ∧
        (e.strip t w).outcome = .ok (Tag.leftover (e.source.names w.registry) t) ∧
        (e.strip t w).events.filter Event.isCalled = [] ∧
        ∀ h c w₁, ¬ Calls act e t w h c w₁) := by
  obtain ⟨calls, hmakes⟩ := exists_makes act e t w
  refine ⟨⟨calls, _, fun calls' => ⟨fun h => h.unique hmakes, fun h => h ▸ hmakes⟩,
    scan_outcome e t w, fun hplain => ?_, hmakes.filter_isCalled⟩, ⟨fun h => ?_, fun h => ?_⟩,
    fun n hn => ?_, fun hfalse => ?_⟩
  · obtain ⟨u, hu⟩ := exists_expand_ok hplain
    have hdue := (hmakes.of_steady (isSteady_of_answersPlainly hplain)).2 u hu
    refine ⟨⟨u, hu⟩, fun n => ?_⟩
    have hcount : calls.countP (fun p => p.2.name == n) =
        (Tag.tagsIn (e.source.names w.registry) t).countP
          fun o => !o.tag.isEscaped && o.tag.name == n := by
      rw [← countP_due (e.source.get? w.registry), ← hdue, List.countP_map]
      rfl
    refine ⟨hcount, fun p hp hpn => ?_, ?_⟩
    · have hmem : (some p.1, p.2) ∈ due (e.source.get? w.registry)
          (Tag.tagsIn (e.source.names w.registry) t) :=
        hdue ▸ List.mem_map.mpr ⟨p, hp, rfl⟩
      obtain ⟨o, -, ho⟩ := List.mem_map.mp hmem
      obtain ⟨hget, hcall⟩ := Prod.mk.inj ho
      rw [← hpn, ← hcall]
      exact hget
    · have hpos := congrArg (0 < ·) hcount
      simp only [List.countP_pos_iff, eq_iff_iff] at hpos
      rw [hasTag_iff]
      simpa using hpos
  · obtain ⟨o, ho, hesc, -⟩ := hasTag_iff.mp h
    exact ⟨o.tag.name, Tag.name_mem_of_mem_tagsIn ho, hasTag_iff.mpr ⟨o, ho, hesc, by simp⟩⟩
  · obtain ⟨n, -, hn⟩ := h
    obtain ⟨o, ho, hesc, -⟩ := hasTag_iff.mp hn
    exact hasTag_iff.mpr ⟨o, ho, hesc, nofun⟩
  · rw [hasTag_eq_false_iff, ne_eq, hasTag_iff]
    rintro ⟨o, ho, -, hname⟩
    exact hn (hname n rfl ▸ Tag.name_mem_of_mem_tagsIn ho)
  · have hescaped : ∀ o ∈ Tag.tagsIn (e.source.names w.registry) t, o.tag.isEscaped = true := by
      rw [hasTag_eq_false_iff, ne_eq, hasTag_iff] at hfalse
      intro o ho
      rw [← Bool.not_eq_false]
      exact fun hesc => hfalse ⟨o, ho, hesc, nofun⟩
    obtain ⟨cache, events, happly, hevents⟩ := onlyBuilds_strip e t w
    refine ⟨expand_eq_strip_of_escaped act hescaped, ?_, by rw [happly], ?_,
      fun h c w₁ => not_calls_of_escaped hescaped⟩
    · rw [expandAwaiting_eq]
      exact expand_eq_strip_of_escaped act.awaited hescaped
    · rw [happly, List.filter_eq_nil_iff]
      intro ev hev
      obtain ⟨count, enclosing, rfl⟩ := hevents ev hev
      exact Bool.false_ne_true

/-- Two of four tags call the handler of their name, and a text whose one tag is escaped is left to
nobody. -/
theorem hasTag_predicts_twice :
    (∃ calls, Makes (fun _ _ => pure (.value (.int 1))) ⟨.live, none⟩
        "[b][[b]][m][b k]".toList twoRemovable calls ∧
      calls.countP (fun p => p.2.name == ['b']) = 2 ∧
      calls.countP (fun p => p.2.name == ['x']) = 0) ∧
    ((Expander.mk .live none).hasTag "[b][[b]][m]".toList (some ['x']) twoRemovable).outcome =
      .ok false ∧
    Expander.expand (fun _ _ => Run.fail .tooDeep) ⟨.live, none⟩ "[[b]]".toList twoRemovable =
      (Expander.mk .live none).strip "[[b]]".toList twoRemovable := by
  refine ⟨?_, ?_, ?_⟩
  · obtain ⟨⟨calls, os, hmakes, hos, hcount, -⟩, -⟩ := hasTag_predicts
      (fun _ _ => pure (.value (.int 1))) ⟨.live, none⟩ "[b][[b]][m][b k]".toList twoRemovable
    have hplain := hcount fun h c w₁ _ => ⟨_, w₁, _, rfl, rfl⟩
    have hscan : Tag.tagsIn [['b'], ['m']] "[b][[b]][m][b k]".toList = os :=
      Except.ok.inj ((scan_outcome _ _ _).symm.trans hos)
    refine ⟨calls, (hmakes calls).mpr rfl, ?_, ?_⟩
    · rw [(hplain.2 _).1, ← hscan]
      decide +kernel
    · rw [(hplain.2 _).1, ← hscan]
      decide +kernel
  · exact (hasTag_predicts (fun _ _ => Run.fail .tooDeep) _ _ _).2.2.1 ['x'] (by decide)
  · refine ((hasTag_predicts _ _ _ _).2.2.2 ?_).1
    rw [hasTag_outcome]
    decide +kernel

end Prediction

end BracketTags
