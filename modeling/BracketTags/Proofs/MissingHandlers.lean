import BracketTags.Proofs.Offsets
import BracketTags.Proofs.Rendering

/-!
# Missing handlers

A name that is recognized when a pass starts may have no handler when one of its
tags is met, since the handlers called before may have removed it.

*Removal.*  A name is *taken away* by some tags if one of them has a handler
whose call removes the name, and no later one of them gives it a handler again
(`TakenAway`).  The name of a tag had a handler at the start, so it has none
when the tag is met exactly if it was taken away (`Moment.get?_eq_none_iff`).

*Moments.*  A pass meets its tags one after another.  A moment of the pass
(`Moment.Reached`) has the tags before the one that is met, the text built and
the events so far, and the world.  The result of the pass is what it makes of
the rest in that world (`Moment.Reached.expand_eq`).

*Failure.*  A strict pass stops where it meets a missing handler.  Any other
pass leaves the tag in place, warns once and goes on (`missing_handlers`).
-/

namespace BracketTags

variable {η σ : Type}

/-! ## Removal -/

/-- A visit of the tags leads from one world to another. -/
def Leads (act : Behaviour η σ) (e : Expander η) (strict : Bool) (os : List Occurrence)
    (w w' : World η σ) : Prop :=
  ∃ calls rs events, Visits act e strict os w calls rs w' events

/-- The tags are visited from the world `w` on.  The handler of one of them takes the name away,
and the name has no handler after any number of the tags behind it. -/
inductive TakenAway (act : Behaviour η σ) (e : Expander η) (strict : Bool) (name : Text)
    (os : List Occurrence) (w : World η σ) : Prop where
  | intro {before after : List Occurrence} {o : Occurrence} {w₁ : World η σ} {h : η}
      (tags : os = before ++ o :: after)
      (visits : Leads act e strict before w w₁)
      (hesc : o.tag.isEscaped = false) (hget : e.source.get? w₁.registry o.tag.name = some h)
      (present : e.source.get? w₁.registry name ≠ none)
      (absent : ∀ next w₂, next <+: after →
        Leads act e strict next (act h o.tag.call w₁).world w₂ →
        e.source.get? w₂.registry name = none)

section Removal

variable {act : Behaviour η σ} {e : Expander η} {strict : Bool} {name : Text}
  {os before after : List Occurrence} {o : Occurrence} {w w₁ w' : World η σ}

theorem leads_nil (w : World η σ) : Leads act e strict [] w w := ⟨_, _, _, .nil⟩

theorem Leads.eq_of_nil (h : Leads act e strict [] w w') : w' = w := by
  obtain ⟨_, _, _, hv⟩ := h
  cases hv with
  | nil => rfl

theorem Leads.unique (h : Leads act e strict os w w₁) (h' : Leads act e strict os w w') :
    w₁ = w' := by
  obtain ⟨_, _, _, hv⟩ := h
  obtain ⟨_, _, _, hv'⟩ := h'
  exact (hv.unique hv').2.1

theorem leads_append_iff :
    Leads act e strict (before ++ after) w w' ↔
      ∃ w₁, Leads act e strict before w w₁ ∧ Leads act e strict after w₁ w' := by
  constructor
  · rintro ⟨_, _, _, hv⟩
    obtain ⟨_, _, _, _, w₁, _, _, hbefore, hafter⟩ := hv.exists_between
    exact ⟨w₁, ⟨_, _, _, hbefore⟩, ⟨_, _, _, hafter⟩⟩
  · rintro ⟨w₁, ⟨_, _, _, hbefore⟩, ⟨_, _, _, hafter⟩⟩
    exact ⟨_, _, _, hbefore.append hafter⟩

theorem leads_cons_iff :
    Leads act e strict (o :: os) w w' ↔
      ∃ calls r w₁ events, Answers act e strict o w calls (.ok r) w₁ events ∧
        Leads act e strict os w₁ w' := by
  constructor
  · rintro ⟨_, _, _, hv⟩
    cases hv with
    | cons head tail => exact ⟨_, _, _, _, head, _, _, _, tail⟩
  · rintro ⟨_, _, _, _, head, _, _, _, tail⟩
    exact ⟨_, _, _, .cons head tail⟩

/-- The call of the handler `h` for the tag settles the world and the events.  The tag fails if the
call fails. -/
structure AnsweredBy (act : Behaviour η σ) (o : Occurrence) (h : η) (w : World η σ)
    (out : Except Error Text) (w' : World η σ) (events : List Event) : Prop where
  world : w' = (act h o.tag.call w).world
  events : events =
    .called o.tag.name (.parse o.tag.attributes) o.tag.content? :: (act h o.tag.call w).events
  replied : ∀ r, out = .ok r → ∃ reply, (act h o.tag.call w).outcome = .ok reply

/-- A tag is answered by a call of its handler.  Or it is escaped or has no handler, and then the
world stays as it is and nothing happens but the warning. -/
theorem Answers.by_call_or_without {calls : List (η × Call)} {out : Except Error Text}
    {events : List Event} (ha : Answers act e strict o w calls out w' events) :
    (∃ h, o.tag.isEscaped = false ∧ e.source.get? w.registry o.tag.name = some h ∧
      AnsweredBy act o h w out w' events) ∨
    w' = w ∧ (o.tag.isEscaped = true ∧ events = [] ∨
      o.tag.isEscaped = false ∧ e.source.get? w.registry o.tag.name = none ∧
        (events = [] ∨ strict = false ∧ events = [.unhandled o.tag.name o.start])) := by
  cases ha with
  | escaped hesc => exact .inr ⟨rfl, .inl ⟨hesc, rfl⟩⟩
  | unhandled hesc hget hstrict => exact .inr ⟨rfl, .inr ⟨hesc, hget, .inr ⟨hstrict, rfl⟩⟩⟩
  | missing hesc hget hstrict => exact .inr ⟨rfl, .inr ⟨hesc, hget, .inl rfl⟩⟩
  | value hesc hget hcall =>
      exact .inl ⟨_, hesc, hget, by rw [hcall], by rw [hcall], fun _ _ => ⟨_, by rw [hcall]⟩⟩
  | awaitable hesc hget hcall =>
      exact .inl ⟨_, hesc, hget, by rw [hcall], by rw [hcall], nofun⟩
  | failed hesc hget hcall =>
      exact .inl ⟨_, hesc, hget, by rw [hcall], by rw [hcall], nofun⟩

theorem Answers.answeredBy {calls : List (η × Call)} {out : Except Error Text}
    {events : List Event} {h : η} (ha : Answers act e strict o w calls out w' events)
    (hesc : o.tag.isEscaped = false) (hget : e.source.get? w.registry o.tag.name = some h) :
    AnsweredBy act o h w out w' events := by
  rcases ha.by_call_or_without with ⟨h', -, hget', hby⟩ | ⟨-, ⟨hesc', -⟩ | ⟨-, hget', -⟩⟩
  · obtain rfl := Option.some.inj (hget.symm.trans hget')
    exact hby
  · simp [hesc] at hesc'
  · simp [hget] at hget'

/-- After a call the tags behind it are visited. -/
theorem Leads.after_call {h : η} (hv : Leads act e strict (before ++ o :: after) w w')
    (hbefore : Leads act e strict before w w₁) (hesc : o.tag.isEscaped = false)
    (hget : e.source.get? w₁.registry o.tag.name = some h) :
    Leads act e strict after (act h o.tag.call w₁).world w' := by
  obtain ⟨w₂, hbefore', hrest⟩ := leads_append_iff.mp hv
  obtain rfl := hbefore.unique hbefore'
  obtain ⟨_, _, _, _, head, tail⟩ := leads_cons_iff.mp hrest
  rw [(head.answeredBy hesc hget).world] at tail
  exact tail

/-- A name that had a handler has none after some tags exactly if they took it away.  The last of
them did, or the name was taken away before and the last one gave it no handler. -/
theorem get?_eq_none_iff_takenAway (hpresent : e.source.get? w.registry name ≠ none)
    (h : Leads act e strict os w w') :
    e.source.get? w'.registry name = none ↔ TakenAway act e strict name os w := by
  constructor
  · intro hnone
    induction os using List.reverseRecOn generalizing w' with
    | nil =>
        rw [h.eq_of_nil] at hnone
        exact absurd hnone hpresent
    | append_singleton os o ih =>
        obtain ⟨w₁, hos, ho⟩ := leads_append_iff.mp h
        cases hget : e.source.get? w₁.registry name with
        | none =>
            obtain ⟨rfl, hvisits, hesc, hsome, hthere, habsent⟩ := ih hos hget
            rw [List.append_assoc, List.cons_append] at h ⊢
            refine .intro rfl hvisits hesc hsome hthere fun next w₂ hnext hleads => ?_
            rcases List.prefix_concat_iff.mp hnext with rfl | hnext
            · rw [hleads.unique (h.after_call hvisits hesc hsome)]
              exact hnone
            · exact habsent next w₂ hnext hleads
        | some x =>
            obtain ⟨_, _, w₂, _, head, tail⟩ := leads_cons_iff.mp ho
            obtain rfl := tail.eq_of_nil
            rcases head.by_call_or_without with ⟨h', hesc, hsome, rfl, -, -⟩ | ⟨rfl, -⟩
            · refine .intro rfl hos hesc hsome (by simp [hget]) fun next w₂ hnext hleads => ?_
              rw [List.prefix_nil.mp hnext] at hleads
              rw [hleads.eq_of_nil]
              exact hnone
            · simp [hget] at hnone
  · rintro ⟨rfl, hvisits, hesc, hsome, -, habsent⟩
    exact habsent _ w' (List.prefix_refl _) (h.after_call hvisits hesc hsome)

end Removal

/-! ## Moments -/

/-- Whether a pass that starts in a world is strict. -/
def Expander.isStrictAt (e : Expander η) (w : World η σ) : Bool :=
  (e.fixed.getD w.config).isStrict

/-- The moment at which a pass meets a tag. -/
structure Moment (η σ : Type) where
  /-- The tags that were met before. -/
  before : List Occurrence
  /-- The tag that is met. -/
  met : Occurrence
  /-- The tags behind it. -/
  after : List Occurrence
  /-- The world in which the first tag of all was met. -/
  first : World η σ
  /-- The world now. -/
  world : World η σ
  /-- The text that stands before the tag when all tags there are replaced. -/
  built : Text
  /-- The events so far. -/
  events : List Event

namespace Moment

/-- A pass over the text `t` that begins in the world `w` comes to the moment. -/
inductive Reached (act : Behaviour η σ) (e : Expander η) (t : Text) (w : World η σ) :
    Moment η σ → Prop where
  | intro {before after : List Occurrence} {o : Occurrence} {w₀ w₁ : World η σ}
      {calls : List (η × Call)} {rs : List Text} {begun visited : List Event}
      (begins : Begins e t w (before ++ o :: after) (e.isStrictAt w) w₀ begun)
      (visits : Visits act e (e.isStrictAt w) before w₀ calls rs w₁ visited) :
      Reached act e t w
        ⟨before, o, after, w₀, w₁, splice (t.take o.start) 0 before rs, begun ++ visited⟩

/-- A tag without markers at both ends is met, and its name was taken away. -/
def Misses (act : Behaviour η σ) (e : Expander η) (strict : Bool) (m : Moment η σ) : Prop :=
  m.met.tag.isEscaped = false ∧ TakenAway act e strict m.met.tag.name m.before m.first

/-- The result of a pass that goes on behind the tag in the world `w`, with the text `r` in the
place of the tag and some more events. -/
def goOn (act : Behaviour η σ) (e : Expander η) (strict : Bool) (t : Text) (m : Moment η σ)
    (r : Text) (w : World η σ) (more : List Event) : Result η σ Text :=
  let rest := Expander.replaceAll act e strict
    (segmentsFrom m.met.stop (t.drop m.met.stop) m.after)
  ((fun u => m.built ++ (r ++ u)) <$> rest) w |>.after (m.events ++ more)

end Moment

/-- Of two elements of a list one stands before the other, or they are at the same place. -/
theorem eq_or_before_of_append_cons_eq {α : Type} {xs xs' ys ys' : List α} {x x' : α}
    (h : xs ++ x :: ys = xs' ++ x' :: ys') :
    (xs = xs' ∧ x = x' ∧ ys = ys') ∨ (∃ next, xs = xs' ++ x' :: next) ∨
      ∃ next, xs' = xs ++ x :: next := by
  rcases List.append_eq_append_iff.mp h with ⟨next, hxs, hrest⟩ | ⟨next, hxs, hrest⟩
  · cases next with
    | nil =>
        obtain ⟨rfl, rfl⟩ := List.cons.inj hrest
        exact .inl ⟨by rw [hxs, List.append_nil], rfl, rfl⟩
    | cons d next =>
        obtain ⟨rfl, -⟩ := List.cons.inj hrest
        exact .inr (.inr ⟨next, hxs⟩)
  · cases next with
    | nil =>
        obtain ⟨rfl, rfl⟩ := List.cons.inj hrest
        exact .inl ⟨by rw [hxs, List.append_nil], rfl, rfl⟩
    | cons d next =>
        obtain ⟨rfl, -⟩ := List.cons.inj hrest
        exact .inr (.inl ⟨next, hxs⟩)

section Moments

variable {act : Behaviour η σ} {e : Expander η} {strict : Bool} {t : Text} {pos : Nat}
  {before after : List Occurrence} {o : Occurrence} {w w₁ w₂ : World η σ} {m m' : Moment η σ}
  {calls : List (η × Call)} {rs : List Text} {r : Text} {events last : List Event} {err : Error}

/-- The tags before a tag are replaced, and then the tag is replaced and what follows it. -/
theorem Visits.replaceAll_reach (hp : Placed t pos (before ++ o :: after))
    (h : Visits act e strict before w calls rs w₁ events) :
    Expander.replaceAll act e strict (segmentsFrom pos (t.drop pos) (before ++ o :: after)) w =
      (((splice (t.take o.start) pos before rs ++ ·) <$> Expander.replaceAll act e strict
        (.tag o :: segmentsFrom o.stop (t.drop o.stop) after)) w₁).after events := by
  induction h generalizing pos with
  | nil =>
      rw [List.nil_append] at hp ⊢
      rw [segmentsFrom_cons hp, Expander.replaceAll, splice_nil, Result.after_nil, List.drop_take]
      rfl
  | @cons o' os _ _ _ _ _ r' rs' events' _ head tail ih =>
      rw [List.cons_append] at hp ⊢
      have hstart : o'.start ≤ o.start :=
        Nat.le_of_lt (List.rel_of_pairwise_cons hp.pairwise_start (by simp))
      have hslice : Text.slice (t.take o.start) pos o'.start = t.slice pos o'.start := by
        rw [Text.slice, Text.slice, List.drop_take, List.take_take,
          Nat.min_eq_left (Nat.sub_le_sub_right hstart pos)]
      have hhead := Run.bind_ok head.replacement fun u =>
        (u ++ ·) <$> Expander.replaceAll act e strict
          (segmentsFrom o'.stop (t.drop o'.stop) (os ++ o :: after))
      rw [Run.map_after (ih hp.tail) (r' ++ ·), Result.after_after] at hhead
      rw [segmentsFrom_cons hp, Expander.replaceAll, Expander.replaceAll, splice_cons, hslice,
        Run.map_after hhead, Functor.map_map, Functor.map_map]
      simp only [List.append_assoc]

theorem Moment.Reached.expand_ok (hm : m.Reached act e t w)
    (h : Answers act e (e.isStrictAt w) m.met m.world calls (.ok r) w₁ last) :
    e.expand act t w = m.goOn act e (e.isStrictAt w) t r w₁ last := by
  cases hm with
  | @intro before after o w₀ w₁ calls rs begun visited hb hv =>
      have htag := Run.bind_ok h.replacement fun u =>
        (u ++ ·) <$> Expander.replaceAll act e (e.isStrictAt w)
          (segmentsFrom o.stop (t.drop o.stop) after)
      have hreach := hv.replaceAll_reach hb.placed
      rw [Expander.replaceAll, Run.map_after htag, Result.after_after, Functor.map_map] at hreach
      rw [hb.expand, segments]
      exact (congrArg (Result.after begun) hreach).trans
        (by rw [Result.after_after, Moment.goOn, List.append_assoc])

theorem Moment.Reached.expand_error (hm : m.Reached act e t w)
    (h : Answers act e (e.isStrictAt w) m.met m.world calls (.error err) w₁ last) :
    e.expand act t w = ⟨.error err, w₁, m.events ++ last⟩ := by
  cases hm with
  | intro hb hv =>
      rw [List.append_assoc]
      exact (Expands.stopped hb hv h).expand_eq

theorem Moment.reached_mk {begun visited : List Event} {w₀ : World η σ}
    (hb : Begins e t w (before ++ o :: after) strict w₀ begun)
    (hv : Visits act e strict before w₀ calls rs w₁ visited) :
    Moment.Reached act e t w
      ⟨before, o, after, w₀, w₁, splice (t.take o.start) 0 before rs, begun ++ visited⟩ := by
  obtain rfl : strict = e.isStrictAt w := hb.strict
  exact .intro hb hv

/-- Of two moments of a pass one is before the other, or they are the same. -/
theorem Moment.Reached.eq_or_before (hm : m.Reached act e t w) (hm' : m'.Reached act e t w) :
    m' = m ∨ (∃ next, m.before = m'.before ++ m'.met :: next) ∨
      ∃ next, m'.before = m.before ++ m.met :: next := by
  cases hm with
  | @intro before after o w₀ w₁ calls rs begun visited hb hv =>
  cases hm' with
  | @intro before' after' o' w₀' w₁' calls' rs' begun' visited' hb' hv' =>
  obtain ⟨htags, -, rfl, rfl⟩ := hb.unique hb'
  rcases eq_or_before_of_append_cons_eq htags with ⟨rfl, rfl, rfl⟩ | hbefore
  · obtain ⟨rfl, rfl, rfl⟩ := hv.unique hv'
    exact .inl rfl
  · exact .inr hbefore

/-- A tag that was met before another one did not fail. -/
theorem Moment.Reached.answered_before (hm : m.Reached act e t w) (hm' : m'.Reached act e t w)
    {next : List Occurrence} (hbefore : m.before = m'.before ++ m'.met :: next) :
    ∃ calls r w₁ last,
      Answers act e (e.isStrictAt w) m'.met m'.world calls (.ok r) w₁ last := by
  cases hm with
  | intro hb hv =>
  cases hm' with
  | intro hb' hv' =>
  obtain ⟨-, -, rfl, -⟩ := hb.unique hb'
  dsimp only at hbefore
  rw [hbefore] at hv
  obtain ⟨_, _, _, _, w₂, _, _, hv₁, hv₂⟩ := hv.exists_between
  obtain ⟨-, rfl, -⟩ := hv₁.unique hv'
  obtain ⟨_, _, _, _, head, -⟩ := leads_cons_iff.mp ⟨_, _, _, hv₂⟩
  exact ⟨_, _, _, _, head⟩

/-- No tag is met behind one that fails. -/
theorem Moment.Reached.before_prefix (hm : m.Reached act e t w)
    (h : Answers act e (e.isStrictAt w) m.met m.world calls (.error err) w₁ last)
    (hm' : m'.Reached act e t w) : m'.before <+: m.before := by
  rcases hm.eq_or_before hm' with rfl | ⟨next, hnext⟩ | ⟨next, hnext⟩
  · exact List.prefix_refl _
  · exact ⟨_, hnext.symm⟩
  · obtain ⟨_, r, _, _, hok⟩ := hm'.answered_before hm hnext
    cases (h.unique hok).1

/-! ## Events -/

/-- What happens while some tags are replaced happens where one of them is answered. -/
theorem exists_answers_of_mem_events {os : List Occurrence} {event : Event} (hp : Placed t pos os)
    (h : event ∈ (Expander.replaceAll act e strict
      (segmentsFrom pos (t.drop pos) os) w).events) :
    ∃ before o after w₁ calls out w₂ last, os = before ++ o :: after ∧
      Leads act e strict before w w₁ ∧ Answers act e strict o w₁ calls out w₂ last ∧
      event ∈ last := by
  induction os generalizing pos w with
  | nil =>
      rw [segmentsFrom, Expander.replaceAll, Expander.replaceAll] at h
      cases h
  | cons o os ih =>
      obtain ⟨calls, out, w₂, last, head⟩ := exists_answers act e strict o w
      rw [segmentsFrom_cons hp, Expander.replaceAll, Expander.replaceAll] at h
      cases out with
      | error err =>
          rw [Run.map_error (Run.bind_error head.replacement _)] at h
          exact ⟨[], o, os, _, _, _, _, _, rfl, leads_nil w, head, h⟩
      | ok r =>
          have hhead := Run.bind_ok head.replacement fun u =>
            (u ++ ·) <$> Expander.replaceAll act e strict
              (segmentsFrom o.stop (t.drop o.stop) os)
          rw [Run.map_after hhead, Functor.map_map, Result.after] at h
          rcases List.mem_append.mp h with h | h
          · exact ⟨[], o, os, _, _, _, _, _, rfl, leads_nil w, head, h⟩
          · rw [Run.events_map] at h
            obtain ⟨before, o', after, w₁, calls', out, w₃, last', rfl, hleads, ha, hmem⟩ :=
              ih hp.tail h
            exact ⟨o :: before, o', after, _, _, _, _, _, rfl,
              leads_cons_iff.mpr ⟨_, _, _, _, head, hleads⟩, ha, hmem⟩

/-! ## Missing handlers -/

/-- Every tag has a handler when the first one is met. -/
theorem Begins.get?_ne_none {os : List Occurrence} {w₀ : World η σ} {begun : List Event}
    (hb : Begins e t w os strict w₀ begun) (ho : o ∈ os) :
    e.source.get? w₀.registry o.tag.name ≠ none := by
  have hmem : o ∈ Tag.tagsIn (e.source.names w.registry) t := by
    rw [Tag.tagsIn, if_neg hb.names_ne, ← hb.tags]
    exact ho
  obtain ⟨-, -, u, hread⟩ := Tag.exists_read?_of_mem_tagsIn hmem
  rw [hb.registry]
  exact e.source.hasAll_names w.registry _ (Tag.name_mem_of_read? hread)

/-- A tag that is met has no handler exactly if the tags before it took its name away. -/
theorem Moment.Reached.get?_eq_none_iff (hm : m.Reached act e t w) :
    e.source.get? m.world.registry m.met.tag.name = none ↔
      TakenAway act e (e.isStrictAt w) m.met.tag.name m.before m.first := by
  cases hm with
  | intro hb hv => exact get?_eq_none_iff_takenAway (hb.get?_ne_none (by simp)) ⟨_, _, _, hv⟩

/-- A strict pass fails at a missing handler. -/
theorem Moment.Reached.fails (hm : m.Reached act e t w) (h : m.Misses act e (e.isStrictAt w))
    (hstrict : e.isStrictAt w = true) :
    Answers act e (e.isStrictAt w) m.met m.world []
      (.error (.missingHandler m.met.tag.name (some m.met.start))) m.world [] :=
  .missing h.1 (hm.get?_eq_none_iff.mpr h.2) hstrict

/-- A pass that is not strict leaves the tag in place and warns. -/
theorem Moment.Reached.warns (hm : m.Reached act e t w) (h : m.Misses act e (e.isStrictAt w))
    (hstrict : e.isStrictAt w = false) :
    Answers act e (e.isStrictAt w) m.met m.world [] (.ok m.met.text) m.world
      [.unhandled m.met.tag.name m.met.start] :=
  .unhandled h.1 (hm.get?_eq_none_iff.mpr h.2) hstrict

/-! ## Failures and warnings -/

/-- A pass fails with an error that no handler failed with. -/
def FailsItself (act : Behaviour η σ) (e : Expander η) (t : Text) (w : World η σ)
    (err : Error) : Prop :=
  (e.expand act t w).outcome = .error err ∧
    ∀ h c w₁, Calls act e t w h c w₁ → ∃ reply, (act h c w₁).outcome = .ok reply

/-- An event happens while a handler runs that the pass called. -/
def HappensInCall (act : Behaviour η σ) (e : Expander η) (t : Text) (w : World η σ)
    (event : Event) : Prop :=
  ∃ h c w₁, Calls act e t w h c w₁ ∧ event ∈ (act h c w₁).events

theorem Moment.Reached.called {h : η} (hm : m.Reached act e t w)
    (hesc : m.met.tag.isEscaped = false)
    (hget : e.source.get? m.world.registry m.met.tag.name = some h) :
    Calls act e t w h m.met.tag.call m.world := by
  cases hm with
  | intro hb hv => exact .intro hb hv hesc hget

/-- A call is made at a moment of the pass. -/
theorem Calls.exists_moment {h : η} {c : Call} (hcall : Calls act e t w h c w₁) :
    ∃ m : Moment η σ, m.Reached act e t w ∧ m.met.tag.isEscaped = false ∧
      e.source.get? m.world.registry m.met.tag.name = some h ∧ m.met.tag.call = c ∧
      m.world = w₁ := by
  cases hcall with
  | intro hb hv hesc hget => exact ⟨_, Moment.reached_mk hb hv, hesc, hget, rfl, rfl⟩

/-- A warning belongs to a handler that is called, or to the tag itself. -/
theorem Answers.of_unhandled_mem {out : Except Error Text} {name : Text} {i : Nat}
    (ha : Answers act e strict o w calls out w₁ last) (hmem : .unhandled name i ∈ last) :
    (∃ h, o.tag.isEscaped = false ∧ e.source.get? w.registry o.tag.name = some h ∧
      .unhandled name i ∈ (act h o.tag.call w).events) ∨
    (strict = false ∧ o.tag.isEscaped = false ∧ e.source.get? w.registry o.tag.name = none ∧
      o.tag.name = name ∧ o.start = i) := by
  rcases ha.by_call_or_without with
    ⟨h, hesc, hget, -, rfl, -⟩ | ⟨-, ⟨-, rfl⟩ | ⟨hesc, hget, hevents⟩⟩
  · exact .inl ⟨h, hesc, hget, (List.mem_cons.mp hmem).resolve_left nofun⟩
  · cases hmem
  · rcases hevents with rfl | ⟨hstrict, rfl⟩
    · cases hmem
    · cases List.mem_singleton.mp hmem
      exact .inr ⟨hstrict, hesc, hget, rfl, rfl⟩

theorem Begins.unhandled_notMem {os : List Occurrence} {w₀ : World η σ} {begun : List Event}
    (hb : Begins e t w os strict w₀ begun) (name : Text) (i : Nat) :
    .unhandled name i ∉ begun := by
  obtain ⟨p, hp⟩ := hb.compiled
  have hevents := congrArg Result.events hp
  rw [Run.expression] at hevents
  dsimp only at hevents
  rw [← hevents]
  split
  · simp
  · simp

/-- A warning in a moment is a warning of a handler, or of the tag that is met. -/
theorem Moment.Reached.of_unhandled_mem {out : Except Error Text} {name : Text} {i : Nat}
    (hm : m.Reached act e t w)
    (ha : Answers act e (e.isStrictAt w) m.met m.world calls out w₁ last)
    (hmem : .unhandled name i ∈ last) :
    HappensInCall act e t w (.unhandled name i) ∨
      (e.isStrictAt w = false ∧ m.Misses act e (e.isStrictAt w) ∧ m.met.tag.name = name ∧
        m.met.start = i) := by
  rcases ha.of_unhandled_mem hmem with ⟨h, hesc, hget, hevent⟩ | ⟨hstrict, hesc, hget, hname, hi⟩
  · exact .inl ⟨h, _, _, hm.called hesc hget, hevent⟩
  · exact .inr ⟨hstrict, ⟨hesc, hm.get?_eq_none_iff.mp hget⟩, hname, hi⟩

/-- A warning in a pass is a warning of a handler, or of a tag whose handler is missing. -/
theorem unhandled_mem_expand {name : Text} {i : Nat}
    (h : .unhandled name i ∈ (e.expand act t w).events) :
    HappensInCall act e t w (.unhandled name i) ∨
      (e.isStrictAt w = false ∧ ∃ m : Moment η σ, m.Reached act e t w ∧
        m.Misses act e (e.isStrictAt w) ∧ m.met.tag.name = name ∧ m.met.start = i) := by
  by_cases hnames : e.source.names w.registry = []
  · rw [(Expands.nameless hnames).expand_eq] at h
    cases h
  · obtain ⟨strict, w₀, begun, hb⟩ := exists_begins t hnames
    rw [hb.expand] at h
    rcases List.mem_append.mp h with h | h
    · exact absurd h (hb.unhandled_notMem name i)
    · obtain ⟨before, o, after, w₁, calls, out, w₂, last, hos, ⟨_, _, _, hv⟩, ha, hmem⟩ :=
        exists_answers_of_mem_events hb.placed h
      rw [hos] at hb
      obtain rfl : strict = e.isStrictAt w := hb.strict
      have hm := Moment.reached_mk hb hv
      rcases hm.of_unhandled_mem ha hmem with hcall | ⟨hstrict, hmiss⟩
      · exact .inl hcall
      · exact .inr ⟨hstrict, _, hm, hmiss⟩

/-- A warning that is not of a handler tells where the tag stands. -/
theorem Moment.Reached.start_eq {out : Except Error Text} {name : Text} {i : Nat}
    (hm : m.Reached act e t w) (hquiet : ¬ HappensInCall act e t w (.unhandled name i))
    (ha : Answers act e (e.isStrictAt w) m.met m.world calls out w₁ last)
    (hmem : .unhandled name i ∈ last) : m.met.start = i := by
  rcases hm.of_unhandled_mem ha hmem with hcall | ⟨-, -, -, hstart⟩
  · exact absurd hcall hquiet
  · exact hstart

/-- The tags before a tag do not warn of it. -/
theorem Moment.Reached.unhandled_notMem_events {name : Text} (hm : m.Reached act e t w)
    (hquiet : ¬ HappensInCall act e t w (.unhandled name m.met.start)) :
    .unhandled name m.met.start ∉ m.events := by
  cases hm with
  | @intro before after o w₀ w₁ calls rs begun visited hb hv =>
      intro hmem
      rcases List.mem_append.mp hmem with hmem | hmem
      · exact hb.unhandled_notMem _ _ hmem
      · have hplaced := hb.placed.left_of_append
        have hvisited : .unhandled name o.start ∈ (Expander.replaceAll act e (e.isStrictAt w)
            (segmentsFrom 0 t before) w₀).events :=
          (congrArg (_ ∈ ·) (congrArg Result.events (hv.replaceAll hplaced))).mpr hmem
        obtain ⟨before', o', after', _, _, _, _, _, rfl, ⟨_, _, _, hv'⟩, ha, hlast⟩ :=
          exists_answers_of_mem_events hplaced hvisited
        have hlt := (List.pairwise_append.mp hb.placed.pairwise_start).2.2 o' (by simp) o (by simp)
        rw [List.append_assoc, List.cons_append] at hb
        exact Nat.ne_of_lt hlt ((Moment.reached_mk hb hv').start_eq hquiet ha hlast)

/-- The tags behind a tag do not warn of it. -/
theorem Moment.Reached.unhandled_notMem_rest {name : Text} (hm : m.Reached act e t w)
    (hquiet : ¬ HappensInCall act e t w (.unhandled name m.met.start))
    (hok : Answers act e (e.isStrictAt w) m.met m.world calls (.ok r) w₁ last) :
    .unhandled name m.met.start ∉ (Expander.replaceAll act e (e.isStrictAt w)
      (segmentsFrom m.met.stop (t.drop m.met.stop) m.after) w₁).events := by
  cases hm with
  | @intro before after o w₀ _ calls rs begun visited hb hv =>
      intro hmem
      obtain ⟨before', o', after', _, _, _, _, _, rfl, ⟨_, _, _, hv'⟩, ha, hlast⟩ :=
        exists_answers_of_mem_events hb.placed.right_of_append.tail hmem
      have hlt : o.start < o'.start := List.rel_of_pairwise_cons
        (List.pairwise_append.mp hb.placed.pairwise_start).2.1 (by simp)
      have hb' : Begins e t w ((before ++ o :: before') ++ o' :: after') (e.isStrictAt w) w₀
          begun := by
        rw [List.append_assoc, List.cons_append]
        exact hb
      have hm' := Moment.reached_mk hb' (hv.append (.cons hok hv'))
      exact Nat.ne_of_gt hlt (hm'.start_eq hquiet ha hlast)

/-- The warning of a tag whose handler is missing is in the events of the pass once. -/
theorem Moment.Reached.warns_once (hm : m.Reached act e t w) (hstrict : e.isStrictAt w = false)
    (h : m.Misses act e (e.isStrictAt w))
    (hquiet : ¬ HappensInCall act e t w (.unhandled m.met.tag.name m.met.start)) :
    ∃ earlier later,
      (e.expand act t w).events =
        earlier ++ .unhandled m.met.tag.name m.met.start :: later ∧
      .unhandled m.met.tag.name m.met.start ∉ earlier ∧
      .unhandled m.met.tag.name m.met.start ∉ later := by
  have hwarns := hm.warns h hstrict
  refine ⟨_, _, ?_, hm.unhandled_notMem_events hquiet, hm.unhandled_notMem_rest hquiet hwarns⟩
  rw [hm.expand_ok hwarns, Moment.goOn, Result.after]
  dsimp only
  rw [Run.events_map, List.append_assoc, List.singleton_append]

/-- A pass that fails itself with a missing handler is strict and meets one. -/
theorem FailsItself.exists_misses {name : Text} {i? : Option Int}
    (h : FailsItself act e t w (.missingHandler name i?)) :
    e.isStrictAt w = true ∧ ∃ m : Moment η σ, m.Reached act e t w ∧
      m.Misses act e (e.isStrictAt w) ∧ m.met.tag.name = name ∧ some (m.met.start : Int) = i? := by
  obtain ⟨houtcome, hcalls⟩ := h
  have hrun := expands_expand act e t w
  generalize e.expand act t w = r at hrun houtcome
  cases hrun with
  | nameless hnames => cases houtcome
  | finished begins visits => cases houtcome
  | stopped begins visits fails =>
      have hm := Moment.reached_mk begins visits
      obtain rfl := Except.error.inj houtcome
      cases fails with
      | missing hesc hget hstrict =>
          exact ⟨begins.strict.symm.trans hstrict, _, hm,
            ⟨hesc, hm.get?_eq_none_iff.mp hget⟩, rfl, rfl⟩
      | failed hesc hget hcall =>
          obtain ⟨reply, hreply⟩ := hcalls _ _ _ (.intro begins visits hesc hget)
          rw [hcall] at hreply
          cases hreply

/-- A strict pass that meets a missing handler fails itself. -/
theorem Moment.Reached.failsItself (hm : m.Reached act e t w)
    (h : m.Misses act e (e.isStrictAt w)) (hstrict : e.isStrictAt w = true) :
    FailsItself act e t w (.missingHandler m.met.tag.name (some m.met.start)) := by
  have hfails := hm.fails h hstrict
  refine ⟨congrArg Result.outcome (hm.expand_error hfails), fun x c w₁ hcall => ?_⟩
  obtain ⟨m', hm', hesc, hget, rfl, rfl⟩ := hcall.exists_moment
  rcases hm.eq_or_before hm' with rfl | ⟨next, hnext⟩ | ⟨next, hnext⟩
  · rw [hm.get?_eq_none_iff.mpr h.2] at hget
    cases hget
  · obtain ⟨_, _, _, _, hok⟩ := hm.answered_before hm' hnext
    exact (hok.answeredBy hesc hget).replied _ rfl
  · obtain ⟨_, _, _, _, hok⟩ := hm'.answered_before hm hnext
    cases (hfails.unique hok).1

/-- Nothing is missed where no call takes a name away. -/
theorem Moment.Reached.not_misses (hm : m.Reached act e t w)
    (hkeep : ∀ h c w₁, Calls act e t w h c w₁ → ∀ name,
      e.source.get? w₁.registry name ≠ none →
      e.source.get? (act h c w₁).world.registry name ≠ none) :
    ¬ m.Misses act e (e.isStrictAt w) := by
  rintro ⟨-, ⟨htags, ⟨_, _, _, hv⟩, hesc, hget, hpresent, habsent⟩⟩
  cases hm with
  | intro hb _ =>
      dsimp only at htags hv
      rw [htags, List.append_assoc, List.cons_append] at hb
      exact hkeep _ _ _ (.intro hb hv hesc hget) _ hpresent
        (habsent [] _ (List.nil_prefix) (leads_nil _))

end Moments

/-- When a missing handler is reported.  The world in which a pass starts settles whether it is
strict.

A strict pass fails itself with a missing handler exactly if it meets a tag whose name was taken
away.  It fails there, with the name and the place of that tag, and meets no other one.  A pass
that is not strict never fails like that.  It goes on with the text of the tag in its place and
with one warning, in the same world.

An escaped tag has no part in this.  And where no call takes a name away, there are no such
failures, and no warnings but those of handlers. -/
theorem missing_handlers (act : Behaviour η σ) (e : Expander η) (t : Text) (w : World η σ) :
    (e.isStrictAt w = true →
      (∀ name i?, FailsItself act e t w (.missingHandler name i?) ↔
        ∃ m : Moment η σ, m.Reached act e t w ∧ m.Misses act e (e.isStrictAt w) ∧
          m.met.tag.name = name ∧ some (m.met.start : Int) = i?) ∧
      ∀ m : Moment η σ, m.Reached act e t w → m.Misses act e (e.isStrictAt w) →
        e.expand act t w =
          ⟨.error (.missingHandler m.met.tag.name (some m.met.start)), m.world, m.events⟩ ∧
        ∀ m' : Moment η σ, m'.Reached act e t w → m'.before <+: m.before) ∧
    (e.isStrictAt w = false →
      (∀ name i?, ¬ FailsItself act e t w (.missingHandler name i?)) ∧
      ∀ m : Moment η σ, m.Reached act e t w → m.Misses act e (e.isStrictAt w) →
        e.expand act t w = m.goOn act e (e.isStrictAt w) t m.met.text m.world
          [.unhandled m.met.tag.name m.met.start] ∧
        (¬ HappensInCall act e t w (.unhandled m.met.tag.name m.met.start) →
          ∃ earlier later,
            (e.expand act t w).events =
              earlier ++ .unhandled m.met.tag.name m.met.start :: later ∧
            .unhandled m.met.tag.name m.met.start ∉ earlier ∧
            .unhandled m.met.tag.name m.met.start ∉ later)) ∧
    (∀ m : Moment η σ, m.Reached act e t w → m.met.tag.isEscaped = true →
      e.expand act t w =
        m.goOn act e (e.isStrictAt w) t m.met.unescapedText m.world []) ∧
    (∀ name i, .unhandled name i ∈ (e.expand act t w).events →
      HappensInCall act e t w (.unhandled name i) ∨
        (e.isStrictAt w = false ∧ ∃ m : Moment η σ, m.Reached act e t w ∧
          m.Misses act e (e.isStrictAt w) ∧ m.met.tag.name = name ∧ m.met.start = i)) ∧
    ((∀ h c w₁, Calls act e t w h c w₁ → ∀ name, e.source.get? w₁.registry name ≠ none →
        e.source.get? (act h c w₁).world.registry name ≠ none) →
      ∀ name, (∀ i?, ¬ FailsItself act e t w (.missingHandler name i?)) ∧
        ∀ i, .unhandled name i ∈ (e.expand act t w).events →
          HappensInCall act e t w (.unhandled name i)) := by
  refine ⟨fun hstrict => ⟨fun name i? => ⟨fun h => h.exists_misses.2, ?_⟩, fun m hm hmiss => ?_⟩,
    fun hstrict => ⟨fun name i? h => ?_, fun m hm hmiss => ?_⟩, fun m hm hesc => ?_,
    fun name i h => unhandled_mem_expand h, fun hkeep name => ⟨fun i? h => ?_, fun i h => ?_⟩⟩
  · rintro ⟨m, hm, hmiss, rfl, rfl⟩
    exact hm.failsItself hmiss hstrict
  · have hfails := hm.fails hmiss hstrict
    refine ⟨?_, fun m' hm' => hm.before_prefix hfails hm'⟩
    rw [hm.expand_error hfails, List.append_nil]
  · exact Bool.false_ne_true (hstrict.symm.trans h.exists_misses.1)
  · exact ⟨hm.expand_ok (hm.warns hmiss hstrict), hm.warns_once hstrict hmiss⟩
  · exact hm.expand_ok (.escaped hesc)
  · obtain ⟨-, m, hm, hmiss, -⟩ := h.exists_misses
    exact hm.not_misses hkeep hmiss
  · rcases unhandled_mem_expand h with hcall | ⟨-, m, hm, hmiss, -⟩
    · exact hcall
    · exact absurd hmiss (hm.not_misses hkeep)

/-- A world in which two names have handlers. -/
def twoRemovable : World Unit Unit where
  registry := oneName.registry.accept ['m'] (by decide) ()
  memory := ()

/-- Every handler removes the first of the two names. -/
def removeFirst : Behaviour Unit Unit := fun _ _ => do
  Run.unregister ['b']
  return .value .nothing

/-- The tag behind an escaped one is met without a handler. -/
theorem exists_misses_removeFirst (strict : Bool) :
    ∃ m : Moment Unit Unit,
      m.Reached removeFirst ⟨.live, some ⟨.bool strict⟩⟩ "[m][[b]][b k]".toList twoRemovable ∧
      m.Misses removeFirst ⟨.live, some ⟨.bool strict⟩⟩ strict ∧
      m.met = ⟨⟨['b'], " k".toList, .opening, false, false⟩, 8, "[b k]".toList⟩ := by
  have hscan : Tag.scan [['b'], ['m']] "[m][[b]][b k]".toList =
      [⟨⟨['m'], [], .opening, false, false⟩, 0, "[m]".toList⟩,
        ⟨⟨['b'], [], .opening, true, true⟩, 3, "[[b]]".toList⟩] ++
      ⟨⟨['b'], " k".toList, .opening, false, false⟩, 8, "[b k]".toList⟩ :: [] := by
    decide +kernel
  have hb : Begins ⟨.live, some ⟨.bool strict⟩⟩ "[m][[b]][b k]".toList twoRemovable
      (Tag.scan [['b'], ['m']] "[m][[b]][b k]".toList) strict _ [.compiled 2 false] :=
    ⟨List.cons_ne_nil ['b'] [['m']], rfl, rfl, _, rfl⟩
  rw [hscan] at hb
  have hm : Moment.Reached removeFirst ⟨.live, some ⟨.bool strict⟩⟩ "[m][[b]][b k]".toList
      twoRemovable _ :=
    Moment.reached_mk hb (.cons (.value rfl rfl rfl) (.cons (.escaped rfl) .nil))
  exact ⟨_, hm, ⟨rfl, hm.get?_eq_none_iff.mp rfl⟩, rfl⟩

/-- A strict pass fails at the third tag, and not at the escaped one before it.  Any other pass
leaves the tag in place and warns.  Handlers that remove nothing cause no failure. -/
theorem missing_handlers_removeFirst :
    FailsItself removeFirst ⟨.live, some ⟨.bool true⟩⟩ "[m][[b]][b k]".toList twoRemovable
      (.missingHandler ['b'] (some 8)) ∧
    (∃ m : Moment Unit Unit,
      Expander.expand removeFirst ⟨.live, some ⟨.bool false⟩⟩ "[m][[b]][b k]".toList twoRemovable =
        m.goOn removeFirst ⟨.live, some ⟨.bool false⟩⟩ false "[m][[b]][b k]".toList
          "[b k]".toList m.world [.unhandled ['b'] 8]) ∧
    (∃ earlier later,
      (Expander.expand removeFirst ⟨.live, some ⟨.bool false⟩⟩ "[m][[b]][b k]".toList
        twoRemovable).events = earlier ++ .unhandled ['b'] 8 :: later ∧
      .unhandled ['b'] 8 ∉ earlier ∧ .unhandled ['b'] 8 ∉ later) ∧
    ∀ i?, ¬ FailsItself (fun _ _ => pure (.value .nothing)) ⟨.live, some ⟨.bool true⟩⟩
      "[m][[b]][b k]".toList twoRemovable (.missingHandler ['b'] i?) := by
  refine ⟨?_, ?_, ?_, ?_⟩
  · obtain ⟨m, hm, hmiss, hmet⟩ := exists_misses_removeFirst true
    refine ((missing_handlers _ _ _ _).1 rfl).1 _ _ |>.mpr ⟨m, hm, hmiss, ?_, ?_⟩
    · rw [hmet]
    · rw [hmet]
      rfl
  · obtain ⟨m, hm, hmiss, hmet⟩ := exists_misses_removeFirst false
    have hgoes := (((missing_handlers _ _ _ _).2.1 rfl).2 m hm hmiss).1
    rw [hmet] at hgoes
    exact ⟨m, hgoes⟩
  · obtain ⟨m, hm, hmiss, hmet⟩ := exists_misses_removeFirst false
    have honce := (((missing_handlers _ _ _ _).2.1 rfl).2 m hm hmiss).2
    rw [hmet] at honce
    refine honce ?_
    rintro ⟨h, c, w₁, -, hmem⟩
    cases hmem
  · refine ((missing_handlers _ _ _ _).2.2.2.2 ?_ ['b']).1
    intro h c w₁ hcall name hget
    exact hget

end BracketTags
