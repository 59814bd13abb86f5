import BracketTags.Proofs.Rendering

/-!
# Building

A pass builds its expression, unless it is kept from before, and then it meets
the tags of its text.

*Before the tags.*  Nothing but the kept expressions changes, and nothing
happens but that an expression is built (`Run.OnlyBuilds`).  Runs that only
build are put together by the rules of a monad, and asking for an expression is
one of them (`exists_onlyBuilds_pattern?`).

*With the tags.*  What comes after that is settled by the tags of the text, also
if there are no names (`strip_eq_building`, `expand_eq_building`).  Over a text
that is one tag without markers, it is a call of the handler (`expand_of_tag`).
Where all tags are escaped, no handler has a part in it, and all passes do the
same (`expand_eq_strip_of_escaped`).
-/

namespace BracketTags

variable {η σ α β : Type}

/-! ## Runs that only build -/

/-- Run from the world `w`, `x` gives the value `a`.  It changes nothing but the expressions that
are kept, and nothing happens but that expressions are built. -/
def Run.OnlyBuilds (x : Run η σ α) (w : World η σ) (a : α) : Prop :=
  ∃ cache events, x w = ⟨.ok a, { w with expressions := cache }, events⟩ ∧
    ∀ ev ∈ events, ∃ count enclosing, ev = .compiled count enclosing

namespace Run.OnlyBuilds

variable {x : Run η σ α} {w : World η σ} {a : α}

theorem pure (a : α) (w : World η σ) : (Pure.pure a : Run η σ α).OnlyBuilds w a :=
  ⟨w.expressions, [], pure_apply a w, nofun⟩

theorem bind {f : α → Run η σ β} {b : β} (hx : x.OnlyBuilds w a)
    (hf : ∀ cache, (f a).OnlyBuilds { w with expressions := cache } b) :
    (x >>= f).OnlyBuilds w b := by
  obtain ⟨cache, events, happly, hevents⟩ := hx
  obtain ⟨cache', more, happly', hmore⟩ := hf cache
  refine ⟨cache', events ++ more, by rw [bind_ok happly, happly', Result.after_mk], ?_⟩
  intro ev hev
  rcases List.mem_append.mp hev with hev | hev
  · exact hevents ev hev
  · exact hmore ev hev

theorem map (f : α → β) (hx : x.OnlyBuilds w a) : (f <$> x).OnlyBuilds w (f a) := by
  obtain ⟨cache, events, happly, hevents⟩ := hx
  exact ⟨cache, events, map_ok happly f, hevents⟩

/-- Runs that do the same from a world only build alike. -/
theorem of_eq {y : Run η σ α} (hy : y.OnlyBuilds w a) (h : x w = y w) : x.OnlyBuilds w a := by
  obtain ⟨cache, events, happly, hevents⟩ := hy
  exact ⟨cache, events, h.trans happly, hevents⟩

end Run.OnlyBuilds

theorem onlyBuilds_expression (v : Vocabulary) (w : World η σ) :
    (Run.expression v).OnlyBuilds w v.expression := by
  have hvalue := w.expressions.value_request v
  cases hr : w.expressions.request v with
  | mk p computed cache =>
      rw [hr] at hvalue
      obtain rfl : p = v.expression := hvalue
      refine ⟨cache, _, by rw [Run.expression, hr], fun ev hev => ?_⟩
      cases computed with
      | false => cases hev
      | true => exact ⟨_, _, List.mem_singleton.mp hev⟩

/-- To ask for an expression is to build it, or to do nothing. -/
theorem exists_onlyBuilds_pattern? (e : Expander η) (text? : Option Text) (w : World η σ) :
    ∃ p?, (e.pattern? text?).OnlyBuilds w p? := by
  have hv : ∃ v?, (e.vocabulary? text?).OnlyBuilds w v? :=
    ⟨_, w.expressions, [], vocabulary?_apply e text? w, nofun⟩
  obtain ⟨v?, hv⟩ := hv
  cases v? with
  | none => exact ⟨none, hv.bind fun _ => .pure none _⟩
  | some v =>
      refine ⟨some (v.form, v.expression), hv.bind fun cache => ?_⟩
      exact (onlyBuilds_expression v _).bind fun _ => .pure _ _

/-! ## Passes -/

section Pass

variable {e : Expander η} {t : Text} {w : World η σ}

/-- What stripping leaves of a text is settled by the tags in it. -/
theorem Tag.leftover_eq_stripped (names : List Text) (t : Text) :
    leftover names t = stripped t (tagsIn names t) := by
  rw [leftover, tagsIn]
  split
  · simp [stripped, segments, segmentsFrom, Segment.strippedText]
  · rfl

/-- Stripping builds the expression and leaves what is settled by the names and the text. -/
theorem strip_eq_building (e : Expander η) (t : Text) (w : World η σ) :
    e.strip t w =
      ((fun _ => Tag.leftover (e.source.names w.registry) t) <$> e.pattern? (some t)) w := by
  by_cases hnames : e.source.names w.registry = []
  · rw [Expander.strip, Run.bind_ok (scan?_of_nameless hnames),
      Run.map_ok (pattern?_of_nameless hnames _), hnames, Tag.leftover_nil]
    rfl
  · obtain ⟨strict, w₀, events, hb⟩ := exists_begins t hnames
    rw [hb.strip, Run.map_ok hb.pattern?, Tag.leftover, if_neg hnames, Tag.strip]

theorem onlyBuilds_strip (e : Expander η) (t : Text) (w : World η σ) :
    (e.strip t).OnlyBuilds w (Tag.leftover (e.source.names w.registry) t) := by
  obtain ⟨p?, hbuilds⟩ := exists_onlyBuilds_pattern? e (some t) w
  exact (hbuilds.map _).of_eq (strip_eq_building e t w)

/-- A pass builds the expression and replaces the tags of the text. -/
theorem expand_eq_building (act : Behaviour η σ) (e : Expander η) (t : Text) (w : World η σ) :
    e.expand act t w =
      (e.pattern? (some t) >>= fun _ =>
        Expander.replaceAll act e (e.fixed.getD w.config).isStrict
          (segments t (Tag.tagsIn (e.source.names w.registry) t))) w := by
  by_cases hnames : e.source.names w.registry = []
  · rw [(Expands.nameless hnames).expand_eq, Run.bind_ok (pattern?_of_nameless hnames _), hnames,
      Tag.tagsIn, if_pos rfl]
    simp [segments, segmentsFrom, Expander.replaceAll]
  · obtain ⟨strict, w₀, events, hb⟩ := exists_begins t hnames
    rw [hb.expand, Run.bind_ok hb.pattern?, Tag.tagsIn, if_neg hnames, hb.strict]

/-- Segments are replaced alike if their tags are. -/
theorem replaceAll_congr {act act' : Behaviour η σ} {e e' : Expander η} {strict strict' : Bool}
    {segs : List Segment} (h : ∀ o, .tag o ∈ segs →
      Expander.replacement act e strict o = Expander.replacement act' e' strict' o) :
    Expander.replaceAll act e strict segs = Expander.replaceAll act' e' strict' segs := by
  induction segs with
  | nil => rfl
  | cons seg segs ih =>
      have hrest := ih fun o ho => h o (List.mem_cons_of_mem seg ho)
      cases seg with
      | gap u => rw [Expander.replaceAll, Expander.replaceAll, hrest]
      | tag o => rw [Expander.replaceAll, Expander.replaceAll, hrest, h o List.mem_cons_self]

/-! ## One tag -/

/-- The text that a handler's answer gives in a pass.  No answer is awaited. -/
def Reply.text (name : Text) : Reply η σ → Run η σ Text
  | .value v => pure v.toText
  | .awaitable _ => Run.fail (.awaitable name)

variable {o : Occurrence}

theorem replaceAll_segments_singleton {act : Behaviour η σ} {strict : Bool} (hstart : o.start = 0)
    (hstop : o.stop = t.length) :
    Expander.replaceAll act e strict (segments t [o]) = Expander.replacement act e strict o := by
  have hsegments : segments t [o] = [.gap [], .tag o, .gap []] := by
    simp [segments, segmentsFrom, hstart, hstop]
  rw [hsegments]
  simp [Expander.replaceAll]

/-- A tag without markers is replaced by the answer of its handler. -/
theorem replacement_eq_invoke {act : Behaviour η σ} {h : η} {strict : Bool}
    (hopen : o.tag.openMarker = false) (hclose : o.tag.closeMarker = false)
    (hget : e.source.get? w.registry o.tag.name = some h) :
    Expander.replacement act e strict o w =
      (act.invoke h o.tag.call >>= Reply.text o.tag.name) w := by
  have hesc : o.tag.isEscaped = false := by rw [Tag.isEscaped, hopen, Bool.false_and]
  have hmarkers (u : Text) : o.tag.withMarkers u = u := by
    simp [Tag.withMarkers, Tag.openText, Tag.closeText, hopen, hclose]
  rw [Expander.replacement, Run.bind_ok (resolve_some hesc hget), Result.after_nil]
  refine congrArg (fun f => (act.invoke h o.tag.call >>= f) w) (funext fun reply => ?_)
  cases reply with
  | value v => exact congrArg Pure.pure (hmarkers v.toText)
  | awaitable body => rfl

/-- A pass over a text that is one tag without markers builds the expression and calls the handler
of the tag. -/
theorem expand_of_tag (act : Behaviour η σ) {h : η}
    (htags : Tag.tagsIn (e.source.names w.registry) t = [o]) (hstart : o.start = 0)
    (hstop : o.stop = t.length) (hopen : o.tag.openMarker = false)
    (hclose : o.tag.closeMarker = false) (hget : e.source.get? w.registry o.tag.name = some h) :
    e.expand act t w = (e.pattern? (some t) >>= fun _ =>
      act.invoke h o.tag.call >>= Reply.text o.tag.name) w := by
  obtain ⟨p?, cache, events, hbuilt, -⟩ := exists_onlyBuilds_pattern? e (some t) w
  rw [expand_eq_building, htags, Run.bind_ok hbuilt, Run.bind_ok hbuilt,
    replaceAll_segments_singleton hstart hstop]
  exact congrArg (Result.after events) (replacement_eq_invoke hopen hclose hget)

/-! ## Escaped tags -/

/-- Segments whose tags are escaped are replaced by what stripping leaves of them. -/
theorem replaceAll_of_escaped (act : Behaviour η σ) (e : Expander η) (strict : Bool)
    {segs : List Segment} (h : ∀ o, .tag o ∈ segs → o.tag.isEscaped = true) :
    Expander.replaceAll act e strict segs =
      (pure (segs.flatMap Segment.strippedText) : Run η σ Text) := by
  induction segs with
  | nil => rfl
  | cons seg segs ih =>
      have htail := ih fun o ho => h o (List.mem_cons_of_mem seg ho)
      cases seg with
      | gap u =>
          rw [Expander.replaceAll, htail]
          rfl
      | tag o =>
          have hesc := h o List.mem_cons_self
          have hhead : Expander.replacement act e strict o = pure o.strippedText := by
            funext w
            have answers : Answers act e strict o w [] (.ok o.unescapedText) w [] := .escaped hesc
            rw [answers.replacement, Occurrence.strippedText, if_pos hesc, Run.pure_apply]
          rw [Expander.replaceAll, hhead, htail]
          rfl

theorem mem_of_tag_mem_segments {os : List Occurrence} {o : Occurrence}
    (h : .tag o ∈ segments t os) : o ∈ os := by
  rw [← Tag.filterMap_segmentsFrom 0 t os]
  exact List.mem_filterMap.mpr ⟨.tag o, h, rfl⟩

/-- A pass over a text whose tags are all escaped does what stripping does. -/
theorem expand_eq_strip_of_escaped (act : Behaviour η σ)
    (h : ∀ o ∈ Tag.tagsIn (e.source.names w.registry) t, o.tag.isEscaped = true) :
    e.expand act t w = e.strip t w := by
  have hsegs : ∀ o, .tag o ∈ segments t (Tag.tagsIn (e.source.names w.registry) t) →
      o.tag.isEscaped = true := fun o ho => h o (mem_of_tag_mem_segments ho)
  rw [expand_eq_building, replaceAll_of_escaped act e _ hsegs, strip_eq_building,
    Tag.leftover_eq_stripped, stripped]
  exact congrFun (Run.bind_pure_comp _ _) w

end Pass

end BracketTags
