import BracketTags.Proofs.TagFree

/-!
# Stripping twice

Stripping removes the tags of a text, and the pieces around them come together.
So a tag may be in what is left that was not in the text.

*Openings.*  A text has a tag exactly if a bracket and a name stand in it, the
name ends there, and a closing bracket follows (`Tag.hasOpening_iff`).  In a gap
nothing like that stands, because the tag could have been read there
(`Tag.not_opening_in_gap`).

*Pieces.*  So an opening that is left was put together (`Tag.OpensAnew`).  Its
bracket is the marker of a tag that is gone, or it stands in a gap with a part of
the name, and the other part of the name comes after a tag that is gone.

*Twice.*  If no tag is escaped, then stripping again changes nothing exactly if no
opening is put together (`strip_strip_iff`).  None is, if no tag has a marker before
it and no gap before a tag ends with a bracket and a part of a name.
-/

namespace BracketTags

variable {η σ : Type}

/-! ## Openings -/

/-- A bracket and one of the names stand in the text, the name ends there, and a closing bracket
follows. -/
def Text.HasOpening (names : List Text) (t : Text) : Prop :=
  ∃ name ∈ names, ∃ x y, t = x ++ '[' :: (name ++ y) ∧ nameEnds y = true ∧ ']' ∈ y

namespace Tag

variable {names : List Text} {t : Text}

/-- A text has tags exactly if it has an opening. -/
theorem hasOpening_iff : Text.HasOpening names t ↔ tagsIn names t ≠ [] := by
  rw [ne_eq, tagsIn_eq_nil_iff]
  constructor
  · rintro ⟨name, hname, x, y, rfl, hends, hclose⟩ hunread
    have hread := hunread x.length
    rw [List.drop_left] at hread
    exact read?_ne_none hname hends hclose hread
  · intro hread
    obtain ⟨i, hi⟩ := not_forall.mp hread
    obtain ⟨g, hg⟩ := Option.ne_none_iff_exists'.mp hi
    obtain ⟨name, hname, marker, y, hdrop, hends, hclose⟩ := exists_opening_of_read? hg
    refine ⟨name, hname, t.take i ++ marker, y, ?_, hends, hclose⟩
    rw [List.append_assoc, ← hdrop, List.take_append_drop]

/-- No opening stands in a gap, also if what follows the gap is stripped. -/
theorem not_opening_in_gap (hn : names ≠ []) {before after : List Segment} {u name v : Text}
    (hdiv : divide names 0 t = before ++ .gap (u ++ '[' :: (name ++ v)) :: after)
    (hname : name ∈ names) (hends : nameEnds (v ++ after.flatMap Segment.strippedText) = true)
    (hclose : ']' ∈ v ++ after.flatMap Segment.strippedText) : False := by
  have hgap := isGap_of_divide hn hdiv
  have hafter : ∀ o, .tag o ∈ after → o.text = o.tag.render := by
    intro o ho
    have hmem : .tag o ∈ divide names 0 t := by
      rw [hdiv]
      exact List.mem_append_right before (List.mem_cons_of_mem _ ho)
    exact (read?_of_mem_divide hn hmem).1
  have hrest : ']' ∈ v ++ after.flatMap Segment.text := by
    rcases List.mem_append.mp hclose with hclose | hclose
    · exact List.mem_append_left _ hclose
    · obtain ⟨seg, hseg, hc⟩ := List.mem_flatMap.mp hclose
      refine List.mem_append_right _ (List.mem_flatMap.mpr ⟨seg, hseg, ?_⟩)
      cases seg with
      | gap w => exact hc
      | tag o => exact mem_text_of_mem_strippedText (hafter o hseg) hc
  have hrestEnds : nameEnds (v ++ after.flatMap Segment.text) = true := by
    cases v with
    | nil => exact hgap.ends
    | cons d v => exact hends
  have hunread := hgap.unread u '[' (name ++ v) rfl
  rw [List.append_assoc] at hunread
  exact read?_ne_none hname hrestEnds hrest hunread

end Tag

/-! ## Pieces -/

/-- A character that is left of some segments is left of one of them. -/
theorem exists_segment_of_stripped {segs : List Segment} {x rest : Text} {c : Char}
    (h : segs.flatMap Segment.strippedText = x ++ c :: rest) :
    ∃ before seg after u v, segs = before ++ seg :: after ∧ seg.strippedText = u ++ c :: v ∧
      rest = v ++ after.flatMap Segment.strippedText := by
  induction segs generalizing x with
  | nil => simp at h
  | cons seg segs ih =>
      rw [List.flatMap_cons] at h
      rcases List.append_eq_append_iff.mp h with ⟨x', rfl, htail⟩ | ⟨v, hseg, hrest⟩
      · obtain ⟨before, seg', after, u, v, rfl, hleft⟩ := ih htail
        exact ⟨seg :: before, seg', after, u, v, rfl, hleft⟩
      · cases v with
        | nil =>
            obtain ⟨before, seg', after, u, v, rfl, hleft⟩ := ih (x := []) hrest.symm
            exact ⟨seg :: before, seg', after, u, v, rfl, hleft⟩
        | cons d v =>
            obtain ⟨rfl, rfl⟩ := List.cons.inj hrest
            exact ⟨[], seg, segs, x, v, rfl, hseg, rfl⟩

/-- A gap is the last segment, or a tag follows. -/
theorem exists_tag_of_gap {start : Nat} {t : Text} {os : List Occurrence}
    {before after : List Segment} {g : Text} {seg : Segment}
    (h : segmentsFrom start t os = before ++ .gap g :: seg :: after) : ∃ o, seg = .tag o := by
  induction os generalizing start t before with
  | nil =>
      rw [segmentsFrom] at h
      have hlen := congrArg List.length h
      simp at hlen
      omega
  | cons o os ih =>
      rw [segmentsFrom] at h
      cases before with
      | nil => exact ⟨o, (List.cons.inj (List.cons.inj h).2).1.symm⟩
      | cons first before =>
          cases before with
          | nil => cases (List.cons.inj (List.cons.inj h).2).1
          | cons second before => exact ih (List.cons.inj (List.cons.inj h).2).2

/-- What a tag leaves that is not escaped and has a marker before it. -/
theorem strippedText_of_openMarker {o : Occurrence} (hesc : o.tag.isEscaped = false)
    (hmarker : o.tag.openMarker = true) : o.strippedText = ['['] := by
  have hclose : o.tag.closeMarker = false := by
    rw [Tag.isEscaped, hmarker, Bool.true_and] at hesc
    exact hesc
  rw [Occurrence.strippedText, hesc, if_neg Bool.false_ne_true, Tag.withMarkers, Tag.openText,
    Tag.closeText, hmarker, hclose]
  rfl

namespace Tag

variable {names : List Text} {t : Text}

/-- In what stripping leaves of the segments, an opening is put together. -/
inductive OpensAnew (names : List Text) : List Segment → Prop where
  /-- The marker before a tag is left, and a name comes after it. -/
  | marker {before after : List Segment} {o : Occurrence} {name y : Text} (hname : name ∈ names)
      (hmarker : o.tag.openMarker = true)
      (hafter : after.flatMap Segment.strippedText = name ++ y) (hends : nameEnds y = true)
      (hclose : ']' ∈ y) : OpensAnew names (before ++ .tag o :: after)
  /-- A gap ends with a bracket and a part of a name, maybe with none of it, and the other part
  comes after it when the tag behind the gap is gone. -/
  | name {before after : List Segment} {o : Occurrence} {u part other y : Text}
      (hname : part ++ other ∈ names) (hother : other ≠ [])
      (hafter : (.tag o :: after).flatMap Segment.strippedText = other ++ y)
      (hends : nameEnds y = true) (hclose : ']' ∈ y) :
      OpensAnew names (before ++ .gap (u ++ '[' :: part) :: .tag o :: after)

/-- An opening that is put together is in what is left. -/
theorem OpensAnew.hasOpening {segs : List Segment} (h : OpensAnew names segs)
    (hesc : ∀ o, .tag o ∈ segs → o.tag.isEscaped = false) :
    Text.HasOpening names (segs.flatMap Segment.strippedText) := by
  cases h with
  | @marker before after o name y hname hmarker hafter hends hclose =>
      refine ⟨name, hname, before.flatMap Segment.strippedText, y, ?_, hends, hclose⟩
      rw [List.flatMap_append, List.flatMap_cons, hafter, Segment.strippedText,
        strippedText_of_openMarker (hesc o (by simp)) hmarker, List.singleton_append]
  | @name before after o u part other y hname _ hafter hends hclose =>
      refine ⟨part ++ other, hname, before.flatMap Segment.strippedText ++ u, y, ?_, hends, hclose⟩
      rw [List.flatMap_append, List.flatMap_cons, hafter, Segment.strippedText]
      simp

/-- An opening in what is left was put together. -/
theorem opensAnew_of_hasOpening (hn : names ≠ [])
    (hesc : ∀ o ∈ tagsIn names t, o.tag.isEscaped = false)
    (h : Text.HasOpening names ((segments t (tagsIn names t)).flatMap Segment.strippedText)) :
    OpensAnew names (segments t (tagsIn names t)) := by
  obtain ⟨name, hname, x, y, hleft, hends, hclose⟩ := h
  obtain ⟨before, seg, after, u, v, hsegs, hseg, hrest⟩ := exists_segment_of_stripped hleft
  cases seg with
  | tag o =>
      have ho : o ∈ tagsIn names t := mem_of_tag_mem_segments (by rw [hsegs]; simp)
      have hmarker : o.tag.openMarker = true := by
        by_contra hopen
        rw [Bool.not_eq_true] at hopen
        refine bracket_notMem_strippedText hopen ?_
        rw [show o.strippedText = u ++ '[' :: v from hseg]
        simp
      have hv : v = [] := by
        rw [Segment.strippedText, strippedText_of_openMarker (hesc o ho) hmarker] at hseg
        cases u with
        | nil => exact (List.cons.inj hseg).2.symm
        | cons c u => simp at hseg
      rw [hv, List.nil_append] at hrest
      rw [hsegs]
      exact .marker hname hmarker hrest.symm hends hclose
  | gap g =>
      obtain rfl : g = u ++ '[' :: v := hseg
      have hdiv : divide names 0 t = before ++ .gap (u ++ '[' :: v) :: after := by
        rw [← hsegs, tagsIn, if_neg hn, segments_scan hn]
      rcases List.append_eq_append_iff.mp hrest with ⟨v', rfl, rfl⟩ | ⟨other, rfl, hafter⟩
      · exact (not_opening_in_gap hn hdiv hname hends hclose).elim
      · cases other with
        | nil =>
            rw [List.nil_append] at hafter
            rw [List.append_nil] at hname
            rw [← List.append_nil v] at hdiv
            refine (not_opening_in_gap hn hdiv hname ?_ ?_).elim
            · rwa [List.nil_append, hafter]
            · rwa [List.nil_append, hafter]
        | cons c other =>
            cases after with
            | nil => cases hafter
            | cons seg after =>
                obtain ⟨o, rfl⟩ := exists_tag_of_gap hsegs
                rw [hsegs]
                exact .name hname (List.cons_ne_nil c other) hafter hends hclose

/-- If no tag is escaped, then stripping again changes nothing exactly if no opening is put
together. -/
theorem leftover_leftover_iff (hesc : ∀ o ∈ tagsIn names t, o.tag.isEscaped = false) :
    leftover names (leftover names t) = leftover names t ↔
      ¬ OpensAnew names (segments t (tagsIn names t)) := by
  rw [leftover_eq_self_iff_tagsIn, ← not_iff_not, not_not, ← ne_eq, ← hasOpening_iff,
    leftover_eq_stripped, stripped]
  constructor
  · intro h
    obtain ⟨name, hname, hopening⟩ := h
    exact opensAnew_of_hasOpening (List.ne_nil_of_mem hname) hesc ⟨name, hname, hopening⟩
  · intro h
    exact h.hasOpening fun o ho => hesc o (mem_of_tag_mem_segments ho)

end Tag

/-- The text ends with a bracket and a part of a name, maybe with none of it. -/
def Text.EndsInOpening (names : List Text) (t : Text) : Prop :=
  ∃ name ∈ names, ∃ n < name.length, '[' :: name.take n <:+ t

instance (names : List Text) (t : Text) : Decidable (t.EndsInOpening names) :=
  inferInstanceAs (Decidable (∃ name ∈ names, ∃ n < name.length, '[' :: name.take n <:+ t))

/-- No opening is put together without markers before tags and beginnings of names before them. -/
theorem Tag.not_opensAnew {names : List Text} {segs : List Segment}
    (hmarker : ∀ o, .tag o ∈ segs → o.tag.openMarker = false)
    (hgap : ∀ g o, [.gap g, .tag o] <:+: segs → ¬ g.EndsInOpening names) :
    ¬ OpensAnew names segs := by
  intro h
  cases h with
  | @marker before after o name y _ hopen =>
      have hnone := hmarker o (by simp)
      rw [hopen] at hnone
      cases hnone
  | @name before after o u part other y hname hother =>
      refine hgap (u ++ '[' :: part) o ⟨before, after, by simp⟩
        ⟨part ++ other, hname, part.length, ?_, ?_⟩
      · have hpos := List.length_pos_of_ne_nil hother
        rw [List.length_append]
        omega
      · rw [List.take_left]
        exact List.suffix_append u ('[' :: part)

/-- Stripping twice strips what stripping left, by the same names. -/
theorem strip_strip_apply (e : Expander η) (t : Text) (w : World η σ) :
    ((e.strip t >>= e.strip) w).outcome =
      .ok (Tag.leftover (e.source.names w.registry)
        (Tag.leftover (e.source.names w.registry) t)) := by
  obtain ⟨w₁, events, hfirst, hreg⟩ := strip_apply e t w
  obtain ⟨w₂, more, hsecond, -⟩ :=
    strip_apply e (Tag.leftover (e.source.names w.registry) t) w₁
  rw [Run.bind_ok hfirst, hsecond, Result.after_mk, hreg]

/-- Stripping what stripping left changes nothing exactly if no opening is put together from pieces
of the text, where no tag of it is escaped.  In particular it changes nothing if no tag has a marker
before it and no gap before a tag ends with a bracket and a part of a name. -/
theorem strip_strip_iff {e : Expander η} {t : Text} {w : World η σ} {os : List Occurrence}
    (hscan : (e.scan t w).outcome = .ok os) (hesc : ∀ o ∈ os, o.tag.isEscaped = false) :
    ∃ u, (e.strip t w).outcome = .ok u ∧
      (((e.strip t >>= e.strip) w).outcome = .ok u ↔
        ¬ Tag.OpensAnew (e.source.names w.registry) (segments t os)) ∧
      ((∀ o ∈ os, o.tag.openMarker = false) →
        (∀ g o, [.gap g, .tag o] <:+: segments t os →
          ¬ g.EndsInOpening (e.source.names w.registry)) →
        ((e.strip t >>= e.strip) w).outcome = .ok u) := by
  rw [scan_outcome] at hscan
  obtain rfl := Except.ok.inj hscan
  obtain ⟨w', events, happly, -⟩ := strip_apply e t w
  have htwice : ((e.strip t >>= e.strip) w).outcome =
      .ok (Tag.leftover (e.source.names w.registry) t) ↔
        ¬ Tag.OpensAnew (e.source.names w.registry)
          (segments t (Tag.tagsIn (e.source.names w.registry) t)) := by
    rw [strip_strip_apply, ← Tag.leftover_leftover_iff hesc, Except.ok.injEq]
  refine ⟨_, by rw [happly], htwice, fun hmarker hgap => htwice.mpr ?_⟩
  exact Tag.not_opensAnew (fun o ho => hmarker o (mem_of_tag_mem_segments ho)) hgap

/-- A world in which the name of two letters has a handler. -/
def twoLetters : World Unit Unit where
  registry := oneName.registry.clear.accept ['b', 'b'] (by decide) ()
  memory := ()

/-- A tag between the two letters of its name. -/
def partedName : Text := "[b[bb]b]".toList

def partingTag : Occurrence := ⟨⟨['b', 'b'], [], .opening, false, false⟩, 2, "[bb]".toList⟩

/-- Two tags, with a bracket and one of the two letters in the gaps around them. -/
def partsInGaps : Text := "[bc[bb k]y[bb/]] [b.".toList

def tagsBetweenGaps : List Occurrence :=
  [⟨⟨['b', 'b'], " k".toList, .opening, false, false⟩, 3, "[bb k]".toList⟩,
    ⟨⟨['b', 'b'], [], .selfClosing, false, true⟩, 10, "[bb/]]".toList⟩]

theorem opensAnew_partedName : Tag.OpensAnew [['b', 'b']] (segments partedName [partingTag]) := by
  have hsegs : segments partedName [partingTag] =
      [] ++ .gap ([] ++ '[' :: ['b']) :: .tag partingTag :: [.gap "b]".toList] := by decide
  have hafter : [.tag partingTag, .gap "b]".toList].flatMap Segment.strippedText =
      ['b'] ++ [']'] := by decide
  rw [hsegs]
  exact .name (by decide) (by decide) hafter (by decide) (by decide)

theorem not_endsInOpening_partsInGaps {g : Text} {o : Occurrence}
    (h : [.gap g, .tag o] <:+: segments partsInGaps tagsBetweenGaps) :
    ¬ g.EndsInOpening [['b', 'b']] := by
  have hgaps : ∀ seg ∈ segments partsInGaps tagsBetweenGaps,
      seg = .gap "[bc".toList ∨ seg = .gap ['y'] ∨ seg = .gap " [b.".toList ∨
        seg.tag?.isSome := by decide
  rcases hgaps _ (h.subset List.mem_cons_self) with heq | heq | heq | htag
  · rw [Segment.gap.inj heq]
    decide
  · rw [Segment.gap.inj heq]
    decide
  · rw [Segment.gap.inj heq]
    decide
  · cases htag

/-- The parted name comes together, so that the text is stripped further.  The parts inside the gaps
stay apart from what the tags leave. -/
theorem strip_strip_iff_parts :
    ((Expander.scan ⟨.live, none⟩ partedName twoLetters).outcome = .ok [partingTag] ∧
      Tag.OpensAnew [['b', 'b']] (segments partedName [partingTag]) ∧
      ((Expander.strip ⟨.live, none⟩ partedName >>= Expander.strip ⟨.live, none⟩)
        twoLetters).outcome ≠ (Expander.strip ⟨.live, none⟩ partedName twoLetters).outcome) ∧
    (Expander.scan ⟨.live, none⟩ partsInGaps twoLetters).outcome = .ok tagsBetweenGaps ∧
      ((Expander.strip ⟨.live, none⟩ partsInGaps >>= Expander.strip ⟨.live, none⟩)
        twoLetters).outcome = .ok "[bcy] [b.".toList := by
  have hparted : (Expander.scan ⟨.live, none⟩ partedName twoLetters).outcome =
      .ok [partingTag] := by
    rw [scan_outcome]
    exact congrArg Except.ok (by decide +kernel)
  have hgaps : (Expander.scan ⟨.live, none⟩ partsInGaps twoLetters).outcome =
      .ok tagsBetweenGaps := by
    rw [scan_outcome]
    exact congrArg Except.ok (by decide +kernel)
  have hleft : (Expander.strip ⟨.live, none⟩ partsInGaps twoLetters).outcome =
      .ok "[bcy] [b.".toList := by
    obtain ⟨w', events, happly, -⟩ := strip_apply ⟨.live, none⟩ partsInGaps twoLetters
    rw [happly]
    exact congrArg Except.ok (by decide +kernel)
  obtain ⟨u, hu, hiff, -⟩ := strip_strip_iff hparted (by decide)
  obtain ⟨v, hv, -, htwice⟩ := strip_strip_iff hgaps (by decide)
  refine ⟨⟨hparted, opensAnew_partedName, fun heq => ?_⟩, hgaps, ?_⟩
  · exact hiff.mp (heq.trans hu) opensAnew_partedName
  · rw [htwice (by decide) fun g o => not_endsInOpening_partsInGaps, ← hv, hleft]

/-- A text without an escaped tag that is stripped further the second time.  The marker that stays
and the text after the tag are a tag together. -/
theorem strip_strip_ne :
    (∀ o ∈ Tag.scan [['b']] "[[b]b]".toList, o.tag.isEscaped = false) ∧
    (Expander.strip ⟨.live, none⟩ "[[b]b]".toList oneName).outcome = .ok "[b]".toList ∧
    ((Expander.strip ⟨.live, none⟩ "[[b]b]".toList >>= Expander.strip ⟨.live, none⟩)
      oneName).outcome = .ok [] := by
  have hleft : Tag.leftover [['b']] "[[b]b]".toList = "[b]".toList := by decide +kernel
  have hagain : Tag.leftover [['b']] "[b]".toList = [] := by decide +kernel
  refine ⟨by decide +kernel, ?_, ?_⟩
  · obtain ⟨w₁, events, happly, -⟩ := strip_apply ⟨.live, none⟩ "[[b]b]".toList oneName
    rw [happly]
    exact congrArg Except.ok hleft
  · rw [strip_strip_apply]
    exact congrArg Except.ok ((congrArg _ hleft).trans hagain)

end BracketTags
