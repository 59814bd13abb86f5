import BracketTags.Proofs.ClosingTags
import BracketTags.Proofs.Stripping

/-!
# Rendering

A scan reads what `Tag.render` writes.

*What is read.*  The text of each tag in a scan is the tag as it is written, and
the tag is well-formed (`Tag.WellFormed`).  This holds for any names.

*What is written.*  A well-formed tag whose name is ordinary is read as it is
written, with or without markers (`Tag.read?_render`).  Three things could go
wrong.  Another candidate could be read in its place, but an ordinary name has
no bracket, so the brackets before it are counted.  A slash could close the
tag, but the attribute text of a tag that does not close itself does not end
with one.  And a closing tag could begin in the content and end behind it, but
then the name would have a bracket in it (`cut?_closingTag`).

Both together say that scanning and rendering are inverse (`scan_render`).
-/

namespace BracketTags

variable {η σ : Type}

/-! ## The tags of a text -/

/-- The tags of some names in a text.  No names have no tags. -/
def Tag.tagsIn (names : List Text) (t : Text) : List Occurrence :=
  if names = [] then [] else scan names t

/-- What an expander finds in a text is settled by its names. -/
theorem scan_outcome (e : Expander η) (t : Text) (w : World η σ) :
    (e.scan t w).outcome = .ok (Tag.tagsIn (e.source.names w.registry) t) := by
  by_cases hnames : e.source.names w.registry = []
  · rw [Expander.scan, Run.bind_ok (scan?_of_nameless hnames), Tag.tagsIn, if_pos hnames]
    rfl
  · obtain ⟨strict, w₀, events, hb⟩ := exists_begins t hnames
    rw [Expander.scan, Run.bind_ok hb.scan?, Tag.tagsIn, if_neg hnames]
    rfl

namespace Tag

variable {names : List Text} {t : Text}

/-- The tags among the segments of a text are those that it was divided at. -/
theorem filterMap_segmentsFrom (start : Nat) (t : Text) (os : List Occurrence) :
    (segmentsFrom start t os).filterMap Segment.tag? = os := by
  induction os generalizing start t with
  | nil => rfl
  | cons o os ih => exact congrArg (o :: ·) (ih _ _)

theorem tagsIn_eq_divide (hn : names ≠ []) (t : Text) :
    tagsIn names t = (divide names 0 t).filterMap Segment.tag? := by
  rw [tagsIn, if_neg hn, ← segments_scan hn, segments, filterMap_segmentsFrom]

/-- Each tag of a text was read somewhere in it. -/
theorem exists_read?_of_mem_tagsIn {o : Occurrence} (h : o ∈ tagsIn names t) :
    o.text = t.slice o.start o.stop ∧ o.text = o.tag.render ∧
      ∃ u, read? names .full u = some o.tag := by
  by_cases hn : names = []
  · rw [tagsIn, if_pos hn] at h
    cases h
  · rw [tagsIn, if_neg hn] at h
    have hplace := (placed_scan hn t).text_of_mem h
    have hmem : .tag o ∈ divide names 0 t := by
      rw [← segments_scan hn, segments]
      have htags := filterMap_segmentsFrom 0 t (scan names t)
      rw [← htags] at h
      obtain ⟨seg, hseg, htag⟩ := List.mem_filterMap.mp h
      cases seg with
      | gap u => cases htag
      | tag o' =>
          cases htag
          exact hseg
    obtain ⟨htext, u, -, hread⟩ := read?_of_mem_divide hn hmem
    exact ⟨hplace, htext, u, hread⟩

/-! ## What is read -/

/-- What holds of every tag that is read.  A tag that closes itself has no content in any case. -/
structure WellFormed (g : Tag) : Prop where
  closingBracket_notMem : ']' ∉ g.attributes
  /-- A slash at the end would close the tag. -/
  slash : g.isSelfClosing = false → g.attributes.getLast? ≠ some '/'
  /-- The content goes on to the nearest closing tag. -/
  content : ∀ content, g.content? = some content → ¬ closingTag g.name <:+: content

end Tag

/-- A part does not occur before the place where a text is cut at it. -/
theorem not_infix_of_cut? {part t u v : Text} (hpart : part ≠ [])
    (h : Text.cut? part t = some (u, v)) : ¬ part <:+: u := by
  rintro ⟨x, y, rfl⟩
  obtain ⟨rfl, hfirst⟩ := Text.cut?_eq_some_iff.mp h
  refine hfirst x.length ?_ ?_
  · have hlen := List.length_pos_of_ne_nil hpart
    simp only [List.length_append]
    omega
  · simp

theorem mem_of_mem_attributesIn {inner : Text} {c : Char} (h : c ∈ attributesIn inner) :
    c ∈ inner := by
  rw [attributesIn] at h
  split at h
  · exact List.mem_of_mem_dropLast h
  · exact h

theorem Candidate.wellFormed_tag {form : Form} (c : Candidate) {inner after : Text}
    (hinner : ']' ∉ inner) : (c.tag form inner after).WellFormed := by
  refine ⟨fun hmem => hinner (mem_of_mem_attributesIn hmem), fun hself => ?_,
    fun content hcontent => ?_⟩
  · have hslash : inner.getLast? ≠ some '/' := by
      intro hslash
      simp [Tag.isSelfClosing, tag, bodyAfter_of_slash hslash] at hself
    rw [tag, attributesIn_of_ne hslash]
    exact hslash
  · rw [Tag.content?, tag, bodyAfter] at hcontent
    split at hcontent
    · cases hcontent
    · cases hw : wrapped? form c.name after with
      | none =>
          rw [hw] at hcontent
          cases hcontent
      | some p =>
          rw [hw] at hcontent
          obtain rfl := Option.some.inj hcontent
          exact not_infix_of_cut? (by simp [closingTag]) (cut?_of_wrapped? hw)

theorem Tag.wellFormed_of_read? {names : List Text} {form : Form} {t : Text} {g : Tag}
    (h : read? names form t = some g) : g.WellFormed := by
  obtain ⟨c, -, hg⟩ := List.exists_of_findSome?_eq_some h
  obtain ⟨rest, -, hrest⟩ := Candidate.read?_eq_some_iff.mp hg
  obtain ⟨-, inner, after, hcut, rfl⟩ := Candidate.readRest?_eq_some_iff.mp hrest
  exact c.wellFormed_tag (Text.notMem_of_cut?_singleton hcut)

/-! ## What is written -/

/-- No closing tag begins in a content and ends behind it, since its name has no bracket. -/
theorem cut?_closingTag {n content : Text} (hn : '[' ∉ n) (h : ¬ closingTag n <:+: content)
    (rest : Text) :
    Text.cut? (closingTag n) (content ++ (closingTag n ++ rest)) = some (content, rest) := by
  refine Text.cut?_eq_some_iff.mpr ⟨rfl, fun k hk hpre => ?_⟩
  rw [List.drop_append_of_le_length (Nat.le_of_lt hk)] at hpre
  rcases List.prefix_or_prefix_of_prefix hpre (List.prefix_append _ _) with hin | ⟨s, hs⟩
  · exact h (hin.isInfix.trans (List.drop_suffix k content).isInfix)
  · rw [← hs, List.prefix_append_right_inj, hs] at hpre
    obtain ⟨d, ds, hd⟩ := List.exists_cons_of_length_pos (List.length_drop ▸ Nat.sub_pos_of_lt hk)
    cases s with
    | nil =>
        rw [List.append_nil] at hs
        exact h (hs ▸ (List.drop_suffix k content).isInfix)
    | cons c s =>
        obtain ⟨x, hx⟩ := hpre
        have hc : c = '[' := List.head_eq_of_cons_eq hx
        rw [hd, closingTag, List.cons_append] at hs
        have hmem : '[' ∈ '/' :: (n ++ [']']) := by
          have htail := List.tail_eq_of_cons_eq hs
          rw [hc] at htail
          change ds ++ '[' :: s = '/' :: (n ++ [']']) at htail
          rw [← htail]
          simp
        simp [hn] at hmem

namespace Tag

variable {names : List Text}

/-- What a tag has from its name to the closing bracket. -/
def inner (g : Tag) : Text := if g.isSelfClosing then g.attributes ++ ['/'] else g.attributes

/-- What a tag has after the closing bracket. -/
def remainder (g : Tag) : Text :=
  match g.body with
  | .wrapping content => content ++ (closingTag g.name ++ g.closeText)
  | _ => g.closeText

theorem render_eq_opening (g : Tag) :
    g.render =
      (Candidate.mk g.openMarker g.name).opening ++ (g.inner ++ ([']'] ++ g.remainder)) := by
  rw [render_eq, Candidate.opening, inner, isSelfClosing, remainder, openText, openingMarker]
  cases g.body with
  | opening => simp [Body.render]
  | selfClosing => simp [Body.render]
  | wrapping content => simp [Body.render]

/-- A marker alone is no closing tag. -/
theorem wrapped?_closeText (g : Tag) (form : Form) (name : Text) :
    wrapped? form name g.closeText = none := by
  refine wrapped?_of_bracket_notMem ?_ form name
  rw [closeText]
  cases g.closeMarker with
  | true => decide
  | false => decide

theorem head?_closeText (g : Tag) : (g.closeText.head? == some ']') = g.closeMarker := by
  rw [closeText]
  cases g.closeMarker with
  | true => rfl
  | false => rfl

/-- A well-formed tag is the tag that its parts are read as. -/
theorem WellFormed.tag_eq {g : Tag} (h : g.WellFormed) (hbracket : '[' ∉ g.name) :
    Candidate.tag .full ⟨g.openMarker, g.name⟩ g.inner g.remainder = g := by
  have hmarker := g.head?_closeText
  have hwrapped := g.wrapped?_closeText .full g.name
  obtain ⟨name, attributes, body, openMarker, closeMarker⟩ := g
  cases body with
  | selfClosing =>
      have hslash : (attributes ++ ['/']).getLast? = some '/' := List.getLast?_concat
      simp only [Candidate.tag, inner, remainder, isSelfClosing, decide_true, if_true,
        bodyAfter_of_slash hslash, attributesIn, if_pos hslash, List.dropLast_concat, hmarker]
  | opening =>
      have hslash := h.slash rfl
      simp only [Candidate.tag, inner, remainder, isSelfClosing, reduceCtorEq, decide_false,
        Bool.false_eq_true, if_false, bodyAfter_of_not_wrapped hslash hwrapped,
        attributesIn_of_ne hslash, hmarker]
  | wrapping content =>
      have hslash := h.slash rfl
      have hwraps (rest : Text) :
          wrapped? .full name (content ++ (closingTag name ++ rest)) = some (content, rest) :=
        cut?_closingTag hbracket (h.content content rfl) rest
      simp only [Candidate.tag, inner, remainder, isSelfClosing, reduceCtorEq, decide_false,
        Bool.false_eq_true, if_false, attributesIn_of_ne hslash,
        bodyAfter_of_wrapped hslash (hwraps _), hmarker]

/-- A well-formed tag whose name is ordinary is read as it is written. -/
theorem read?_render {g : Tag} (hnames : ∀ name ∈ names, OrdinaryName name)
    (hname : g.name ∈ names) (hends : nameEnds g.attributes = true) (h : g.WellFormed) :
    read? names .full g.render = some g := by
  have hinner : ']' ∉ g.inner := by
    rw [inner]
    split
    · exact List.not_mem_append h.closingBracket_notMem (by decide)
    · exact h.closingBracket_notMem
  have hinnerEnds : nameEnds g.inner = true := by
    rw [inner]
    split
    · exact nameEnds_append hends rfl
    · exact hends
  rw [render_eq_opening,
    read?_opening_of_ordinary hnames .full ⟨g.openMarker, g.name⟩ hname hinnerEnds hinner,
    h.tag_eq (hnames _ hname).bracket_notMem]

theorem tagsIn_render {g : Tag} (hnames : ∀ name ∈ names, OrdinaryName name)
    (hname : g.name ∈ names) (hends : nameEnds g.attributes = true) (h : g.WellFormed) :
    tagsIn names g.render = [⟨g, 0, g.render⟩] := by
  have hn : names ≠ [] := List.ne_nil_of_mem hname
  rw [tagsIn_eq_divide hn, divide_of_read? hn (read?_render hnames hname hends h),
    List.drop_length, divide_nil]
  rfl

end Tag

/-! ## Both directions -/

/-- Scanning and rendering are inverse.  What an expander finds depends on the names and the text.
Each tag that it finds stands where it is said to stand, is written as it is found there, and is
well-formed.  In the other direction, the text of a well-formed tag with an ordinary name is that
tag and nothing else. -/
theorem scan_render (names : List Text) :
    (∀ (e : Expander η) (t : Text) (w : World η σ), e.source.names w.registry = names →
      (e.scan t w).outcome = .ok (Tag.tagsIn names t)) ∧
    (∀ t, ∀ o ∈ Tag.tagsIn names t, o.text = t.slice o.start o.stop ∧ o.text = o.tag.render ∧
      o.tag.name ∈ names ∧ o.tag.WellFormed) ∧
    ((∀ name ∈ names, OrdinaryName name) → ∀ g : Tag, g.name ∈ names →
      nameEnds g.attributes = true → g.WellFormed →
      Tag.tagsIn names g.render = [⟨g, 0, g.render⟩]) := by
  refine ⟨?_, fun t o ho => ?_, fun hnames g hname hends h =>
    Tag.tagsIn_render hnames hname hends h⟩
  · rintro e t w rfl
    exact scan_outcome e t w
  · obtain ⟨hplace, htext, u, hread⟩ := Tag.exists_read?_of_mem_tagsIn ho
    exact ⟨hplace, htext, Tag.name_mem_of_read? hread, Tag.wellFormed_of_read? hread⟩

/-- A tag with both markers, brackets and slashes in its attribute text, and a content with other
tags that ends with the beginning of a closing tag. -/
def intricateTag : Tag where
  name := ['b']
  attributes := " [/b k=/x".toList
  body := .wrapping "[b k/] [/c] [/".toList
  openMarker := true
  closeMarker := true

theorem ordinaryName_of_mem_oneName : ∀ name ∈ [['b']], OrdinaryName name := by
  intro name hmem
  rw [List.mem_singleton.mp hmem]
  exact ⟨by decide, List.all_eq_true.mp (by decide)⟩

theorem scan_render_intricate :
    intricateTag.render = "[[b [/b k=/x][b k/] [/c] [/[/b]]".toList ∧
    (Expander.scan ⟨.live, none⟩ intricateTag.render oneName).outcome =
      .ok [⟨intricateTag, 0, intricateTag.render⟩] ∧
    ∀ o ∈ Tag.tagsIn [['b']] intricateTag.render, o.text = o.tag.render ∧ o.tag.WellFormed := by
  obtain ⟨hscan, hread, hrender⟩ := @scan_render Unit Unit [['b']]
  have hcontent : Text.occursIn (closingTag ['b']) "[b k/] [/c] [/".toList = false := by decide
  have hformed : intricateTag.WellFormed := by
    refine ⟨by decide, fun _ => by decide, ?_⟩
    rintro content ⟨⟩ hin
    exact absurd (Text.occursIn_iff.mpr hin) (by rw [Bool.not_eq_true]; exact hcontent)
  refine ⟨by decide, ?_, fun o ho => ?_⟩
  · rw [hscan _ _ oneName rfl, hrender ordinaryName_of_mem_oneName intricateTag (by decide)
      (by decide) hformed]
  · obtain ⟨-, htext, -, hwell⟩ := hread _ o ho
    exact ⟨htext, hwell⟩

end BracketTags
