import BracketTags.Proofs.Layers

/-!
# Texts without tags

A text is free of tags if no tag can be read at any offset (`Tag.tagsIn_eq_nil_iff`).

*Again and again.*  Stripping takes at least two characters away for each tag
that it finds (`Tag.length_leftover_add_le`).  It may put new tags together from
the pieces, but it can go on like that only as long as there are characters.  So
after half as many passes as the text has characters no tag is left
(`strip_reaches_tagFree`).

*At once.*  A bracket before a slash opens no tag, if no name begins with a slash.
If all brackets outside of the tags are such brackets, and no tag has a marker
before it, then the brackets that stripping leaves are such brackets too, since
what follows a bracket in a gap is in the same gap (`onlyCloses_stripped`).  So
one pass is enough (`strip_wellBracketed`).
-/

namespace BracketTags

variable {η σ : Type}

namespace Tag

variable {names : List Text} {t : Text}

/-- A text has no tags exactly if none can be read at any offset. -/
theorem tagsIn_eq_nil_iff : tagsIn names t = [] ↔ ∀ i, read? names .full (t.drop i) = none := by
  rw [tagsIn_eq_iff]
  constructor
  · intro h i
    cases h with
    | done hunread => exact hunread i (Nat.zero_le i)
  · intro hunread
    exact .done fun i _ => hunread i

/-- A text without tags has no tags of fewer names. -/
theorem tagsIn_eq_nil_of_subset {names' : List Text} (hsub : names' ⊆ names)
    (h : tagsIn names t = []) : tagsIn names' t = [] := by
  rw [tagsIn_eq_nil_iff] at h ⊢
  intro i
  refine List.findSome?_eq_none_iff.mpr fun c hc => ?_
  have hname : c.name ∈ names := hsub (Candidate.name_mem_of_mem_all hc)
  exact List.findSome?_eq_none_iff.mp (h i) c (Candidate.mem_all hname c.marked)

/-! ## Stripping again and again -/

/-- Stripping takes at least two characters away for each tag. -/
theorem length_leftover_add_le (names : List Text) (t : Text) :
    (leftover names t).length + 2 * (tagsIn names t).length ≤ t.length := by
  have htext : ∀ o, .tag o ∈ segments t (tagsIn names t) → o.text = o.tag.render := by
    intro o ho
    exact (exists_read?_of_mem_tagsIn (mem_of_tag_mem_segments ho)).2.1
  have hlen := length_stripped_add_le htext
  have htags : (segments t (tagsIn names t)).filterMap Segment.tag? = tagsIn names t :=
    filterMap_segmentsFrom 0 t _
  have hlossless : (segments t (tagsIn names t)).flatMap Segment.text = t :=
    (placed_tagsIn names t).text_segmentsFrom
  rwa [htags, hlossless, ← stripped, ← leftover_eq_stripped] at hlen

/-- Stripping leaves a text as it is exactly if it has no tags. -/
theorem leftover_eq_self_iff_tagsIn : leftover names t = t ↔ tagsIn names t = [] := by
  constructor
  · intro h
    have hlen := length_leftover_add_le names t
    rw [h] at hlen
    exact List.eq_nil_of_length_eq_zero (by omega)
  · intro h
    rw [leftover_eq_stripped, h]
    simp [stripped, segments, segmentsFrom, Segment.strippedText]

/-- Each time the text is stripped, it has no tags any more or it gets shorter by two characters. -/
theorem tagsIn_iterate_or (names : List Text) (t : Text) (n : Nat) :
    tagsIn names ((leftover names)^[n] t) = [] ∨
      ((leftover names)^[n] t).length + 2 * n ≤ t.length := by
  induction n with
  | zero => exact .inr (Nat.le_refl _)
  | succ n ih =>
      rw [Function.iterate_succ_apply']
      by_cases hfree : tagsIn names ((leftover names)^[n] t) = []
      · left
        rw [leftover_eq_self_iff_tagsIn.mpr hfree, hfree]
      · right
        have hbefore := ih.resolve_left hfree
        have hlen := length_leftover_add_le names ((leftover names)^[n] t)
        have hpos := List.length_pos_of_ne_nil hfree
        omega

/-- After half as many times as the text has characters no tag is left.  At most one character is
left then, and a tag takes two. -/
theorem tagsIn_iterate {n : Nat} (h : t.length / 2 ≤ n) :
    tagsIn names ((leftover names)^[n] t) = [] := by
  rcases tagsIn_iterate_or names t n with hfree | hlen
  · exact hfree
  · have hstep := length_leftover_add_le names ((leftover names)^[n] t)
    exact List.eq_nil_of_length_eq_zero (by omega)

/-- From then on the text stays as it is. -/
theorem iterate_leftover_eq {n : Nat} (h : t.length / 2 ≤ n) :
    (leftover names)^[n] t = (leftover names)^[t.length / 2] t := by
  have hfixed : leftover names ((leftover names)^[t.length / 2] t) =
      (leftover names)^[t.length / 2] t :=
    leftover_eq_self_iff_tagsIn.mpr (tagsIn_iterate (Nat.le_refl _))
  obtain ⟨m, rfl⟩ := Nat.exists_eq_add_of_le' h
  rw [Function.iterate_add_apply, Function.iterate_fixed hfixed]

end Tag

/-- Stripping in turn leaves what is left after as many times. -/
theorem onlyBuilds_strips (e : Expander η) (n : Nat) (t : Text) (w : World η σ) :
    (Run.inTurn (List.replicate n e.strip) t).OnlyBuilds w
      ((Tag.leftover (e.source.names w.registry))^[n] t) := by
  induction n generalizing t w with
  | zero => exact .pure t w
  | succ n ih =>
      rw [Run.inTurn, List.replicate_succ, List.foldlM_cons, Function.iterate_succ_apply]
      exact (onlyBuilds_strip e t w).bind fun cache => ih _ _

/-- Stripping again and again reaches a text without tags.  A pass takes at least two characters
away for each tag that the scan has, and it leaves the text as it is exactly if the scan has none.
So one text is what half as many passes as the text has characters leave, and any number of passes
from there on.  It stays as it is when it is stripped, whatever expressions are kept by then, and it
has no tag of the names of the expander, and none of any single one of them. -/
theorem strip_reaches_tagFree (e : Expander η) (t : Text) (w : World η σ) :
    (∃ os u, (e.scan t w).outcome = .ok os ∧ (e.strip t w).outcome = .ok u ∧
      u.length + 2 * os.length ≤ t.length ∧ (u = t ↔ os = [])) ∧
    ∃ u, (∀ n, t.length / 2 ≤ n → (Run.inTurn (List.replicate n e.strip) t).OnlyBuilds w u) ∧
      (∀ cache, (e.strip u { w with expressions := cache }).outcome = .ok u ∧
        (e.scan u { w with expressions := cache }).outcome = .ok []) ∧
      ∀ name ∈ e.source.names w.registry, Tag.tagsIn [name] u = [] := by
  have hstrip (u : Text) (w : World η σ) :
      (e.strip u w).outcome = .ok (Tag.leftover (e.source.names w.registry) u) := by
    obtain ⟨w', events, happly, -⟩ := strip_apply e u w
    rw [happly]
  refine ⟨⟨_, _, scan_outcome e t w, hstrip t w, Tag.length_leftover_add_le _ t,
    Tag.leftover_eq_self_iff_tagsIn⟩, ?_⟩
  have hfree : Tag.tagsIn (e.source.names w.registry)
      ((Tag.leftover (e.source.names w.registry))^[t.length / 2] t) = [] :=
    Tag.tagsIn_iterate (Nat.le_refl _)
  refine ⟨(Tag.leftover (e.source.names w.registry))^[t.length / 2] t, fun n hn => ?_,
    fun cache => ⟨?_, ?_⟩, fun name hname => ?_⟩
  · rw [← Tag.iterate_leftover_eq hn]
    exact onlyBuilds_strips e n t w
  · rw [hstrip]
    exact congrArg Except.ok (Tag.leftover_eq_self_iff_tagsIn.mpr hfree)
  · rw [scan_outcome]
    exact congrArg Except.ok hfree
  · exact Tag.tagsIn_eq_nil_of_subset (List.cons_subset.mpr ⟨hname, List.nil_subset _⟩) hfree

/-- Tags inside tags, which are put together again each time the text is stripped. -/
def nestedPieces : Text := "[[b][[b]b]b]".toList

/-- Three passes take all of the text away, and six are enough for any text that is as long. -/
theorem strip_reaches_tagFree_thrice :
    nestedPieces.length / 2 ≤ 6 ∧
      Tag.leftover [['b']] nestedPieces = "[[b]b]".toList ∧
      (Tag.leftover [['b']])^[3] nestedPieces = [] ∧
      ∃ u, (Run.inTurn (List.replicate 6 (Expander.strip ⟨.live, none⟩)) nestedPieces).OnlyBuilds
          oneName u ∧
        (Expander.scan ⟨.live, none⟩ u oneName).outcome = .ok [] := by
  have hsix : nestedPieces.length / 2 ≤ 6 := by decide
  obtain ⟨-, u, hpasses, hfixed, -⟩ :=
    strip_reaches_tagFree (Expander.mk (Source.live (η := Unit)) none) nestedPieces oneName
  exact ⟨hsix, by decide +kernel, by decide +kernel, u, hpasses 6 hsix,
    (hfixed oneName.expressions).2⟩

/-! ## Brackets before slashes -/

/-- A slash follows each opening bracket of the text. -/
def Text.OnlyCloses (t : Text) : Prop := ∀ i, t[i]? = some '[' → t[i + 1]? = some '/'

namespace Text

variable {t u : Text}

theorem onlyCloses_of_notMem (h : '[' ∉ t) : OnlyCloses t := by
  intro i hi
  exact absurd (List.mem_of_getElem? hi) h

/-- No text that ends with a bracket has a slash after each bracket, so texts can be joined. -/
theorem OnlyCloses.append (ht : OnlyCloses t) (hu : OnlyCloses u) : OnlyCloses (t ++ u) := by
  intro i hi
  rcases Nat.lt_or_ge i t.length with hlt | hge
  · rw [List.getElem?_append_left hlt] at hi
    have hslash := ht i hi
    obtain ⟨hlt', -⟩ := List.getElem?_eq_some_iff.mp hslash
    rw [List.getElem?_append_left hlt', hslash]
  · rw [List.getElem?_append_right hge] at hi
    rw [List.getElem?_append_right (by omega), Nat.sub_add_comm hge]
    exact hu _ hi

end Text

/-- A tag without a marker before it leaves no opening bracket. -/
theorem bracket_notMem_strippedText {o : Occurrence} (h : o.tag.openMarker = false) :
    '[' ∉ o.strippedText := by
  have hesc : o.tag.isEscaped = false := by rw [Tag.isEscaped, h, Bool.false_and]
  rw [Occurrence.strippedText, if_neg (by simp [hesc]), Tag.withMarkers, Tag.openText, h,
    Tag.closeText]
  cases o.tag.closeMarker with
  | true => decide
  | false => decide

/-- If the brackets outside of the tags are followed by slashes, then those that stripping leaves
are. -/
theorem onlyCloses_stripped {t : Text} {pos : Nat} {os : List Occurrence} (hp : Placed t pos os)
    (hopen : ∀ o ∈ os, o.tag.openMarker = false) (hstart : ∀ o ∈ os, t[o.start]? = some '[')
    (hbracket : ∀ i, pos ≤ i → t[i]? = some '[' →
      (∀ o ∈ os, ¬ (o.start ≤ i ∧ i < o.stop)) → t[i + 1]? = some '/') :
    Text.OnlyCloses ((segmentsFrom pos (t.drop pos) os).flatMap Segment.strippedText) := by
  induction hp with
  | @nil pos hpos =>
      have hgap : Text.OnlyCloses (t.drop pos) := by
        intro k hk
        rw [List.getElem?_drop] at hk ⊢
        exact hbracket _ (Nat.le_add_right _ k) hk nofun
      simpa [segmentsFrom, Segment.strippedText] using hgap
  | @cons pos o os hpos hlt htext hrest ih =>
      have hgap : Text.OnlyCloses (t.slice pos o.start) := by
        intro k hk
        rw [Text.slice, List.getElem?_take, List.getElem?_drop] at hk ⊢
        split at hk
        · next hk' =>
            have hslash := hbracket (pos + k) (Nat.le_add_right pos k) hk fun o' ho' hin => by
              rcases List.mem_cons.mp ho' with rfl | ho'
              · omega
              · have hlater := hrest.pos_le_of_mem ho'
                omega
            have hne : pos + (k + 1) ≠ o.start := by
              intro heq
              rw [Nat.add_assoc, heq, hstart o List.mem_cons_self] at hslash
              exact absurd (Option.some.inj hslash) (by decide)
            rw [if_pos (by omega)]
            exact hslash
        · cases hk
      have htail := ih (fun o' ho' => hopen o' (List.mem_cons_of_mem o ho'))
        (fun o' ho' => hstart o' (List.mem_cons_of_mem o ho')) fun i hi hc hout =>
          hbracket i (by omega) hc fun o' ho' hin => by
            rcases List.mem_cons.mp ho' with rfl | ho'
            · omega
            · exact hout o' ho' hin
      rw [segmentsFrom_cons (.cons hpos hlt htext hrest), List.flatMap_cons, List.flatMap_cons]
      have hmarker := Text.onlyCloses_of_notMem
        (bracket_notMem_strippedText (hopen o List.mem_cons_self))
      exact hgap.append (hmarker.append htail)

namespace Tag

variable {names : List Text} {t : Text}

/-- A tag begins with a bracket. -/
theorem bracket_of_mem_tagsIn {o : Occurrence} (h : o ∈ tagsIn names t) :
    t[o.start]? = some '[' := by
  obtain ⟨hread, -⟩ := (scanned_tagsIn names t).of_mem h
  by_contra hne
  rw [← List.head?_drop] at hne
  rw [read?_eq_none_of_head hne] at hread
  cases hread

/-- No tag can be read where a slash follows each bracket, if no name begins with a slash. -/
theorem read?_of_onlyCloses (hnames : ∀ m ∈ names, m ≠ [] ∧ m.head? ≠ some '/')
    (h : Text.OnlyCloses t) (i : Nat) : read? names .full (t.drop i) = none := by
  cases hread : read? names .full (t.drop i) with
  | none => rfl
  | some g =>
      obtain ⟨name, hname, marker, rest, hdrop, -, -⟩ := exists_opening_of_read? hread
      obtain ⟨hne, hhead⟩ := hnames name hname
      obtain ⟨c, cs, rfl⟩ := List.exists_cons_of_ne_nil hne
      have hget (k : Nat) : t[i + k]? = (marker ++ '[' :: (c :: cs ++ rest))[k]? := by
        rw [← hdrop, List.getElem?_drop]
      have hslash := h (i + marker.length) (by rw [hget]; simp)
      rw [Nat.add_assoc, hget] at hslash
      exact absurd (by simpa using hslash) hhead

theorem tagsIn_leftover_eq_nil (hnames : ∀ m ∈ names, m ≠ [] ∧ m.head? ≠ some '/')
    (hopen : ∀ o ∈ tagsIn names t, o.tag.openMarker = false)
    (hbracket : ∀ i, t[i]? = some '[' →
      (∀ o ∈ tagsIn names t, ¬ (o.start ≤ i ∧ i < o.stop)) → t[i + 1]? = some '/') :
    tagsIn names (leftover names t) = [] := by
  have hcloses := onlyCloses_stripped (placed_tagsIn names t) hopen
    (fun o ho => bracket_of_mem_tagsIn ho) fun i _ => hbracket i
  rw [tagsIn_eq_nil_iff, leftover_eq_stripped]
  exact read?_of_onlyCloses hnames hcloses

end Tag

/-- Stripping once leaves no tags of a text in which every bracket outside of the tags stands before
a slash, as that of a closing tag does, and no tag has a marker before it.  No tag stays and no tag
is put together from the pieces, if no name begins with a slash. -/
theorem strip_wellBracketed {e : Expander η} {t : Text} {w : World η σ} {os : List Occurrence}
    (hscan : (e.scan t w).outcome = .ok os)
    (hnames : ∀ m ∈ e.source.names w.registry, m.head? ≠ some '/')
    (hopen : ∀ o ∈ os, o.tag.openMarker = false)
    (hbracket : ∀ i, t[i]? = some '[' → (∀ o ∈ os, ¬ (o.start ≤ i ∧ i < o.stop)) →
      t[i + 1]? = some '/') :
    ((e.strip t >>= e.scan) w).outcome = .ok [] ∧
      ∃ u, (e.strip t w).outcome = .ok u ∧
        ∀ name ∈ e.source.names w.registry, Tag.tagsIn [name] u = [] := by
  rw [scan_outcome] at hscan
  obtain rfl := Except.ok.inj hscan
  have hproper : ∀ m ∈ e.source.names w.registry, m ≠ [] ∧ m.head? ≠ some '/' := by
    intro m hm
    refine ⟨?_, hnames m hm⟩
    rintro rfl
    exact e.source.nil_notMem_names w.registry hm
  have hfree := Tag.tagsIn_leftover_eq_nil hproper hopen hbracket
  obtain ⟨w', events, happly, hregistry⟩ := strip_apply e t w
  constructor
  · rw [Run.bind_ok happly]
    show (e.scan _ w').outcome = _
    rw [scan_outcome, hregistry, hfree]
  · refine ⟨_, by rw [happly], fun name hname => ?_⟩
    exact Tag.tagsIn_eq_nil_of_subset (List.cons_subset.mpr ⟨hname, List.nil_subset _⟩) hfree

/-- Stray brackets around two tags, one of them with a marker after it. -/
def strayBrackets : Text := "[/b][b k]x[/b]][/[b/]b]".toList

/-- A closing tag stays, the marker stays, and another closing tag is put together. -/
theorem strip_wellBracketed_stray :
    ∃ os, (Expander.scan ⟨.live, none⟩ strayBrackets oneName).outcome = .ok os ∧
      os.map Occurrence.text = ["[b k]x[/b]]".toList, "[b/]".toList] ∧
      (∀ o ∈ os, o.tag.openMarker = false) ∧
      (∀ i, strayBrackets[i]? = some '[' → (∀ o ∈ os, ¬ (o.start ≤ i ∧ i < o.stop)) →
        strayBrackets[i + 1]? = some '/') ∧
      Tag.leftover [['b']] strayBrackets = "[/b]][/b]".toList ∧
      ((Expander.strip ⟨.live, none⟩ strayBrackets >>= Expander.scan ⟨.live, none⟩)
        oneName).outcome = .ok [] := by
  have hscan := scan_outcome (Expander.mk (Source.live (η := Unit)) none) strayBrackets oneName
  have htags : Tag.tagsIn ((Source.live (η := Unit)).names oneName.registry) strayBrackets =
      [⟨⟨['b'], " k".toList, .wrapping ['x'], false, true⟩, 4, "[b k]x[/b]]".toList⟩,
        ⟨⟨['b'], [], .selfClosing, false, false⟩, 17, "[b/]".toList⟩] := by
    decide +kernel
  have hwithin : ∀ i < strayBrackets.length, strayBrackets[i]? = some '[' →
      (∀ o ∈ Tag.tagsIn ((Source.live (η := Unit)).names oneName.registry) strayBrackets,
        ¬ (o.start ≤ i ∧ i < o.stop)) → strayBrackets[i + 1]? = some '/' := by
    rw [htags]
    decide
  have hopen : ∀ o ∈ Tag.tagsIn ((Source.live (η := Unit)).names oneName.registry) strayBrackets,
      o.tag.openMarker = false := by
    rw [htags]
    decide
  have hbracket := fun i hi => hwithin i (List.getElem?_eq_some_iff.mp hi).1 hi
  exact ⟨_, hscan, by rw [htags]; rfl, hopen, hbracket, by decide +kernel,
    (strip_wellBracketed hscan (by decide) hopen hbracket).1⟩

end BracketTags
