import BracketTags.Proofs.Awaiting
import BracketTags.Proofs.ClosingTags
import BracketTags.Proofs.Offsets

/-!
# Escaped tags

A tag between two pairs of brackets is escaped, if it does not wrap any text.
It is read with both markers, and the rest of the text is what it would be
alone (`expand_escapedTag`).

A tag wraps text as soon as a closing tag of its name follows anywhere.  Then
the second bracket of the pair belongs to the content, and the tag is not
escaped by it (`Tag.read?_escapedTag_of_closed`).  Only a tag that closes itself
is safe from that.
-/

namespace BracketTags

variable {η σ : Type}

/-! ## Reading an escaped tag -/

/-- A tag between markers, given its name and the text from there to the closing bracket. -/
def escapedTag (name inner : Text) : Text := ['[', '['] ++ (name ++ inner) ++ [']', ']']

/-- The same tag without markers. -/
def literalTag (name inner : Text) : Text := ['['] ++ (name ++ inner) ++ [']']

/-- A tag that begins with the text `opening` up to its closing bracket wraps nothing of the text
`rest`.  Whichever name is read, the tag closes itself or no closing tag follows. -/
def Unwrapped (names : List Text) (opening rest : Text) : Prop :=
  ∀ name ∈ names, ∀ inner, opening = name ++ inner → nameEnds inner = true →
    inner.getLast? = some '/' ∨ ¬ closingTag name <:+: rest

/-- A tag that wraps nothing leaves all of the text after it. -/
theorem bodyAfter_snd {name inner after : Text}
    (h : inner.getLast? = some '/' ∨ ¬ closingTag name <:+: after) :
    (bodyAfter .full name inner after).2 = after := by
  by_cases hslash : inner.getLast? = some '/'
  · rw [bodyAfter_of_slash hslash]
  · have hcut : wrapped? .full name after = none :=
      Text.cut?_eq_none_iff.mpr (h.resolve_left hslash)
    rw [bodyAfter_of_not_wrapped hslash hcut]

/-- A tag that wraps nothing is written as it was read, with its markers. -/
theorem Candidate.render_tag {c : Candidate} {inner after : Text}
    (h : (bodyAfter .full c.name inner after).2 = after) :
    (c.tag .full inner after).render =
      c.opening ++ (inner ++ ([']'] ++ (c.tag .full inner after).closeText)) := by
  have hbody := attributesIn_append_render .full c.name inner after
  rw [h, ← List.append_assoc, ← List.append_assoc inner] at hbody
  rw [Tag.render_eq, Candidate.openText_tag, ← List.append_assoc inner,
    ← List.append_cancel_right hbody]
  simp [Candidate.tag, Candidate.opening]

namespace Tag

variable {names : List Text} {name inner rest : Text}

/-- A tag between markers is read with a name that ends in it, and with the bracket of the marker
after it. -/
theorem exists_read?_escapedTag (hnames : ∀ m ∈ names, ']' ∉ m) (hname : name ∈ names)
    (hinner : ']' ∉ inner) (hends : nameEnds inner = true) (rest : Text) :
    ∃ m ∈ names, ∃ inner', name ++ inner = m ++ inner' ∧ nameEnds inner' = true ∧
      read? names .full (escapedTag name inner ++ rest) =
        some (Candidate.tag .full ⟨true, m⟩ inner' ([']'] ++ rest)) := by
  have hrest : nameEnds (inner ++ ([']'] ++ ([']'] ++ rest))) = true := nameEnds_append hends rfl
  obtain ⟨m, hm, inner', after, hsplit, hends', hinner', hread⟩ :=
    @exists_read?_of_marked names .full name _ hname hrest (by simp)
  have hcut := Text.cut?_singleton (List.not_mem_append (hnames m hm) hinner') after
  rw [List.append_assoc, ← hsplit, ← List.append_assoc,
    Text.cut?_singleton (List.not_mem_append (hnames name hname) hinner)] at hcut
  obtain ⟨hopening, rfl⟩ := Prod.mk.inj (Option.some.inj hcut)
  refine ⟨m, hm, inner', hopening, hends', ?_⟩
  rw [← hread, escapedTag]
  simp

/-- A tag between markers is escaped if it wraps nothing. -/
theorem read?_escapedTag (hnames : ∀ m ∈ names, ']' ∉ m) (hname : name ∈ names)
    (hinner : ']' ∉ inner) (hends : nameEnds inner = true)
    (hunwrapped : Unwrapped names (name ++ inner) rest) :
    ∃ g, read? names .full (escapedTag name inner ++ rest) = some g ∧ g.isEscaped = true ∧
      g.render = escapedTag name inner := by
  obtain ⟨m, hm, inner', hopening, hends', hread⟩ :=
    exists_read?_escapedTag hnames hname hinner hends rest
  have hclose : inner'.getLast? = some '/' ∨ ¬ closingTag m <:+: [']'] ++ rest := by
    rw [(passes_of_bracket_notMem m (by decide)).infix_append_iff]
    exact hunwrapped m hm inner' hopening hends'
  have hafter := bodyAfter_snd hclose
  have hmarker : (Candidate.tag .full ⟨true, m⟩ inner' ([']'] ++ rest)).closeMarker = true := by
    rw [Candidate.tag, hafter]
    rfl
  refine ⟨_, hread, ?_, ?_⟩
  · rw [isEscaped, hmarker]
    rfl
  · rw [Candidate.render_tag hafter, closeText, hmarker, escapedTag, hopening]
    simp [Candidate.opening, openingMarker]

/-- A tag between markers that is closed later wraps the bracket of the marker and all that follows
up to its closing tag. -/
theorem read?_escapedTag_of_closed (hnames : ∀ m ∈ names, OrdinaryName m) (hname : name ∈ names)
    (hinner : ']' ∉ inner) (hends : nameEnds inner = true) (hslash : inner.getLast? ≠ some '/')
    {content after : Text} (hcut : Text.cut? (closingTag name) rest = some (content, after)) :
    read? names .full (escapedTag name inner ++ rest) =
      some ⟨name, inner, .wrapping (']' :: content), true, after.head? == some ']'⟩ := by
  obtain ⟨m, hm, inner', hopening, hends', hread⟩ := exists_read?_escapedTag
    (fun m hm => (hnames m hm).closingBracket_notMem) hname hinner hends rest
  obtain rfl := (hnames name hname).eq_of_append_eq (hnames m hm) hends hends' hopening
  obtain rfl := List.append_cancel_left hopening
  have hwrapped : wrapped? .full name ([']'] ++ rest) = some (']' :: content, after) := by
    have hpasses := passes_of_bracket_notMem name (u := [']']) (by decide) rest
    rw [hcut] at hpasses
    exact hpasses
  rw [hread, Candidate.tag, bodyAfter_of_wrapped hslash hwrapped, attributesIn_of_ne hslash]

end Tag

/-! ## Scanning an escaped tag -/

theorem passes_escapedTag {name inner : Text} (hname : OrdinaryName name) (n : Text)
    (hinner : '[' ∉ inner) : Text.Passes (closingTag n) (escapedTag name inner) := by
  have hopening : Text.Passes (closingTag n) ('[' :: (name ++ inner)) :=
    passes_opening hname n hinner
  have hclosing : '[' ∉ [']', ']'] := by decide
  exact (passes_bracket (by decide) hopening).append (passes_of_bracket_notMem n hclosing)

/-- A text without closing tags does not settle the form of the expression. -/
theorem Tag.formFor_append {names : List Text} {u : Text}
    (h : ∀ name ∈ names, Text.Passes (closingTag name) u) (t : Text) :
    formFor names (u ++ t) = formFor names t := by
  have hany : (names.any fun name => Text.occursIn (closingTag name) (u ++ t)) =
      names.any fun name => Text.occursIn (closingTag name) t := by
    rw [Bool.eq_iff_iff, List.any_eq_true, List.any_eq_true]
    refine exists_congr fun name => and_congr_right fun hname => ?_
    rw [Text.occursIn_iff, Text.occursIn_iff, (h name hname).infix_append_iff]
  rw [formFor, formFor, hany]

/-! ## Passes over an escaped tag -/

theorem unescapedText_escapedTag {g : Tag} {name inner : Text}
    (h : g.render = escapedTag name inner) (start : Nat) :
    Occurrence.unescapedText ⟨g, start, g.render⟩ = literalTag name inner := by
  have htext : escapedTag name inner = '[' :: (literalTag name inner ++ [']']) := by
    simp [escapedTag, literalTag]
  rw [Occurrence.unescapedText, h, htext, List.tail_cons, List.dropLast_concat]

/-- Passes over two texts begin alike if their expressions have the same form. -/
theorem Begins.congr {e : Expander η} {t t' : Text} {w w₀ : World η σ} {os : List Occurrence}
    {strict : Bool} {events : List Event} (hb : Begins e t w os strict w₀ events)
    (hform : Tag.formFor (e.source.names w.registry) t' =
      Tag.formFor (e.source.names w.registry) t) :
    Begins e t' w (Tag.scan (e.source.names w.registry) t') strict w₀ events :=
  ⟨hb.names_ne, rfl, hb.strict, by rw [hform]; exact hb.compiled⟩

/-- An escaped tag that wraps nothing loses its markers, and no handler is called for it.  The rest
of the text is expanded or stripped as it is alone. -/
theorem expand_escapedTag (act : Behaviour η σ) (e : Expander η) (w : World η σ)
    {name inner : Text} (rest : Text) (hnames : ∀ m ∈ e.source.names w.registry, ']' ∉ m)
    (hname : name ∈ e.source.names w.registry) (hchars : ∀ c ∈ name, isNameChar c = true)
    (hinner : '[' ∉ inner ∧ ']' ∉ inner) (hends : nameEnds inner = true)
    (hkeep : act.KeepsHandlers e)
    (hunwrapped : Unwrapped (e.source.names w.registry) (name ++ inner) rest) :
    e.expand act (escapedTag name inner ++ rest) w =
        ((literalTag name inner ++ ·) <$> e.expand act rest) w ∧
      e.strip (escapedTag name inner ++ rest) w =
        ((literalTag name inner ++ ·) <$> e.strip rest) w := by
  have hn : e.source.names w.registry ≠ [] := List.ne_nil_of_mem hname
  have hordinary : OrdinaryName name := by
    refine ⟨?_, hchars⟩
    rintro rfl
    exact e.source.nil_notMem_names w.registry hname
  obtain ⟨g, hread, hesc, hrender⟩ := Tag.read?_escapedTag hnames hname hinner.2 hends hunwrapped
  obtain ⟨strict, w₀, events, hb⟩ := exists_begins rest hn
  have hb' := hb.congr <| Tag.formFor_append
    (fun m _ => passes_escapedTag hordinary m hinner.1) rest
  have hdrop : (escapedTag name inner ++ rest).drop g.render.length = rest := by
    rw [hrender, List.drop_left]
  have hliteral := unescapedText_escapedTag hrender 0
  constructor
  · have answers : Answers act e strict ⟨g, 0, g.render⟩ w₀ [] (.ok _) w₀ [] := .escaped hesc
    have hall : e.source.HasAll (e.source.names w.registry) w₀.registry := by
      rw [hb.registry]
      exact e.source.hasAll_names w.registry
    have hexpand : e.expand act rest w =
        (Expander.replaceAll act e strict (Tag.divide (e.source.names w.registry) 0 rest)
          w₀).after events := by
      rw [hb.expand, Tag.segments_scan hn]
    rw [hb'.expand, Tag.segments_scan hn, replaceAll_divide_of_read? hn hread,
      Run.bind_ok answers.replacement, Result.after_nil, hdrop, hliteral,
      Run.map_congr (replaceAll_divide_offset hn hkeep rest _ 0 hall), Run.map_after hexpand]
  · have hstrip := hb.strip
    rw [stripped, Tag.segments_scan hn] at hstrip
    rw [hb'.strip, stripped, Tag.segments_scan hn, Tag.divide_of_read? hn hread, hdrop,
      Run.map_ok hstrip]
    simp only [List.flatMap_cons, Segment.strippedText, Occurrence.strippedText, hesc, if_true,
      hliteral, List.nil_append]
    rw [flatMap_strippedText_offset hn rest _ 0]

/-- The tag closes itself, so the closing tag that follows does not count.  It closes the tag after
the escaped one, which is answered. -/
theorem expand_escapedTag_selfClosing :
    Unwrapped [['b']] (['b'] ++ " k/".toList) "[b]x[/b]".toList ∧
    Expander.expand (fun _ _ => pure (.value (.int 1))) ⟨.live, none⟩
        (escapedTag ['b'] " k/".toList ++ "[b]x[/b]".toList) oneName =
      ((literalTag ['b'] " k/".toList ++ ·) <$> Expander.expand (fun _ _ => pure (.value (.int 1)))
        ⟨.live, none⟩ "[b]x[/b]".toList) oneName ∧
    Expander.strip ⟨.live, none⟩ (escapedTag ['b'] " k/".toList ++ "[b]x[/b]".toList) oneName =
      ((literalTag ['b'] " k/".toList ++ ·) <$> Expander.strip ⟨.live, none⟩ "[b]x[/b]".toList)
        oneName := by
  have hunwrapped : Unwrapped [['b']] (['b'] ++ " k/".toList) "[b]x[/b]".toList := by
    intro name hname inner hopening hends
    obtain rfl := List.mem_singleton.mp hname
    obtain rfl := List.append_cancel_left hopening
    exact .inl rfl
  have hnames : ∀ m ∈ (Source.live : Source Unit).names oneName.registry, ']' ∉ m := by decide
  have hchars : ∀ c ∈ ['b'], isNameChar c = true := List.all_eq_true.mp rfl
  have hkeep : Behaviour.KeepsHandlers (σ := Unit) (fun (_ : Unit) _ => pure (.value (.int 1)))
      ⟨.live, none⟩ := Behaviour.keepsHandlers_of_world_eq fun _ _ _ => rfl
  exact ⟨hunwrapped, expand_escapedTag _ _ oneName _ hnames List.mem_cons_self hchars
    ⟨by decide, by decide⟩ rfl hkeep hunwrapped⟩

/-- With a closing tag after it the tag is not escaped.  It wraps its second bracket, and its
handler is called. -/
theorem expand_escapedTag_ne :
    ∃ w₀, Expander.expand (fun _ _ => pure (.value (.text "B".toList))) ⟨.live, none⟩
        (escapedTag ['b'] [] ++ "x[/b]".toList) oneName =
      ⟨.ok "[B".toList, w₀,
        [.compiled 1 true, .called ['b'] (.parse []) (some "]x".toList)]⟩ ∧
    (((literalTag ['b'] [] ++ ·) <$> Expander.expand (fun _ _ => pure (.value (.text "B".toList)))
      ⟨.live, none⟩ "x[/b]".toList) oneName).outcome = .ok "[b]x[/b]".toList ∧
    (Expander.strip ⟨.live, none⟩ (escapedTag ['b'] [] ++ "x[/b]".toList) oneName).outcome =
      .ok "[".toList ∧
    (((literalTag ['b'] [] ++ ·) <$> Expander.strip ⟨.live, none⟩ "x[/b]".toList)
      oneName).outcome = .ok "[b]x[/b]".toList := by
  have htags : Tag.scan [['b']] (escapedTag ['b'] [] ++ "x[/b]".toList) =
      [⟨⟨['b'], [], .wrapping "]x".toList, true, false⟩, 0, "[[b]]x[/b]".toList⟩] := by
    decide +kernel
  have hrest : Tag.scan [['b']] "x[/b]".toList = [] := by decide +kernel
  have begins : Begins ⟨.live, none⟩ (escapedTag ['b'] [] ++ "x[/b]".toList) oneName
      (Tag.scan [['b']] (escapedTag ['b'] [] ++ "x[/b]".toList)) true _ [.compiled 1 true] :=
    ⟨by decide, rfl, rfl, _, rfl⟩
  have alone : Begins ⟨.live, none⟩ "x[/b]".toList oneName (Tag.scan [['b']] "x[/b]".toList) true _
      [.compiled 1 true] := ⟨by decide, rfl, rfl, _, rfl⟩
  have answers : ∀ w : World Unit Unit, w.registry = oneName.registry →
      ∃ calls, Answers (fun _ _ => pure (.value (.text "B".toList))) ⟨.live, none⟩ true
        ⟨⟨['b'], [], .wrapping "]x".toList, true, false⟩, 0, "[[b]]x[/b]".toList⟩ w calls
        (.ok "[B".toList) w [.called ['b'] (.parse []) (some "]x".toList)] := by
    intro w hw
    refine ⟨_, .value (h := ()) (v := .text "B".toList) rfl ?_ rfl⟩
    rw [hw]
    rfl
  obtain ⟨calls, answer⟩ := answers _ begins.registry
  rw [htags] at begins
  rw [hrest] at alone
  refine ⟨_, (Expands.finished begins (.cons answer .nil)).expand_eq, ?_, ?_, ?_⟩
  · rw [Run.map_ok (Expands.finished alone .nil).expand_eq]
    rfl
  · rw [begins.strip]
    rfl
  · rw [Run.map_ok alone.strip]
    rfl

end BracketTags
