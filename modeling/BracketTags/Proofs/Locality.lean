import BracketTags.Proofs.Escaping
import BracketTags.Proofs.Vocabularies

/-!
# Locality

A tag begins with an opening bracket and ends with a closing one.  So text before
the first opening bracket and text after the last closing bracket have no part in
any tag, whatever characters the names have.

*Text after it.*  A tag is read up to its first closing bracket, up to its closing
tag, and up to its marker.  All of these end with a closing bracket, so they are
not found in text without one, and no part of them is (`Tag.read?_unclosed`).

*Divisions.*  Such text joins the first and the last gap (`Tag.divide_unopened`,
`Tag.divide_unclosed`).  So passes find the same tags, later by the length of what
stands before them, and leave the text around them as it is (`passes_local`).
-/

namespace BracketTags

variable {η σ : Type}

/-! ## Text without closing brackets -/

namespace Text

variable {c : Char} {part t u v w : Text}

/-- What ends with a character ends before text without this character. -/
theorem exists_split_of_notMem (hw : c ∉ w) (h : t ++ w = u ++ ([c] ++ v)) :
    ∃ v', t = u ++ ([c] ++ v') ∧ v = v' ++ w := by
  rw [← List.append_assoc] at h
  rcases List.append_eq_append_iff.mp h with ⟨x, hx, rfl⟩ | ⟨x, rfl, rfl⟩
  · cases x using List.reverseRecOn with
    | nil => exact ⟨[], by simpa using hx.symm, rfl⟩
    | append_singleton x d =>
        rw [← List.append_assoc] at hx
        obtain ⟨-, hd⟩ := List.append_inj' hx rfl
        obtain rfl : c = d := by simpa using hd
        exact absurd (by simp) hw
  · exact ⟨x, List.append_assoc _ _ _, rfl⟩

/-- A part that ends with a character is cut from the text before the text without it. -/
theorem cut?_append_of_notMem (hw : c ∉ w) :
    cut? (part ++ [c]) (t ++ w) = (cut? (part ++ [c]) t).map fun p => (p.1, p.2 ++ w) := by
  cases h : cut? (part ++ [c]) t with
  | some p => exact cut?_append_of_some h w
  | none =>
      rw [cut?_eq_none_iff] at h
      rw [Option.map_none, cut?_eq_none_iff]
      rintro ⟨u, v, hin⟩
      have hsplit : t ++ w = (u ++ part) ++ ([c] ++ v) := by
        rw [← hin]
        simp
      obtain ⟨v', rfl, -⟩ := exists_split_of_notMem hw hsplit
      exact h ⟨u, v', by simp⟩

end Text

section Unclosed

variable {names : List Text} {name inner after w : Text}

theorem cut?_closingTag_append (hw : ']' ∉ w) (name t : Text) :
    Text.cut? (closingTag name) (t ++ w) =
      (Text.cut? (closingTag name) t).map fun p => (p.1, p.2 ++ w) :=
  Text.cut?_append_of_notMem hw

/-- The body of a tag ends before text without closing brackets. -/
theorem bodyAfter_unclosed (hw : ']' ∉ w) :
    bodyAfter .full name inner (after ++ w) =
      ((bodyAfter .full name inner after).1, (bodyAfter .full name inner after).2 ++ w) := by
  by_cases hslash : inner.getLast? = some '/'
  · rw [bodyAfter_of_slash hslash, bodyAfter_of_slash hslash]
  · have hwrapped : wrapped? .full name (after ++ w) =
        (wrapped? .full name after).map fun p => (p.1, p.2 ++ w) :=
      cut?_closingTag_append hw name after
    cases h : wrapped? .full name after with
    | none =>
        rw [h] at hwrapped
        rw [bodyAfter_of_not_wrapped hslash h, bodyAfter_of_not_wrapped hslash hwrapped]
    | some p =>
        rw [h] at hwrapped
        rw [bodyAfter_of_wrapped hslash h, bodyAfter_of_wrapped hslash hwrapped]

namespace Candidate

theorem tag_unclosed (hw : ']' ∉ w) (c : Candidate) :
    c.tag .full inner (after ++ w) = c.tag .full inner after := by
  have hmarker : (((bodyAfter .full c.name inner after).2 ++ w).head? == some ']') =
      ((bodyAfter .full c.name inner after).2.head? == some ']') := by
    cases (bodyAfter .full c.name inner after).2 with
    | cons d rest => rfl
    | nil =>
        cases w with
        | nil => rfl
        | cons d w =>
            have hd : d ≠ ']' := fun h => hw (h ▸ List.mem_cons_self)
            simp [hd]
  rw [tag, tag, bodyAfter_unclosed hw, hmarker]

/-- A candidate is read as if the text without closing brackets were not there. -/
theorem read?_unclosed (hw : ']' ∉ w) (t : Text) (c : Candidate) :
    c.read? .full (t ++ w) = c.read? .full t := by
  refine Option.ext fun g => ?_
  rw [read?_eq_some_iff_parts, read?_eq_some_iff_parts]
  constructor
  · rintro ⟨inner, after, ht, hends, hinner, rfl⟩
    have hsplit : t ++ w = (c.opening ++ inner) ++ ([']'] ++ after) := by
      rw [ht, List.append_assoc]
    obtain ⟨after, rfl, rfl⟩ := Text.exists_split_of_notMem hw hsplit
    exact ⟨inner, after, List.append_assoc _ _ _, hends, hinner, (tag_unclosed hw c).symm⟩
  · rintro ⟨inner, after, rfl, hends, hinner, rfl⟩
    exact ⟨inner, after ++ w, by simp, hends, hinner, tag_unclosed hw c⟩

end Candidate

namespace Tag

/-- A tag is read as if the text without closing brackets were not there. -/
theorem read?_unclosed (hw : ']' ∉ w) (names : List Text) (t : Text) :
    read? names .full (t ++ w) = read? names .full t := by
  have hread : Candidate.read? .full (t ++ w) = Candidate.read? .full t :=
    funext (Candidate.read?_unclosed hw t)
  rw [read?, hread, read?]

/-- Text without closing brackets does not settle the form of the expression. -/
theorem formFor_unclosed (hw : ']' ∉ w) (names : List Text) (t : Text) :
    formFor names (t ++ w) = formFor names t := by
  have hany : (names.any fun name => Text.occursIn (closingTag name) (t ++ w)) =
      names.any fun name => Text.occursIn (closingTag name) t := by
    refine congrArg names.any (funext fun name => ?_)
    rw [Bool.eq_iff_iff, Text.occursIn_iff, Text.occursIn_iff, ← not_iff_not,
      ← Text.cut?_eq_none_iff, ← Text.cut?_eq_none_iff, cut?_closingTag_append hw,
      Option.map_eq_none_iff]
  rw [formFor, formFor, hany]

end Tag

end Unclosed

/-! ## Segments with text around them -/

/-- Segments with a text before them, which joins the first gap. -/
def prependText (u : Text) (segs : List Segment) : List Segment := u.foldr prependChar segs

/-- Segments with a text after them, which joins the last gap. -/
def appendText (v : Text) : List Segment → List Segment
  | [] => [.gap v]
  | [.gap u] => [.gap (u ++ v)]
  | .gap u :: seg :: segs => .gap u :: appendText v (seg :: segs)
  | .tag o :: segs => .tag o :: appendText v segs

section Around

variable {u v : Text}

theorem appendText_prependChar (v : Text) (c : Char) (segs : List Segment) :
    appendText v (prependChar c segs) = prependChar c (appendText v segs) := by
  cases segs with
  | nil => rfl
  | cons seg segs =>
      cases seg with
      | tag o => rfl
      | gap u =>
          cases segs with
          | nil => rfl
          | cons seg segs => rfl

/-- A reading of segments as texts reads the text before them too. -/
theorem flatMap_prependText {f : Segment → Text} (hgap : ∀ u, f (.gap u) = u) (u : Text)
    (segs : List Segment) : (prependText u segs).flatMap f = u ++ segs.flatMap f := by
  induction u with
  | nil => rfl
  | cons c u ih =>
      show (prependChar c (prependText u segs)).flatMap f = c :: (u ++ segs.flatMap f)
      rw [flatMap_prependChar hgap, ih]

/-- A reading of segments as texts reads the text after them too. -/
theorem flatMap_appendText {f : Segment → Text} (hgap : ∀ u, f (.gap u) = u) (v : Text)
    (segs : List Segment) : (appendText v segs).flatMap f = segs.flatMap f ++ v := by
  induction segs using appendText.induct with
  | case1 => simp [appendText, hgap]
  | case2 u => simp [appendText, hgap]
  | case3 u seg segs ih =>
      rw [appendText, List.flatMap_cons, ih]
      exact (List.append_assoc _ _ _).symm
  | case4 o segs ih => rw [appendText, List.flatMap_cons, ih, List.flatMap_cons, List.append_assoc]

theorem filterMap_prependText (u : Text) (segs : List Segment) :
    (prependText u segs).filterMap Segment.tag? = segs.filterMap Segment.tag? := by
  induction u with
  | nil => rfl
  | cons c u ih =>
      show (prependChar c (prependText u segs)).filterMap Segment.tag? = _
      rw [Tag.filterMap_prependChar, ih]

theorem filterMap_appendText (v : Text) (segs : List Segment) :
    (appendText v segs).filterMap Segment.tag? = segs.filterMap Segment.tag? := by
  induction segs using appendText.induct with
  | case1 => rfl
  | case2 u => rfl
  | case3 u seg segs ih => exact ih
  | case4 o segs ih => exact congrArg (o :: ·) ih

variable {act : Behaviour η σ} {e : Expander η} {strict : Bool}

theorem replaceAll_prependText (u : Text) (segs : List Segment) :
    Expander.replaceAll act e strict (prependText u segs) =
      (u ++ ·) <$> Expander.replaceAll act e strict segs := by
  induction u with
  | nil => exact (Run.id_map _).symm
  | cons c u ih =>
      show Expander.replaceAll act e strict (prependChar c (prependText u segs)) = _
      rw [replaceAll_prependChar, ih, Functor.map_map]
      rfl

theorem replaceAll_appendText (v : Text) (segs : List Segment) :
    Expander.replaceAll act e strict (appendText v segs) =
      (· ++ v) <$> Expander.replaceAll act e strict segs := by
  induction segs using appendText.induct with
  | case1 => simp [appendText, Expander.replaceAll]
  | case2 u => simp [appendText, Expander.replaceAll]
  | case3 u seg segs ih =>
      rw [appendText, Expander.replaceAll, ih, Expander.replaceAll.eq_2, Functor.map_map,
        Functor.map_map]
      simp only [List.append_assoc]
  | case4 o segs ih =>
      rw [appendText, Expander.replaceAll, ih, Expander.replaceAll, map_bind]
      simp only [Functor.map_map, List.append_assoc]

end Around

/-! ## Divisions -/

/-- An occurrence in a text that stands later by `n` characters. -/
def Occurrence.later (n : Nat) (o : Occurrence) : Occurrence := { o with start := o.start + n }

namespace Tag

variable {names : List Text} {t u v : Text}

/-- Text without opening brackets joins the first gap. -/
theorem divide_unopened (hn : names ≠ []) (hu : '[' ∉ u) (t : Text) (start : Nat) :
    divide names start (u ++ t) = prependText u (divide names (start + u.length) t) := by
  induction u generalizing start with
  | nil => rfl
  | cons c u ih =>
      rw [List.mem_cons, not_or] at hu
      have hunread : read? names .full (c :: (u ++ t)) = none := by
        refine read?_eq_none_of_head fun hhead => hu.1 ?_
        exact (Option.some.inj hhead).symm
      rw [List.cons_append, divide_cons hn hunread, ih hu.2, List.length_cons, Nat.add_assoc,
        Nat.add_comm 1]
      rfl

/-- Text without closing brackets joins the last gap. -/
theorem divide_unclosed (hn : names ≠ []) (hv : ']' ∉ v) (t : Text) (start : Nat) :
    divide names start (t ++ v) = appendText v (divide names start t) := by
  induction t using reading_induction names generalizing start with
  | nil =>
      rw [List.nil_append, divide_nil]
      refine divide_of_unread hn (fun x hx => ?_) start
      have hclosed : ']' ∉ x := fun hmem => hv (hx.subset hmem)
      have hread := read?_unclosed hclosed names []
      rwa [List.nil_append, read?_nil] at hread
  | char c cs h ih =>
      have hunread : read? names .full (c :: (cs ++ v)) = none := by
        rw [← List.cons_append, read?_unclosed hv, h]
      rw [List.cons_append, divide_cons hn hunread, ih, divide_cons hn h, appendText_prependChar]
  | tag t g h ih =>
      have hread : read? names .full (t ++ v) = some g := by
        rw [read?_unclosed hv, h]
      have hlen := (render_prefix_of_read? h).length_le
      rw [divide_of_read? hn hread, divide_of_read? hn h, List.drop_append_of_le_length hlen, ih]
      rfl

/-- The tags of a text that stands later are the same tags later. -/
theorem tags_divide_later (hn : names ≠ []) (n start : Nat) (t : Text) :
    (divide names (start + n) t).filterMap Segment.tag? =
      ((divide names start t).filterMap Segment.tag?).map (Occurrence.later n) := by
  induction t using reading_induction names generalizing start with
  | nil => rw [divide_nil, divide_nil]; rfl
  | char c cs h ih =>
      rw [divide_cons hn h, divide_cons hn h, filterMap_prependChar, filterMap_prependChar,
        Nat.add_right_comm, ih]
  | tag t g h ih =>
      have hrest := ih (start + g.render.length)
      rw [Nat.add_right_comm] at hrest
      rw [divide_of_read? hn h, divide_of_read? hn h]
      exact congrArg (_ :: ·) hrest

/-- Text around a text has no part in its tags. -/
theorem divide_between (hn : names ≠ []) (hu : '[' ∉ u) (hv : ']' ∉ v) (t : Text) :
    divide names 0 (u ++ (t ++ v)) = prependText u (appendText v (divide names u.length t)) := by
  rw [divide_unopened hn hu, divide_unclosed hn hv, Nat.zero_add]

theorem tagsIn_between (hu : '[' ∉ u) (hv : ']' ∉ v) (names : List Text) (t : Text) :
    tagsIn names (u ++ (t ++ v)) = (tagsIn names t).map (Occurrence.later u.length) := by
  by_cases hn : names = []
  · rw [tagsIn, tagsIn, if_pos hn, if_pos hn, List.map_nil]
  · rw [tagsIn_eq_divide hn, tagsIn_eq_divide hn, divide_between hn hu hv, filterMap_prependText,
      filterMap_appendText, ← tags_divide_later hn u.length 0, Nat.zero_add]

theorem leftover_between (hu : '[' ∉ u) (hv : ']' ∉ v) (names : List Text) (t : Text) :
    leftover names (u ++ (t ++ v)) = u ++ (leftover names t ++ v) := by
  by_cases hn : names = []
  · rw [leftover, leftover, if_pos hn, if_pos hn]
  · rw [leftover_eq hn, leftover_eq hn, divide_between hn hu hv, flatMap_prependText (fun _ => rfl),
      flatMap_appendText (fun _ => rfl), flatMap_strippedText_offset hn t u.length 0]

theorem formFor_between (hu : '[' ∉ u) (hv : ']' ∉ v) (names : List Text) (t : Text) :
    formFor names (u ++ (t ++ v)) = formFor names t := by
  rw [formFor_append fun name _ => passes_of_bracket_notMem name hu, formFor_unclosed hv]

end Tag

/-! ## Passes -/

/-- Calls that are functions of their arguments take no handler away. -/
theorem Behaviour.IsPure.keepsHandlers {act : Behaviour η σ} (hpure : act.IsPure)
    (e : Expander η) : act.KeepsHandlers e := by
  refine Behaviour.keepsHandlers_of_world_eq fun h c w => ?_
  obtain ⟨outcome, heq⟩ := hpure h c
  rw [heq]

/-- Scanning builds the expression and gives what is settled by the names and the text. -/
theorem scan_eq_building (e : Expander η) (t : Text) (w : World η σ) :
    e.scan t w =
      ((fun _ => Tag.tagsIn (e.source.names w.registry) t) <$> e.pattern? (some t)) w := by
  by_cases hnames : e.source.names w.registry = []
  · rw [Expander.scan, Run.bind_ok (scan?_of_nameless hnames),
      Run.map_ok (pattern?_of_nameless hnames _), Tag.tagsIn, if_pos hnames]
    rfl
  · obtain ⟨strict, w₀, events, hb⟩ := exists_begins t hnames
    rw [Expander.scan, Run.bind_ok hb.scan?, Run.map_ok hb.pattern?, Tag.tagsIn, if_neg hnames]
    simp

section Passes

variable {act : Behaviour η σ} {e : Expander η} {u v : Text}

theorem pattern?_between (hu : '[' ∉ u) (hv : ']' ∉ v) (e : Expander η) (t : Text)
    (w : World η σ) : e.pattern? (some (u ++ (t ++ v))) w = e.pattern? (some t) w := by
  have hvocabulary : e.vocabulary? (some (u ++ (t ++ v))) w = e.vocabulary? (some t) w := by
    rw [vocabulary?_apply, vocabulary?_apply, Option.map_some, Option.map_some,
      Tag.formFor_between hu hv]
  have hvalue := vocabulary?_apply e (some t) w
  rw [Expander.pattern?, Expander.pattern?, Run.bind_ok hvalue,
    Run.bind_ok (hvocabulary.trans hvalue)]

/-- What is settled by the names and the text is settled by the text between. -/
theorem building_between {α : Type} {f : α → α} {a b : α} (hu : '[' ∉ u) (hv : ']' ∉ v)
    (hab : a = f b) (t : Text) (w : World η σ) :
    ((fun _ => a) <$> e.pattern? (some (u ++ (t ++ v)))) w =
      (f <$> (fun _ => b) <$> e.pattern? (some t)) w := by
  rw [Functor.map_map, Run.map_congr (pattern?_between hu hv e t w), hab]

theorem expand_between (hu : '[' ∉ u) (hv : ']' ∉ v) (hkeep : act.KeepsHandlers e) (t : Text)
    (w : World η σ) :
    e.expand act (u ++ (t ++ v)) w = ((fun x => u ++ (x ++ v)) <$> e.expand act t) w := by
  by_cases hn : e.source.names w.registry = []
  · rw [(Expands.nameless hn).expand_eq, Run.map_ok (Expands.nameless hn).expand_eq]
  · obtain ⟨p?, cache, events, hbuilt, -⟩ := exists_onlyBuilds_pattern? e (some t) w
    have hall : e.source.HasAll (e.source.names w.registry) w.registry :=
      e.source.hasAll_names w.registry
    have hexpand (x : Text) (hx : e.pattern? (some x) w = e.pattern? (some t) w) :
        e.expand act x w = (Expander.replaceAll act e (e.fixed.getD w.config).isStrict
          (Tag.divide (e.source.names w.registry) 0 x) { w with expressions := cache }).after
            events := by
      rw [expand_eq_building, Run.bind_ok (hx.trans hbuilt), Tag.tagsIn, if_neg hn,
        Tag.segments_scan hn]
    rw [hexpand _ (pattern?_between hu hv e t w), Run.map_after (hexpand t rfl),
      Tag.divide_between hn hu hv, replaceAll_prependText, replaceAll_appendText, Functor.map_map]
    refine congrArg (Result.after events) (Run.map_congr ?_ _)
    exact replaceAll_divide_offset hn hkeep t u.length 0 hall

end Passes

/-- Text before the first opening bracket and after the last closing bracket has no part in what
passes do.  The tags of the text between are the tags of the whole, and they differ in their offsets
alone, for any names.  What an expander does with the whole is what it does with the text between,
with the text around it left as it is.  For an expansion, no call may take a handler away, and calls
that are functions of their arguments do not. -/
theorem passes_local {u v : Text} (hu : '[' ∉ u) (hv : ']' ∉ v) (t : Text) :
    (∀ names, Tag.tagsIn names (u ++ (t ++ v)) =
        (Tag.tagsIn names t).map (Occurrence.later u.length) ∧
      Tag.leftover names (u ++ (t ++ v)) = u ++ (Tag.leftover names t ++ v)) ∧
    ∀ (e : Expander η) (w : World η σ),
      e.scan (u ++ (t ++ v)) w = (List.map (Occurrence.later u.length) <$> e.scan t) w ∧
      e.strip (u ++ (t ++ v)) w = ((fun x => u ++ (x ++ v)) <$> e.strip t) w ∧
      ∀ act : Behaviour η σ, act.KeepsHandlers e →
        e.expand act (u ++ (t ++ v)) w = ((fun x => u ++ (x ++ v)) <$> e.expand act t) w := by
  refine ⟨fun names => ⟨Tag.tagsIn_between hu hv names t, Tag.leftover_between hu hv names t⟩,
    fun e w => ⟨?_, ?_, fun act hkeep => expand_between hu hv hkeep t w⟩⟩
  · rw [scan_eq_building, Run.map_congr (scan_eq_building e t w)]
    exact building_between hu hv (Tag.tagsIn_between hu hv _ t) t w
  · rw [strip_eq_building, Run.map_congr (strip_eq_building e t w)]
    exact building_between (f := fun x => u ++ (x ++ v)) hu hv (Tag.leftover_between hu hv _ t) t w

/-- Closing tags before a text do not count, and neither do openings after it. -/
theorem passes_local_openings :
    '[' ∉ "b]/b] ".toList ∧ ']' ∉ " [[b k [/b".toList ∧
    Tag.tagsIn [['b']] ("b]/b] ".toList ++ ("[b]x[/b][[b".toList ++ " [[b k [/b".toList)) =
      [⟨⟨['b'], [], .wrapping ['x'], false, false⟩, 6, "[b]x[/b]".toList⟩] ∧
    (Expander.strip ⟨.live, none⟩
        ("b]/b] ".toList ++ ("[b]x[/b][[b".toList ++ " [[b k [/b".toList)) oneName).outcome =
      .ok "b]/b] [[b [[b k [/b".toList ∧
    (Expander.expand (fun _ c => pure (.value (.text (c.content.getD [])))) ⟨.live, none⟩
        ("b]/b] ".toList ++ ("[b]x[/b][[b".toList ++ " [[b k [/b".toList)) oneName).outcome =
      .ok "b]/b] x[[b [[b k [/b".toList := by
  have hu : '[' ∉ "b]/b] ".toList := by decide
  have hv : ']' ∉ " [[b k [/b".toList := by decide
  obtain ⟨hnames, hpasses⟩ := @passes_local Unit Unit _ _ hu hv "[b]x[/b][[b".toList
  obtain ⟨-, hstrip, hexpand⟩ := hpasses ⟨.live, none⟩ oneName
  have hkeep : Behaviour.KeepsHandlers (σ := Unit)
      (fun (_ : Unit) c => pure (.value (.text (c.content.getD [])))) ⟨.live, none⟩ :=
    Behaviour.IsPure.keepsHandlers (fun _ _ => ⟨_, fun _ => rfl⟩) _
  refine ⟨hu, hv, ?_, ?_, ?_⟩
  · rw [(hnames _).1]
    decide +kernel
  · rw [hstrip]
    decide +kernel
  · rw [hexpand _ hkeep]
    decide +kernel

end BracketTags
