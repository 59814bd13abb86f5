import BracketTags.Proofs.Building
import BracketTags.Proofs.Partition

/-!
# Layers

A tag may stand in more brackets than those of its markers.

*One place.*  Where three brackets stand no tag can be read, since no name begins
with the third one (`Tag.read?_three_brackets`).  Where a tag is all of a text,
it is read with a marker behind one bracket more (`Tag.read?_cons_bracket`), and
with a marker after it before one bracket more (`Tag.read?_append`).  So the only
tag in the brackets is the escaped one, and it takes the innermost of them
(`Tag.IsWhole.tagsIn_bracketed`).

*One pass.*  A pass takes these brackets away and does nothing else
(`onlyBuilds_bracketed`).  So after as many passes as there are brackets the tag
is left, and the next pass calls its handler (`passes_peel_layers`).
-/

namespace BracketTags

variable {η σ : Type}

/-! ## Brackets around a text -/

/-- A text in `k` more brackets on both sides. -/
def Text.bracketed (k : Nat) (t : Text) : Text :=
  List.replicate k '[' ++ (t ++ List.replicate k ']')

/-- A tag with both markers. -/
def Tag.escaped (g : Tag) : Tag := { g with openMarker := true, closeMarker := true }

namespace Text

theorem bracketed_zero (t : Text) : bracketed 0 t = t := by
  simp [bracketed]

theorem bracketed_one (t : Text) : bracketed 1 t = '[' :: (t ++ [']']) := rfl

theorem bracketed_succ (k : Nat) (t : Text) :
    bracketed (k + 1) t =
      List.replicate k '[' ++ (bracketed 1 t ++ List.replicate k ']') := by
  rw [bracketed, List.replicate_succ', List.replicate_succ, bracketed_one]
  simp

/-- Before the innermost brackets there are three of them in a row, if the text begins with one. -/
theorem exists_drop_bracketed_eq {j k : Nat} (hj : j < k) (u : Text) :
    ∃ v, (bracketed (k + 1) ('[' :: u)).drop j = '[' :: '[' :: '[' :: v := by
  obtain ⟨m, hm⟩ : ∃ m, k + 2 - j = m + 3 := ⟨k - j - 1, by omega⟩
  have hbrackets : bracketed (k + 1) ('[' :: u) =
      List.replicate (k + 2) '[' ++ (u ++ List.replicate (k + 1) ']') := by
    rw [bracketed, List.replicate_succ' (n := k + 1)]
    simp
  refine ⟨List.replicate m '[' ++ (u ++ List.replicate (k + 1) ']'), ?_⟩
  rw [hbrackets, List.drop_append_of_le_length (by simp; omega), List.drop_replicate, hm]
  rfl

theorem take_bracketed (k : Nat) (t : Text) :
    (bracketed (k + 1) t).take k = List.replicate k '[' := by
  rw [bracketed_succ, List.take_left' List.length_replicate]

/-- Behind the innermost brackets there are closing ones only. -/
theorem drop_bracketed (k n : Nat) (t : Text) :
    (bracketed (k + 1) t).drop (k + (bracketed 1 t).length + n) = List.replicate (k - n) ']' := by
  have hlen : (List.replicate k '[' ++ bracketed 1 t).length = k + (bracketed 1 t).length := by
    rw [List.length_append, List.length_replicate]
  rw [bracketed_succ k t, ← List.append_assoc, ← List.drop_drop, List.drop_left' hlen,
    List.drop_replicate]

end Text

/-! ## Names without brackets -/

/-- A name that is not empty and has no brackets. -/
structure BracketFree (name : Text) : Prop where
  ne_nil : name ≠ []
  opening_notMem : '[' ∉ name
  closing_notMem : ']' ∉ name

theorem BracketFree.append_ne_cons {name : Text} (h : BracketFree name) (rest u : Text) :
    name ++ rest ≠ '[' :: u := fun heq =>
  Text.head?_append_ne_of_notMem h.ne_nil h.opening_notMem rest (congrArg List.head? heq)

/-! ## Brackets before a tag -/

namespace Candidate

variable {m : Text}

/-- Behind one bracket more, a candidate with a marker is read as the one without it. -/
theorem read?_marked_eq (form : Form) (m u : Text) :
    Candidate.read? form ('[' :: u) ⟨true, m⟩ =
      (Candidate.read? form u ⟨false, m⟩).map fun g => { g with openMarker := true } := by
  have hdrop : Text.dropStart? (opening ⟨true, m⟩) ('[' :: u) =
      Text.dropStart? (opening ⟨false, m⟩) u := by
    simp [opening, openingMarker, Text.dropStart?]
  have hrest (rest : Text) : readRest? form ⟨true, m⟩ rest =
      (readRest? form ⟨false, m⟩ rest).map fun g => { g with openMarker := true } := by
    rw [readRest?, readRest?]
    split
    · rw [Option.map_map]
      rfl
    · rfl
  rw [read?, read?, hdrop, Option.map_bind]
  exact congrArg _ (funext hrest)

/-- A marker needs two brackets. -/
theorem read?_marked_one_bracket (form : Form) (m : Text) {u : Text} (hu : u.head? ≠ some '[') :
    Candidate.read? form ('[' :: u) ⟨true, m⟩ = none := by
  cases hg : Candidate.read? form ('[' :: u) ⟨true, m⟩ with
  | none => rfl
  | some g =>
      obtain ⟨rest, ht, -⟩ := read?_eq_some_iff.mp hg
      exact absurd (congrArg List.head? (List.cons_injective ht)) hu

/-- Two brackets need a marker, since no name begins with the second one. -/
theorem read?_unmarked_two_brackets (form : Form) (hm : BracketFree m) (u : Text) :
    Candidate.read? form ('[' :: '[' :: u) ⟨false, m⟩ = none := by
  cases hg : Candidate.read? form ('[' :: '[' :: u) ⟨false, m⟩ with
  | none => rfl
  | some g =>
      obtain ⟨rest, ht, -⟩ := read?_eq_some_iff.mp hg
      exact absurd (List.cons_injective ht).symm (hm.append_ne_cons rest u)

end Candidate

namespace Tag

variable {names : List Text} {form : Form}

theorem read?_marked_eq (names : List Text) (form : Form) (u : Text) :
    (names.findSome? fun m => Candidate.read? form ('[' :: u) ⟨true, m⟩) =
      (names.findSome? fun m => Candidate.read? form u ⟨false, m⟩).map fun g =>
        { g with openMarker := true } := by
  rw [List.map_findSome?]
  exact congrArg (List.findSome? · names) (funext fun m => Candidate.read?_marked_eq form m u)

theorem read?_unmarked_two_brackets (hnames : ∀ m ∈ names, BracketFree m) (u : Text) :
    (names.findSome? fun m => Candidate.read? form ('[' :: '[' :: u) ⟨false, m⟩) = none :=
  List.findSome?_eq_none_iff.mpr fun m hm =>
    Candidate.read?_unmarked_two_brackets form (hnames m hm) u

/-- Where three brackets stand no tag can be read. -/
theorem read?_three_brackets (hnames : ∀ m ∈ names, BracketFree m) (u : Text) :
    read? names form ('[' :: '[' :: '[' :: u) = none := by
  rw [read?_eq_or, read?_marked_eq, read?_unmarked_two_brackets hnames,
    read?_unmarked_two_brackets hnames]
  rfl

/-- Behind one bracket more, a tag is read with a marker. -/
theorem read?_cons_bracket (hnames : ∀ m ∈ names, BracketFree m) {u : Text}
    (hu : u.head? ≠ some '[') :
    read? names form ('[' :: '[' :: u) =
      (read? names form ('[' :: u)).map fun g => { g with openMarker := true } := by
  have hmarked : (names.findSome? fun m => Candidate.read? form ('[' :: u) ⟨true, m⟩) = none :=
    List.findSome?_eq_none_iff.mpr fun m _ => Candidate.read?_marked_one_bracket form m hu
  rw [read?_eq_or, read?_eq_or, read?_marked_eq, read?_unmarked_two_brackets hnames, hmarked,
    Option.or_none, Option.none_or]

end Tag

/-! ## Brackets after a tag -/

theorem wrapped?_append {form : Form} {name after content rest : Text}
    (h : wrapped? form name after = some (content, rest)) (w : Text) :
    wrapped? form name (after ++ w) = some (content, rest ++ w) := by
  cases form with
  | full => exact Text.cut?_append_of_some h w
  | plain => cases h

/-- What is left after a body stays behind it when the text goes on without an opening bracket. -/
theorem bodyAfter_append {form : Form} {name inner after w : Text}
    (h : (bodyAfter form name inner after).2 = []) (hw : '[' ∉ w) :
    bodyAfter form name inner (after ++ w) = ((bodyAfter form name inner after).1, w) := by
  by_cases hslash : inner.getLast? = some '/'
  · rw [bodyAfter_of_slash hslash] at h ⊢
    obtain rfl : after = [] := h
    rw [bodyAfter_of_slash hslash]
    rfl
  · cases hwrapped : wrapped? form name after with
    | some p =>
        obtain ⟨content, rest⟩ := p
        rw [bodyAfter_of_wrapped hslash hwrapped] at h ⊢
        obtain rfl : rest = [] := h
        rw [bodyAfter_of_wrapped hslash (wrapped?_append hwrapped w)]
        rfl
    | none =>
        rw [bodyAfter_of_not_wrapped hslash hwrapped] at h ⊢
        obtain rfl : after = [] := h
        rw [List.nil_append,
          bodyAfter_of_not_wrapped hslash (wrapped?_of_bracket_notMem hw form name)]

namespace Candidate

variable {form : Form} {c : Candidate} {t w : Text} {g : Tag}

/-- Without a marker after it, a tag is followed by what is left. -/
theorem render_tag_append (form : Form) (c : Candidate) (inner after : Text)
    (hclose : (c.tag form inner after).closeMarker = false) :
    (c.tag form inner after).render ++ (bodyAfter form c.name inner after).2 =
      c.opening ++ (inner ++ ([']'] ++ after)) := by
  have hcloseText : (c.tag form inner after).closeText = [] := by
    rw [Tag.closeText, hclose]
    rfl
  rw [← attributesIn_append_render form c.name inner after, Tag.render_eq, hcloseText,
    openText_tag]
  simp [tag, opening]

/-- A tag that is all of a text is read with a marker after it, if the text goes on with a closing
bracket and without opening brackets. -/
theorem read?_append (h : c.read? form t = some g) (hrender : g.render = t)
    (hclose : g.closeMarker = false) (hw : '[' ∉ w) :
    c.read? form (t ++ w) = some { g with closeMarker := w.head? == some ']' } := by
  obtain ⟨inner, after, rfl, hends, hinner, rfl⟩ := read?_eq_some_iff_parts.mp h
  have hrest : (bodyAfter form c.name inner after).2 = [] := by
    have happend := render_tag_append form c inner after hclose
    rwa [← hrender, List.append_right_eq_self] at happend
  refine read?_eq_some_iff_parts.mpr ⟨inner, after ++ w, by simp, hends, hinner, ?_⟩
  rw [tag, bodyAfter_append hrest hw]
  rfl

theorem closingBracket_notMem_opening (hc : BracketFree c.name) : ']' ∉ c.opening := by
  rw [opening, openingMarker]
  cases c.marked with
  | true => simp [hc.closing_notMem]
  | false => simp [hc.closing_notMem]

/-- A candidate that is not read from a text with a closing bracket is not read either if the text
goes on, since the first closing bracket stays the first one. -/
theorem read?_append_eq_none (hc : BracketFree c.name) (ht : ']' ∈ t) (h : c.read? form t = none)
    (w : Text) : c.read? form (t ++ w) = none := by
  cases hg : c.read? form (t ++ w) with
  | none => rfl
  | some g =>
      obtain ⟨inner, after, hsplit, hends, hinner, -⟩ := read?_eq_some_iff_parts.mp hg
      obtain ⟨u, v, hcut⟩ := Text.exists_cut?_of_mem ht
      have hopening : ']' ∉ c.opening ++ inner :=
        List.not_mem_append (closingBracket_notMem_opening hc) hinner
      have hlonger := Text.cut?_append_of_some hcut w
      rw [hsplit, ← List.append_assoc, Text.cut?_singleton hopening] at hlonger
      obtain ⟨hu, -⟩ := Prod.mk.inj (Option.some.inj hlonger)
      have hshorter : t = c.opening ++ (inner ++ ([']'] ++ v)) := by
        rw [(Text.cut?_eq_some_iff.mp hcut).1, ← hu, List.append_assoc]
      rw [read?_eq_some_iff_parts.mpr ⟨inner, v, hshorter, hends, hinner, rfl⟩] at h
      cases h

end Candidate

namespace Tag

variable {names : List Text} {form : Form} {t w : Text} {g : Tag}

theorem closingBracket_mem_render (g : Tag) : ']' ∈ g.render := by
  rw [render_eq]
  cases g.body with
  | opening => simp [Body.render]
  | selfClosing => simp [Body.render]
  | wrapping content => simp [Body.render]

/-- A tag that is all of a text is read with a marker after it, if the text goes on with a closing
bracket and without opening brackets. -/
theorem read?_append (hnames : ∀ m ∈ names, BracketFree m) (h : read? names form t = some g)
    (hrender : g.render = t) (hclose : g.closeMarker = false) (hw : '[' ∉ w) :
    read? names form (t ++ w) = some { g with closeMarker := w.head? == some ']' } := by
  have hmem : ']' ∈ t := hrender ▸ g.closingBracket_mem_render
  obtain ⟨before, c, after, hall, hc, hbefore⟩ := List.findSome?_eq_some_iff.mp h
  refine List.findSome?_eq_some_iff.mpr
    ⟨before, c, after, hall, Candidate.read?_append hc hrender hclose hw, fun c' hc' => ?_⟩
  have hname : c'.name ∈ names := Candidate.name_mem_of_mem_all (hall ▸ List.mem_append_left _ hc')
  exact Candidate.read?_append_eq_none (hnames _ hname) hmem (hbefore c' hc') w

end Tag

/-! ## A tag in brackets -/

/-- The tag `g` without markers is all of a text. -/
structure Tag.IsWhole (names : List Text) (t : Text) (g : Tag) : Prop where
  read : read? names .full t = some g
  render : g.render = t
  openMarker : g.openMarker = false
  closeMarker : g.closeMarker = false

namespace Tag

variable {names : List Text} {t : Text} {g : Tag}

theorem render_escaped (hopen : g.openMarker = false) (hclose : g.closeMarker = false) :
    g.escaped.render = Text.bracketed 1 g.render := by
  rw [render_eq, render_eq, Text.bracketed_one, openText, closeText, openText, closeText, hopen,
    hclose]
  simp [escaped]

namespace IsWhole

theorem exists_eq (h : IsWhole names t g) : ∃ u, t = '[' :: (g.name ++ u) := by
  refine ⟨g.attributes ++ g.body.render g.name ++ g.closeText, ?_⟩
  rw [← h.render, render_eq, openText, h.openMarker]
  simp

theorem read?_bracketed (hnames : ∀ m ∈ names, BracketFree m) (h : IsWhole names t g) (k : Nat) :
    read? names .full (Text.bracketed 1 t ++ List.replicate k ']') = some g.escaped := by
  have hname := hnames _ (name_mem_of_read? h.read)
  have hgoesOn : read? names .full (t ++ (']' :: List.replicate k ']')) =
      some { g with closeMarker := true } :=
    read?_append hnames h.read h.render h.closeMarker (by simp)
  obtain ⟨u, ht⟩ := h.exists_eq
  have hcons : t ++ (']' :: List.replicate k ']') =
      '[' :: (g.name ++ (u ++ (']' :: List.replicate k ']'))) := by
    rw [ht]
    simp
  have hbrackets : Text.bracketed 1 t ++ List.replicate k ']' =
      '[' :: '[' :: (g.name ++ (u ++ (']' :: List.replicate k ']'))) := by
    rw [← hcons, Text.bracketed_one]
    simp
  rw [hbrackets, read?_cons_bracket hnames
    (Text.head?_append_ne_of_notMem hname.ne_nil hname.opening_notMem _), ← hcons, hgoesOn]
  rfl

/-- The only tag in the brackets is the escaped one, and it takes the innermost of them.  Before
these there are too many brackets, and behind them no bracket opens anything. -/
theorem tagsIn_bracketed (hnames : ∀ m ∈ names, BracketFree m) (h : IsWhole names t g) (k : Nat) :
    tagsIn names (Text.bracketed (k + 1) t) = [⟨g.escaped, k, Text.bracketed 1 t⟩] := by
  have hrender : g.escaped.render = Text.bracketed 1 t := by
    rw [render_escaped h.openMarker h.closeMarker, h.render]
  rw [tagsIn_eq_iff, ← hrender]
  refine .next (Nat.zero_le k) (fun j _ hj => ?_) ?_ (.done fun i hi => ?_)
  · obtain ⟨u, rfl⟩ := h.exists_eq
    obtain ⟨v, hdrop⟩ := Text.exists_drop_bracketed_eq hj (g.name ++ u)
    rw [hdrop, read?_three_brackets hnames]
  · rw [Text.bracketed_succ, List.drop_left' List.length_replicate]
    exact h.read?_bracketed hnames k
  · obtain ⟨n, rfl⟩ := Nat.exists_eq_add_of_le hi
    refine read?_eq_none_of_head fun hhead => ?_
    rw [hrender, Text.drop_bracketed] at hhead
    exact absurd (List.eq_of_mem_replicate (List.mem_of_head? hhead)) (by decide)

theorem leftover_bracketed (hnames : ∀ m ∈ names, BracketFree m) (h : IsWhole names t g)
    (k : Nat) : leftover names (Text.bracketed (k + 1) t) = Text.bracketed k t := by
  have hescaped : g.escaped.isEscaped = true := rfl
  have htext : Occurrence.strippedText ⟨g.escaped, k, Text.bracketed 1 t⟩ = t := by
    rw [Occurrence.strippedText, if_pos hescaped, Occurrence.unescapedText, Text.bracketed_one,
      List.tail_cons, List.dropLast_concat]
  have hafter := Text.drop_bracketed k 0 t
  rw [leftover_eq_stripped, h.tagsIn_bracketed hnames k, stripped, segments, segmentsFrom,
    segmentsFrom]
  simp only [Nat.sub_zero, Nat.add_zero, Occurrence.stop, List.flatMap_cons, List.flatMap_nil,
    Segment.strippedText, List.append_nil] at hafter ⊢
  rw [Text.take_bracketed, hafter, htext, Text.bracketed]

end IsWhole

end Tag

/-! ## Passes -/

/-- The passes that an expander can do over a text. -/
inductive Expander.IsPass (e : Expander η) : (Text → Run η σ Text) → Prop where
  | expand (act : Behaviour η σ) : e.IsPass (e.expand act)
  | expandAwaiting (act : Behaviour η σ) : e.IsPass (e.expandAwaiting act)
  | strip : e.IsPass e.strip

/-- Passes one after another, each over what the one before it left. -/
def Run.inTurn (passes : List (Text → Run η σ Text)) (t : Text) : Run η σ Text :=
  passes.foldlM (fun u pass => pass u) t

section Pass

variable {e : Expander η} {w : World η σ} {t : Text} {g : Tag}

/-- Over a text whose tags are all escaped, every pass does what stripping does. -/
theorem Expander.IsPass.eq_strip {pass : Text → Run η σ Text} (hpass : e.IsPass pass)
    (h : ∀ o ∈ Tag.tagsIn (e.source.names w.registry) t, o.tag.isEscaped = true) :
    pass t w = e.strip t w := by
  cases hpass with
  | expand act => exact expand_eq_strip_of_escaped act h
  | expandAwaiting act =>
      rw [expandAwaiting_eq]
      exact expand_eq_strip_of_escaped act.awaited h
  | strip => rfl

variable {pass : Text → Run η σ Text} {passes : List (Text → Run η σ Text)}

/-- A tag that an expander finds as all of a text. -/
theorem Tag.isWhole_of_scan (hscan : (e.scan t w).outcome = .ok [⟨g, 0, t⟩])
    (hopen : g.openMarker = false) (hclose : g.closeMarker = false) :
    Tag.IsWhole (e.source.names w.registry) t g := by
  rw [scan_outcome] at hscan
  have hscanned := Tag.scanned_tagsIn (e.source.names w.registry) t
  rw [Except.ok.inj hscan] at hscanned
  obtain ⟨hread, htext⟩ := hscanned.of_mem List.mem_cons_self
  exact ⟨hread, htext.symm, hopen, hclose⟩

/-- A pass takes the innermost brackets away and does nothing else. -/
theorem onlyBuilds_bracketed (hpass : e.IsPass pass)
    (hnames : ∀ m ∈ e.source.names w.registry, BracketFree m)
    (h : Tag.IsWhole (e.source.names w.registry) t g) (k : Nat) :
    (pass (Text.bracketed (k + 1) t)).OnlyBuilds w (Text.bracketed k t) := by
  have hstrip := onlyBuilds_strip e (Text.bracketed (k + 1) t) w
  rw [h.leftover_bracketed hnames k] at hstrip
  refine hstrip.of_eq (hpass.eq_strip fun o ho => ?_)
  rw [h.tagsIn_bracketed hnames k, List.mem_singleton] at ho
  rw [ho]
  rfl

/-- As many passes as there are brackets leave the tag. -/
theorem onlyBuilds_inTurn (hpasses : ∀ pass ∈ passes, e.IsPass pass)
    (hnames : ∀ m ∈ e.source.names w.registry, BracketFree m)
    (h : Tag.IsWhole (e.source.names w.registry) t g) :
    (Run.inTurn passes (Text.bracketed passes.length t)).OnlyBuilds w t := by
  induction passes generalizing w with
  | nil =>
      rw [List.length_nil, Text.bracketed_zero]
      exact .pure t w
  | cons pass passes ih =>
      rw [Run.inTurn, List.length_cons, List.foldlM_cons]
      have hpass := onlyBuilds_bracketed (hpasses pass List.mem_cons_self) hnames h passes.length
      refine hpass.bind fun cache => ?_
      exact ih (fun pass hmem => hpasses pass (List.mem_cons_of_mem _ hmem)) hnames h

/-- A tag without markers is answered by its handler.  A pass that awaits settles the answer. -/
theorem expand_whole (act : Behaviour η σ) {h : η}
    (htags : Tag.tagsIn (e.source.names w.registry) t = [⟨g, 0, t⟩])
    (hopen : g.openMarker = false) (hclose : g.closeMarker = false)
    (hget : e.source.get? w.registry g.name = some h) :
    e.expand act t w =
        (e.pattern? (some t) >>= fun _ => act.invoke h g.call >>= Reply.text g.name) w ∧
      e.expandAwaiting act t w =
        (e.pattern? (some t) >>= fun _ => act.invoke h g.call >>= fun reply =>
          Value.toText <$> Expander.settle g.name reply) w := by
  have hstop : Occurrence.stop ⟨g, 0, t⟩ = t.length := Nat.zero_add _
  have hexpand (act : Behaviour η σ) := expand_of_tag act htags rfl hstop hopen hclose hget
  refine ⟨hexpand act, ?_⟩
  have hsettle (reply : Reply η σ) :
      (.value <$> Expander.settle g.name reply) >>= Reply.text g.name =
        (Value.toText <$> Expander.settle g.name reply : Run η σ Text) := by
    rw [bind_map_left]
    exact Run.bind_pure_comp _ _
  rw [expandAwaiting_eq, hexpand act.awaited, invoke_awaited]
  simp only [bind_assoc, hsettle, Tag.call]

end Pass

/-- Each pass peels one layer of brackets off a tag.  In `k + 1` more brackets on both sides, the
tag is found once, as an escaped tag with all its parts that takes the innermost brackets.  Any pass
takes these away and calls no handler.  So after as many passes of any kinds as there are brackets
the tag is left, and the next expansion of it, whatever expressions are kept by then, calls its
handler and answers with what the handler gives. -/
theorem passes_peel_layers {e : Expander η} {w : World η σ} {t : Text} {g : Tag}
    (hnames : ∀ m ∈ e.source.names w.registry, '[' ∉ m ∧ ']' ∉ m)
    (hscan : (e.scan t w).outcome = .ok [⟨g, 0, t⟩])
    (hopen : g.openMarker = false) (hclose : g.closeMarker = false) :
    (∀ k, (e.scan (Text.bracketed (k + 1) t) w).outcome =
        .ok [⟨g.escaped, k, Text.bracketed 1 t⟩] ∧
      ∀ pass, e.IsPass pass →
        (pass (Text.bracketed (k + 1) t)).OnlyBuilds w (Text.bracketed k t)) ∧
    (∀ passes : List (Text → Run η σ Text), (∀ pass ∈ passes, e.IsPass pass) →
      (Run.inTurn passes (Text.bracketed passes.length t)).OnlyBuilds w t) ∧
    ∃ h, e.source.get? w.registry g.name = some h ∧ ∀ (act : Behaviour η σ) cache,
      e.expand act t { w with expressions := cache } =
        (e.pattern? (some t) >>= fun _ => act.invoke h g.call >>= Reply.text g.name)
          { w with expressions := cache } ∧
      e.expandAwaiting act t { w with expressions := cache } =
        (e.pattern? (some t) >>= fun _ => act.invoke h g.call >>= fun reply =>
          Value.toText <$> Expander.settle g.name reply) { w with expressions := cache } := by
  have hfree : ∀ m ∈ e.source.names w.registry, BracketFree m := fun m hm =>
    ⟨fun hnil => e.source.nil_notMem_names w.registry (hnil ▸ hm), (hnames m hm).1, (hnames m hm).2⟩
  have hwhole : Tag.IsWhole (e.source.names w.registry) t g :=
    Tag.isWhole_of_scan hscan hopen hclose
  refine ⟨fun k => ⟨?_, fun pass hpass => onlyBuilds_bracketed hpass hfree hwhole k⟩,
    fun passes hpasses => onlyBuilds_inTurn hpasses hfree hwhole, ?_⟩
  · rw [scan_outcome, hwhole.tagsIn_bracketed hfree k]
  · obtain ⟨h, hget⟩ := Option.ne_none_iff_exists'.mp
      (e.source.hasAll_names w.registry _ (Tag.name_mem_of_read? hwhole.read))
    rw [scan_outcome] at hscan
    refine ⟨h, hget, fun act cache => ?_⟩
    exact expand_whole (w := { w with expressions := cache }) act (Except.ok.inj hscan) hopen hclose
      hget

/-- A tag without markers whose content begins and ends with brackets, and has tags in brackets. -/
def bracketedTag : Tag where
  name := ['b']
  attributes := " k".toList
  body := .wrapping "]][[b]] [[/c]] [/".toList
  openMarker := false
  closeMarker := false

theorem passes_peel_layers_twice :
    bracketedTag.render = "[b k]]][[b]] [[/c]] [/[/b]".toList ∧
    (Run.inTurn [Expander.strip ⟨.live, none⟩,
        Expander.expandAwaiting (fun _ _ => Run.fail .tooDeep) ⟨.live, none⟩]
      "[[[b k]]][[b]] [[/c]] [/[/b]]]".toList).OnlyBuilds oneName bracketedTag.render ∧
    (Expander.expand (fun _ c => pure (.value (.text (c.content.getD [])))) ⟨.live, none⟩
      bracketedTag.render oneName).outcome = .ok "]][[b]] [[/c]] [/".toList := by
  have hscan : (Expander.scan ⟨.live, none⟩ bracketedTag.render oneName).outcome =
      .ok [⟨bracketedTag, 0, bracketedTag.render⟩] := by
    rw [scan_outcome]
    exact congrArg Except.ok (by decide +kernel)
  obtain ⟨-, hturn, h, -, hexpand⟩ := passes_peel_layers (by decide) hscan rfl rfl
  refine ⟨by decide, hturn [_, _] ?_, ?_⟩
  · intro pass hpass
    rcases List.mem_cons.mp hpass with rfl | hpass
    · exact .strip
    · rw [List.mem_singleton.mp hpass]
      exact .expandAwaiting _
  · rw [(hexpand _ oneName.expressions).1]
    rfl

end BracketTags
