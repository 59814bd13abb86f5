import BracketTags.Proofs.Awaiting
import BracketTags.Proofs.Offsets
import BracketTags.Proofs.Yielding

/-!
# Stripping

What stripping leaves of a text is settled by the names and the text
(`Tag.leftover`).  No handler has a part in it.

*Empty handlers.*  Where every handler answers with an empty value and none of
them takes a handler away, a pass leaves the same text as stripping does
(`strip_eq_empty_expansion`).

*Length.*  A tag leaves at least two characters less than it takes
(`Tag.length_stripped_add_le`).
-/

namespace BracketTags

variable {η σ η' σ' : Type}

/-! ## What is left -/

/-- What stripping leaves of a text.  A text stays as it is if there are no names. -/
def Tag.leftover (names : List Text) (t : Text) : Text :=
  if names = [] then t else Tag.strip names t

theorem Tag.leftover_nil (t : Text) : leftover [] t = t := if_pos rfl

theorem Tag.leftover_eq {names : List Text} (hn : names ≠ []) (t : Text) :
    leftover names t = (divide names 0 t).flatMap Segment.strippedText := by
  rw [leftover, if_neg hn, strip, stripped, segments_scan hn]

/-- Stripping leaves the registry as it is. -/
theorem strip_apply (e : Expander η) (t : Text) (w : World η σ) :
    ∃ w' events, e.strip t w =
        ⟨.ok (Tag.leftover (e.source.names w.registry) t), w', events⟩ ∧
      w'.registry = w.registry := by
  by_cases hnames : e.source.names w.registry = []
  · refine ⟨w, [], ?_, rfl⟩
    rw [Expander.strip, Run.bind_ok (scan?_of_nameless hnames), hnames, Tag.leftover_nil]
    rfl
  · obtain ⟨strict, w₀, events, hb⟩ := exists_begins t hnames
    refine ⟨w₀, events, ?_, hb.registry⟩
    rw [hb.strip, Tag.leftover, if_neg hnames, Tag.strip]

/-! ## Empty handlers -/

/-- Every call is answered with a value that has no text. -/
def Behaviour.AnswersEmpty (act : Behaviour η σ) : Prop :=
  ∀ h c w, ∃ v, (act h c w).outcome = .ok (.value v) ∧ v.toText = []

theorem Tag.name_mem_of_mem_divide {names : List Text} (hn : names ≠ []) {start : Nat} {t : Text}
    {o : Occurrence} (h : .tag o ∈ divide names start t) : o.tag.name ∈ names := by
  obtain ⟨-, u, -, hread⟩ := read?_of_mem_divide hn h
  exact name_mem_of_read? hread

/-- A tag that is answered by an empty value leaves what stripping leaves of it. -/
theorem yields_strippedText {act : Behaviour η σ} {e : Expander η} {names : List Text}
    (hempty : act.AnswersEmpty) (hkeep : act.KeepsHandlers e) (strict : Bool) {o : Occurrence}
    (hname : o.tag.name ∈ names) :
    (Expander.replacement act e strict o).Yields (e.source.HasAll names) o.strippedText := by
  cases hesc : o.tag.isEscaped with
  | true =>
      rw [Occurrence.strippedText, if_pos hesc]
      exact yields_replacement_escaped hesc
  | false =>
      rw [Occurrence.strippedText, if_neg (by simp [hesc])]
      refine yields_replacement hesc fun w hw => ?_
      obtain ⟨h, hget⟩ := Option.ne_none_iff_exists'.mp (hw o.tag.name hname)
      obtain ⟨v, hvalue, htext⟩ := hempty h o.tag.call w
      refine ⟨h, v, (act h o.tag.call w).world, (act h o.tag.call w).events, hget, ?_, htext,
        fun n hn => hkeep h o.tag.call w n (hw n hn)⟩
      rw [← hvalue]

/-- A pass whose handlers are empty leaves what stripping leaves. -/
theorem expand_eq_leftover {act : Behaviour η σ} {e : Expander η} (hempty : act.AnswersEmpty)
    (hkeep : act.KeepsHandlers e) (t : Text) (w : World η σ) :
    (e.expand act t w).outcome = .ok (Tag.leftover (e.source.names w.registry) t) := by
  by_cases hnames : e.source.names w.registry = []
  · rw [(Expands.nameless hnames).expand_eq, hnames, Tag.leftover_nil]
  · have hall := e.source.hasAll_names w.registry
    obtain ⟨w', events, happly, -⟩ := expand_of_yields (u := _) hnames hall fun strict =>
      yields_replaceAll fun o ho => yields_strippedText hempty hkeep strict
        (Tag.name_mem_of_mem_divide hnames ho)
    rw [happly, Tag.leftover_eq hnames]
    refine congrArg Except.ok (List.flatMap_congr fun seg _ => ?_)
    cases seg with
    | gap u => rfl
    | tag o => rfl

/-- Stripping is expansion with empty handlers.  What is left depends on the names and on nothing
else, so neither the handlers of the registry that is stripped count, nor whether the expansion is
strict. -/
theorem strip_eq_empty_expansion (names : List Text) (t : Text) :
    (∀ (e : Expander η) (w : World η σ), e.source.names w.registry = names →
      (e.strip t w).outcome = .ok (Tag.leftover names t)) ∧
    ∀ (act : Behaviour η' σ') (e : Expander η') (w : World η' σ'),
      e.source.names w.registry = names → act.AnswersEmpty → act.KeepsHandlers e →
      (e.expand act t w).outcome = .ok (Tag.leftover names t) := by
  constructor
  · rintro e w rfl
    obtain ⟨w', events, happly, -⟩ := strip_apply e t w
    rw [happly]
  · rintro act e w rfl hempty hkeep
    exact expand_eq_leftover hempty hkeep t w

/-- One text has an escaped tag, a tag that wraps, and markers at both. -/
theorem strip_eq_empty_expansion_markers :
    (Expander.strip ⟨.live, none⟩ "[[b/]][[b k]x[/b] [b/]]".toList oneName).outcome =
      .ok "[b/][ ]".toList ∧
    (Expander.expand (fun _ _ => pure (.value .nothing)) ⟨.live, some ⟨.bool false⟩⟩
      "[[b/]][[b k]x[/b] [b/]]".toList oneName).outcome = .ok "[b/][ ]".toList := by
  have hleft : Tag.leftover [['b']] "[[b/]][[b k]x[/b] [b/]]".toList = "[b/][ ]".toList := by
    decide +kernel
  obtain ⟨hstrip, hexpand⟩ := @strip_eq_empty_expansion Unit Unit Unit Unit [['b']]
    "[[b/]][[b k]x[/b] [b/]]".toList
  rw [hleft] at hstrip hexpand
  refine ⟨hstrip _ oneName rfl, hexpand _ _ oneName rfl (fun h c w => ⟨.nothing, rfl, rfl⟩) ?_⟩
  exact Behaviour.keepsHandlers_of_world_eq fun _ _ _ => rfl

/-! ## Length -/

/-- The tag that a segment is, if it is one. -/
def Segment.tag? : Segment → Option Occurrence
  | .gap _ => none
  | .tag o => some o

section Shorter

variable {o : Occurrence}

/-- A tag leaves two characters less than it takes, or even fewer. -/
theorem length_strippedText_add_two_le (h : o.text = o.tag.render) :
    o.strippedText.length + 2 ≤ o.text.length := by
  have hlen : 2 + o.tag.openText.length + o.tag.closeText.length ≤ o.text.length := by
    have hbody : 1 ≤ (o.tag.body.render o.tag.name).length := by
      cases o.tag.body with
      | opening => simp [Body.render]
      | selfClosing => simp [Body.render]
      | wrapping content => simp [Body.render]
    rw [h, Tag.render_eq]
    simp only [List.length_append, List.length_singleton]
    omega
  rw [Occurrence.strippedText]
  cases hesc : o.tag.isEscaped with
  | true =>
      rw [if_pos rfl, Occurrence.unescapedText, List.length_dropLast, List.length_tail]
      omega
  | false =>
      rw [if_neg Bool.false_ne_true, Tag.withMarkers, List.append_nil, List.length_append]
      omega

theorem mem_text_of_mem_strippedText (h : o.text = o.tag.render) {c : Char}
    (hc : c ∈ o.strippedText) : c ∈ o.text := by
  rw [Occurrence.strippedText] at hc
  cases hesc : o.tag.isEscaped with
  | true =>
      rw [hesc, if_pos rfl] at hc
      exact List.mem_of_mem_tail (List.mem_of_mem_dropLast hc)
  | false =>
      rw [hesc, if_neg Bool.false_ne_true, Tag.withMarkers, List.append_nil] at hc
      rw [h, Tag.render_eq]
      rcases List.mem_append.mp hc with hc | hc
      · simp [hc]
      · simp [hc]

end Shorter

namespace Tag

/-- Segments lose at least two characters for each tag among them. -/
theorem length_stripped_add_le {segs : List Segment}
    (h : ∀ o, .tag o ∈ segs → o.text = o.tag.render) :
    (segs.flatMap Segment.strippedText).length + 2 * (segs.filterMap Segment.tag?).length ≤
      (segs.flatMap Segment.text).length := by
  induction segs with
  | nil => exact Nat.le_refl 0
  | cons seg segs ih =>
      have htail := ih fun o ho => h o (List.mem_cons_of_mem seg ho)
      simp only [List.flatMap_cons, List.length_append]
      cases seg with
      | gap u =>
          simp only [Segment.strippedText, Segment.text, List.filterMap_cons, Segment.tag?]
          omega
      | tag o =>
          have hhead := length_strippedText_add_two_le (h o List.mem_cons_self)
          simp only [Segment.strippedText, Segment.text, List.filterMap_cons, Segment.tag?,
            List.length_cons]
          omega

end Tag

end BracketTags
