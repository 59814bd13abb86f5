import BracketTags.Proofs.Rendering

/-!
# Partitions

The tags of a text and the gaps between them are all of the text, and no tag is
left in a gap.

*Step by step.*  `Tag.Scanned` tells how a scan goes on from an offset.  It
stops at the first offset where a tag can be read and goes on at the end of that
tag.  There is only one way to do that (`Scanned.unique`), and a scan does it
(`Tag.scanned_tagsIn`).

*As a whole.*  `Tag.Partition` says of some tags what they are to a text: they
stand apart from each other and in order, nothing of the text is lost, each of
them is what the expression matches where it starts, and the expression matches
nowhere else outside of them.  This leaves no choice, and the tags of a scan are
the only partition of a text (`scan_iff_partition`).
-/

namespace BracketTags

variable {η σ : Type}

/-! ## Step by step -/

namespace Tag

variable {names : List Text} {t : Text} {pos i : Nat} {os : List Occurrence}

/-- The tags `os` are met in the text `t` from offset `pos` on. -/
inductive Scanned (names : List Text) (t : Text) : Nat → List Occurrence → Prop where
  /-- No tag can be read any more. -/
  | done {pos : Nat} (hunread : ∀ i, pos ≤ i → read? names .full (t.drop i) = none) :
      Scanned names t pos []
  /-- A tag is read at the first offset where one can be read. -/
  | next {pos i : Nat} {g : Tag} {os : List Occurrence} (hpos : pos ≤ i)
      (hunread : ∀ j, pos ≤ j → j < i → read? names .full (t.drop j) = none)
      (hread : read? names .full (t.drop i) = some g)
      (hrest : Scanned names t (i + g.render.length) os) :
      Scanned names t pos (⟨g, i, g.render⟩ :: os)

/-- A scan goes on in one way. -/
theorem Scanned.unique {os' : List Occurrence} (h : Scanned names t pos os)
    (h' : Scanned names t pos os') : os = os' := by
  induction h generalizing os' with
  | done hunread =>
      cases h' with
      | done _ => rfl
      | next hpos' _ hread' _ =>
          rw [hunread _ hpos'] at hread'
          cases hread'
  | @next pos i g os hpos hunread hread hrest ih =>
      cases h' with
      | done hunread' =>
          rw [hunread' _ hpos] at hread
          cases hread
      | @next _ i' g' os' hpos' hunread' hread' hrest' =>
          rcases Nat.lt_trichotomy i i' with hlt | rfl | hlt
          · rw [hunread' i hpos hlt] at hread
            cases hread
          · obtain rfl := Option.some.inj (hread.symm.trans hread')
            rw [ih hrest']
          · rw [hunread i' hpos' hlt] at hread'
            cases hread'

/-- A scan goes past a character where no tag can be read. -/
theorem Scanned.of_unread (h : Scanned names t (pos + 1) os)
    (hunread : read? names .full (t.drop pos) = none) : Scanned names t pos os := by
  have hfrom : ∀ {i}, pos ≤ i → (pos + 1 ≤ i → read? names .full (t.drop i) = none) →
      read? names .full (t.drop i) = none := by
    intro i hi hlater
    rcases Nat.eq_or_lt_of_le hi with rfl | hlt
    · exact hunread
    · exact hlater hlt
  cases h with
  | done hrest => exact .done fun i hi => hfrom hi (hrest i)
  | next hpos hbefore hread hrest =>
      exact .next (Nat.le_of_succ_le hpos)
        (fun j hj hlt => hfrom hj fun hj' => hbefore j hj' hlt) hread hrest

theorem filterMap_prependChar (c : Char) (segs : List Segment) :
    (prependChar c segs).filterMap Segment.tag? = segs.filterMap Segment.tag? := by
  cases segs with
  | nil => rfl
  | cons seg segs =>
      cases seg with
      | gap u => rfl
      | tag o => rfl

/-- The tags of a division are met where the text stands that is divided. -/
theorem scanned_divide (hn : names ≠ []) {u : Text} (hu : t.drop pos = u) :
    Scanned names t pos ((divide names pos u).filterMap Segment.tag?) := by
  induction u using reading_induction names generalizing pos with
  | nil =>
      rw [divide_nil]
      refine .done fun i hi => ?_
      have hnil : t.drop i = [] :=
        List.drop_eq_nil_iff.mpr (Nat.le_trans (List.drop_eq_nil_iff.mp hu) hi)
      rw [hnil, read?_nil]
  | char c cs hunread ih =>
      have hcs : t.drop (pos + 1) = cs := by
        rw [← List.drop_drop, hu, List.drop_one, List.tail_cons]
      rw [divide_cons hn hunread, filterMap_prependChar]
      exact (ih hcs).of_unread (hu ▸ hunread)
  | tag u g hread ih =>
      have hrest : t.drop (pos + g.render.length) = u.drop g.render.length := by
        rw [← List.drop_drop, hu]
      rw [divide_of_read? hn hread]
      exact .next (Nat.le_refl pos) (fun j hj hlt => absurd hlt (Nat.not_lt.mpr hj)) (hu ▸ hread)
        (ih hrest)

theorem scanned_tagsIn (names : List Text) (t : Text) : Scanned names t 0 (tagsIn names t) := by
  by_cases hn : names = []
  · subst hn
    exact .done fun i _ => rfl
  · rw [tagsIn_eq_divide hn]
    exact scanned_divide hn rfl

/-- The tags of a text are settled by the offsets where a tag can be read. -/
theorem tagsIn_eq_iff : tagsIn names t = os ↔ Scanned names t 0 os := by
  constructor
  · rintro rfl
    exact scanned_tagsIn names t
  · exact (scanned_tagsIn names t).unique

/-! ## From step to step to the whole -/

theorem Scanned.of_mem (h : Scanned names t pos os) {o : Occurrence} (ho : o ∈ os) :
    read? names .full (t.drop o.start) = some o.tag ∧ o.text = o.tag.render := by
  induction h with
  | done _ => cases ho
  | next _ _ hread _ ih =>
      rcases List.mem_cons.mp ho with rfl | ho
      · exact ⟨hread, rfl⟩
      · exact ih ho

/-- No tag can be read outside of the tags that are met. -/
theorem Scanned.unread (h : Scanned names t pos os) (hpos : pos ≤ i)
    (hout : ∀ o ∈ os, ¬ (o.start ≤ i ∧ i < o.stop)) : read? names .full (t.drop i) = none := by
  induction h with
  | done hunread => exact hunread i hpos
  | @next pos j g os _ hunread _ _ ih =>
      rcases Nat.lt_or_ge i j with hlt | hge
      · exact hunread i hpos hlt
      · have hstop : j + g.render.length ≤ i :=
          Nat.not_lt.mp fun hlt => hout _ List.mem_cons_self ⟨hge, hlt⟩
        exact ih hstop fun o ho => hout o (List.mem_cons_of_mem _ ho)

/-- Tags that stand apart from each other are met one after another, if no tag can be read outside
of them. -/
theorem scanned_of_unread
    (hmem : ∀ o ∈ os, pos ≤ o.start ∧ read? names .full (t.drop o.start) = some o.tag ∧
      o.text = o.tag.render)
    (hapart : os.Pairwise fun a b => a.stop ≤ b.start)
    (hunread : ∀ i, pos ≤ i → (∀ o ∈ os, ¬ (o.start ≤ i ∧ i < o.stop)) →
      read? names .full (t.drop i) = none) : Scanned names t pos os := by
  induction os generalizing pos with
  | nil => exact .done fun i hi => hunread i hi nofun
  | cons o os ih =>
      obtain ⟨hlater, hrest⟩ := List.pairwise_cons.mp hapart
      obtain ⟨g, i, u⟩ := o
      obtain ⟨hpos, hread, htext⟩ := hmem _ List.mem_cons_self
      obtain rfl : u = g.render := htext
      refine .next hpos (fun j hj hlt => hunread j hj fun b hb hin => ?_) hread
        (ih (fun b hb => ⟨hlater b hb, (hmem b (List.mem_cons_of_mem _ hb)).2⟩) hrest ?_)
      · have hstart : i ≤ b.start := by
          rcases List.mem_cons.mp hb with rfl | hb
          · exact Nat.le_refl i
          · exact Nat.le_trans (Nat.le_add_right i _) (hlater b hb)
        exact Nat.not_lt.mpr (Nat.le_trans hstart hin.1) hlt
      · intro j hj hout
        refine hunread j (Nat.le_trans hpos (Nat.le_trans (Nat.le_add_right i _) hj)) ?_
        rintro b hb hin
        rcases List.mem_cons.mp hb with rfl | hb
        · exact Nat.not_lt.mpr hj hin.2
        · exact hout b hb hin

/-! ## Expressions -/

/-- The expression that is chosen for a text reads what the full one reads at each offset. -/
theorem read?_formFor (names : List Text) (t : Text) (i : Nat) :
    read? names (formFor names t) (t.drop i) = read? names .full (t.drop i) := by
  rcases formFor_eq_full_or names t with hform | ⟨hform, hclose⟩
  · rw [hform]
  · rw [hform]
    exact read?_plain fun name hname hin =>
      hclose name hname (hin.trans (List.drop_suffix i t).isInfix)

/-- What the expression of some names matches at the start of a text.  Without names there is no
expression, and no tag can be read. -/
theorem matchStart?_expression? (names : List Text) (form : Form) (u : Text) :
    ((expression? names form).bind fun p => p.matchStart? u) =
      (read? names form u).map fun g => g.progress u := by
  by_cases hn : names = []
  · subst hn
    rfl
  · rw [expression?_of_ne hn]
    exact matchStart?_expression hn form u

theorem found?_expression? (names : List Text) (form : Form) (start : Nat) (u : Text) :
    (((expression? names form).bind fun p => p.found? start u).map Occurrence.ofFound) =
      (read? names form u).map fun g => ⟨g, start, g.render⟩ := by
  by_cases hn : names = []
  · subst hn
    rfl
  · rw [expression?_of_ne hn, Option.bind_some, found?_expression hn]
    cases hg : read? names form u with
    | none => rfl
    | some g => exact congrArg some (Occurrence.ofFound_found (render_prefix_of_read? hg) start)

/-! ## As a whole -/

/-- Some tags are a partition of a text, together with the gaps between them. -/
structure Partition (names : List Text) (t : Text) (os : List Occurrence) : Prop where
  /-- A tag takes at least one character, and it is the slice of the text that it takes. -/
  inside : ∀ o ∈ os, o.start < o.stop ∧ o.stop ≤ t.length ∧ o.text = t.slice o.start o.stop
  /-- Each tag ends before those after it start. -/
  apart : os.Pairwise fun a b => a.stop ≤ b.start
  /-- The gaps and the tags are the whole text. -/
  lossless : (segments t os).flatMap Segment.text = t
  /-- A tag is what the expression for the text matches where it starts. -/
  matched : ∀ o ∈ os, ((expression? names (formFor names t)).bind fun p =>
    p.found? o.start (t.drop o.start)).map Occurrence.ofFound = some o
  /-- Nowhere else does the expression match, except inside a tag. -/
  complete : ∀ i, (∀ o ∈ os, ¬ (o.start ≤ i ∧ i < o.stop)) →
    ((expression? names (formFor names t)).bind fun p => p.matchStart? (t.drop i)) = none

theorem placed_tagsIn (names : List Text) (t : Text) : Placed t 0 (tagsIn names t) := by
  by_cases hn : names = []
  · rw [tagsIn, if_pos hn]
    exact .nil (Nat.zero_le _)
  · rw [tagsIn, if_neg hn]
    exact placed_scan hn t

theorem partition_tagsIn (names : List Text) (t : Text) : Partition names t (tagsIn names t) := by
  have hscanned := scanned_tagsIn names t
  have hplaced := placed_tagsIn names t
  refine ⟨fun o ho => ?_, hplaced.pairwise_stop, hplaced.text_segmentsFrom, fun o ho => ?_,
    fun i hout => ?_⟩
  · exact ⟨hplaced.start_lt_of_mem ho, hplaced.stop_le_of_mem ho, hplaced.text_of_mem ho⟩
  · obtain ⟨hread, htext⟩ := hscanned.of_mem ho
    rw [found?_expression?, read?_formFor, hread, Option.map_some, ← htext]
  · rw [matchStart?_expression?, read?_formFor, hscanned.unread (Nat.zero_le i) hout]
    rfl

/-- A partition is met step by step. -/
theorem Partition.scanned (h : Partition names t os) : Scanned names t 0 os := by
  refine scanned_of_unread (fun o ho => ⟨Nat.zero_le _, ?_⟩) h.apart fun i _ hout => ?_
  · have hmatched := h.matched o ho
    rw [found?_expression?, read?_formFor, Option.map_eq_some_iff] at hmatched
    obtain ⟨g, hread, heq⟩ := hmatched
    obtain ⟨tag, start, text⟩ := o
    cases heq
    exact ⟨hread, rfl⟩
  · have hnone := h.complete i hout
    rwa [matchStart?_expression?, read?_formFor, Option.map_eq_none_iff] at hnone

end Tag

/-- The tags of a text are its only partition, for any names, and they are what an expander finds
in it. -/
theorem scan_iff_partition (t : Text) :
    (∀ names os, Tag.tagsIn names t = os ↔ Tag.Partition names t os) ∧
    ∀ (e : Expander η) (w : World η σ) os,
      (e.scan t w).outcome = .ok os ↔ Tag.Partition (e.source.names w.registry) t os := by
  have hpartition : ∀ names os, Tag.tagsIn names t = os ↔ Tag.Partition names t os := by
    intro names os
    constructor
    · rintro rfl
      exact Tag.partition_tagsIn names t
    · exact fun h => Tag.tagsIn_eq_iff.mpr h.scanned
  refine ⟨hpartition, fun e w os => ?_⟩
  rw [scan_outcome, ← hpartition]
  exact ⟨Except.ok.inj, congrArg Except.ok⟩

end BracketTags
