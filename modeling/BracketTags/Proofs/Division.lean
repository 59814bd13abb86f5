import BracketTags.Proofs.Forms
import BracketTags.Proofs.Splicing

/-!
# The division of a text

A scan divides a text into gaps and tags.  `Tag.divide` is that division, also
for a text that stands at some offset, and it goes by the tags that can be read.

* At the end of the text there is an empty gap (`divide_nil`).
* A character where no tag can be read belongs to the gap (`divide_cons`).
* A tag that can be read ends the gap, and the division goes on after it
  (`divide_of_read?`).

`Tag.reading_induction` is the induction along these three.

*Gaps.*  In a gap no tag can be read, also none that would take text from the
tags and gaps after it (`isGap_of_divide`).
-/

namespace BracketTags

/-! ## Searches -/

namespace Pattern

variable {γ : Type} [DecidableEq γ] {p : Pattern γ}

/-- To skip characters is to start behind them. -/
theorem findFrom_eq_drop (skip start : Nat) (t : Text) :
    p.findFrom skip start t = p.findFrom 0 (start + skip) (t.drop skip) := by
  induction t generalizing skip start with
  | nil => rw [findFrom, List.drop_nil, findFrom]
  | cons c cs ih =>
      cases skip with
      | zero => rfl
      | succ skip => rw [findFrom, ih, List.drop_succ_cons, Nat.add_right_comm, Nat.add_assoc]

/-- A match stands where it is looked for, and it takes at least one character. -/
theorem start_of_found? {start : Nat} {t : Text} {m : Found γ} (h : p.found? start t = some m) :
    m.start = start ∧ 0 < m.whole.length := by
  rw [found?] at h
  split at h
  · split at h
    · cases h
    · next htaken =>
        cases h
        exact ⟨rfl, Nat.pos_of_ne_zero htaken⟩
  · cases h

/-- After a match the search goes on behind it. -/
theorem findFrom_of_found? {start : Nat} {t : Text} {m : Found γ} (ht : t ≠ [])
    (h : p.found? start t = some m) :
    p.findFrom 0 start t = m :: p.findFrom 0 m.stop (t.drop m.whole.length) := by
  obtain ⟨c, cs, rfl⟩ := List.exists_cons_of_ne_nil ht
  obtain ⟨rfl, hpos⟩ := start_of_found? h
  obtain ⟨n, hn⟩ := Nat.exists_eq_add_of_lt hpos
  rw [findFrom, h]
  dsimp only
  rw [findFrom_eq_drop, Found.stop, hn, Nat.add_sub_cancel, List.drop_succ_cons, Nat.zero_add,
    Nat.add_right_comm, Nat.add_assoc]

/-- A match that is found stands where the search starts or later. -/
theorem start_le_of_mem_findFrom {skip start : Nat} {t : Text} {m : Found γ}
    (h : m ∈ p.findFrom skip start t) : start ≤ m.start := by
  induction t generalizing skip start with
  | nil =>
      rw [findFrom] at h
      cases h
  | cons c cs ih =>
      cases skip with
      | succ skip =>
          rw [findFrom] at h
          exact Nat.le_of_succ_le (ih h)
      | zero =>
          rw [findFrom] at h
          cases hm : p.found? start (c :: cs) with
          | none =>
              rw [hm] at h
              exact Nat.le_of_succ_le (ih h)
          | some m' =>
              rw [hm] at h
              rcases List.mem_cons.mp h with rfl | h
              · exact Nat.le_of_eq (start_of_found? hm).1.symm
              · exact Nat.le_of_succ_le (ih h)

end Pattern

/-! ## Divisions -/

/-- Segments with one more character at the beginning of their first gap. -/
def prependChar (c : Char) : List Segment → List Segment
  | .gap u :: segs => .gap (c :: u) :: segs
  | segs => .gap [c] :: segs

theorem tag_mem_prependChar {c : Char} {segs : List Segment} {o : Occurrence} :
    .tag o ∈ prependChar c segs ↔ .tag o ∈ segs := by
  cases segs with
  | nil => simp [prependChar]
  | cons seg segs =>
      cases seg with
      | gap u => simp [prependChar]
      | tag o => simp [prependChar]

/-- A later start of the text gives the same segments, if all tags stand behind it. -/
theorem segmentsFrom_cons_char {start : Nat} {os : List Occurrence} (c : Char) (cs : Text)
    (h : ∀ o ∈ os, start + 1 ≤ o.start) :
    segmentsFrom start (c :: cs) os = prependChar c (segmentsFrom (start + 1) cs os) := by
  cases os with
  | nil => rfl
  | cons o os =>
      have hstart := h o List.mem_cons_self
      have hstop : start + 1 ≤ o.stop := Nat.le_trans hstart (Nat.le_add_right o.start _)
      rw [segmentsFrom, segmentsFrom, prependChar,
        show o.start - start = o.start - (start + 1) + 1 by omega,
        show o.stop - start = o.stop - (start + 1) + 1 by omega, List.take_succ_cons,
        List.drop_succ_cons]

namespace Tag

/-- The segments of a text that stands at offset `start`. -/
def divide (names : List Text) (start : Nat) (t : Text) : List Segment :=
  segmentsFrom start t (((expression names .full).findFrom 0 start t).map Occurrence.ofFound)

variable {names : List Text}

theorem read?_nil (names : List Text) (form : Form) : read? names form [] = none := by
  cases h : read? names form [] with
  | none => rfl
  | some g =>
      have hlen := (render_prefix_of_read? h).length_le
      rw [List.length_nil] at hlen
      exact absurd g.length_render_pos (Nat.not_lt.mpr hlen)

@[simp] theorem divide_nil (start : Nat) : divide names start [] = [.gap []] := by
  rw [divide, Pattern.findFrom, List.map_nil, segmentsFrom]

/-- The division of a whole text is that of its scan. -/
theorem segments_scan (hn : names ≠ []) (t : Text) :
    segments t (scan names t) = divide names 0 t := by
  rw [segments, scan, occurrences, findAll_formFor hn]
  rfl

theorem divide_cons (hn : names ≠ []) {c : Char} {cs : Text}
    (h : read? names .full (c :: cs) = none) (start : Nat) :
    divide names start (c :: cs) = prependChar c (divide names (start + 1) cs) := by
  rw [divide, Pattern.findFrom, found?_expression hn, h, Option.map_none]
  refine segmentsFrom_cons_char c cs fun o ho => ?_
  obtain ⟨m, hm, rfl⟩ := List.mem_map.mp ho
  exact Pattern.start_le_of_mem_findFrom hm

theorem divide_of_read? (hn : names ≠ []) {t : Text} {g : Tag}
    (h : read? names .full t = some g) (start : Nat) :
    divide names start t = .gap [] :: .tag ⟨g, start, g.render⟩ ::
      divide names (start + g.render.length) (t.drop g.render.length) := by
  have hpre := render_prefix_of_read? h
  cases t with
  | nil =>
      rw [read?_nil] at h
      cases h
  | cons c cs =>
      have hfound : (expression names .full).found? start (c :: cs) =
          some (g.found start (c :: cs)) := by
        rw [found?_expression hn, h, Option.map_some]
      rw [divide, Pattern.findFrom_of_found? (List.cons_ne_nil c cs) hfound, List.map_cons,
        Occurrence.ofFound_found hpre, segmentsFrom]
      simp only [Occurrence.stop, Nat.sub_self, List.take_zero, Nat.add_sub_cancel_left]
      rfl

/-- Induction along the tags that can be read.  The text after a tag is shorter, since a tag takes
at least one character. -/
@[elab_as_elim] theorem reading_induction (names : List Text) {P : Text → Prop} (nil : P [])
    (char : ∀ c cs, read? names .full (c :: cs) = none → P cs → P (c :: cs))
    (tag : ∀ t g, read? names .full t = some g → P (t.drop g.render.length) → P t) (t : Text) :
    P t := by
  induction hlen : t.length using Nat.strongRecOn generalizing t with
  | ind n ih =>
      cases t with
      | nil => exact nil
      | cons c cs =>
          cases hg : read? names .full (c :: cs) with
          | none =>
              refine char c cs hg (ih cs.length ?_ cs rfl)
              rw [← hlen, List.length_cons]
              exact Nat.lt_succ_self _
          | some g =>
              refine tag (c :: cs) g hg (ih _ ?_ _ rfl)
              have hpos := g.length_render_pos
              rw [← hlen, List.length_drop, List.length_cons]
              omega

end Tag

/-! ## The parts of a division -/

/-- A reading of segments as texts reads the character before them too. -/
theorem flatMap_prependChar {f : Segment → Text} (hgap : ∀ u, f (.gap u) = u) (c : Char)
    (segs : List Segment) : (prependChar c segs).flatMap f = c :: segs.flatMap f := by
  cases segs with
  | nil => simp [prependChar, hgap]
  | cons seg segs =>
      cases seg with
      | gap u => simp [prependChar, hgap]
      | tag o => simp [prependChar, hgap]

namespace Tag

variable {names : List Text} {t : Text} {start : Nat}

/-- A division begins with a gap. -/
theorem exists_divide_eq (hn : names ≠ []) (start : Nat) (t : Text) :
    ∃ u segs, divide names start t = .gap u :: segs := by
  induction t using reading_induction names generalizing start with
  | nil => exact ⟨[], [], divide_nil start⟩
  | char c cs h ih =>
      obtain ⟨u, segs, hdiv⟩ := ih (start + 1)
      exact ⟨c :: u, segs, by rw [divide_cons hn h, hdiv, prependChar]⟩
  | tag t g h ih => exact ⟨[], _, divide_of_read? hn h start⟩

/-- A division loses nothing. -/
theorem text_divide (hn : names ≠ []) (start : Nat) (t : Text) :
    (divide names start t).flatMap Segment.text = t := by
  induction t using reading_induction names generalizing start with
  | nil => simp [Segment.text]
  | char c cs h ih =>
      rw [divide_cons hn h, flatMap_prependChar (fun _ => rfl), ih]
  | tag t g h ih =>
      rw [divide_of_read? hn h, List.flatMap_cons, List.flatMap_cons, ih]
      have hpre := List.prefix_iff_eq_append.mp (render_prefix_of_read? h)
      simpa [Segment.text] using hpre

/-- Each tag of a division is read where it stands. -/
theorem read?_of_mem_divide (hn : names ≠ []) {o : Occurrence}
    (h : .tag o ∈ divide names start t) :
    o.text = o.tag.render ∧ ∃ u, u <:+ t ∧ read? names .full u = some o.tag := by
  induction t using reading_induction names generalizing start with
  | nil =>
      rw [divide_nil, List.mem_singleton] at h
      cases h
  | char c cs hread ih =>
      rw [divide_cons hn hread, tag_mem_prependChar] at h
      obtain ⟨htext, u, hu, hg⟩ := ih h
      exact ⟨htext, u, hu.trans (List.suffix_cons c cs), hg⟩
  | tag t g hread ih =>
      rw [divide_of_read? hn hread] at h
      rcases List.mem_cons.mp h with h | h
      · cases h
      · rcases List.mem_cons.mp h with h | h
        · cases h
          exact ⟨rfl, t, List.suffix_refl t, hread⟩
        · obtain ⟨htext, u, hu, hg⟩ := ih h
          exact ⟨htext, u, hu.trans (List.drop_suffix _ t), hg⟩

/-- Where no tag can be read there is one gap. -/
theorem divide_of_unread (hn : names ≠ []) (h : ∀ u, u <:+ t → read? names .full u = none)
    (start : Nat) : divide names start t = [.gap t] := by
  induction t generalizing start with
  | nil => exact divide_nil start
  | cons c cs ih =>
      have hcs := ih (fun u hu => h u (hu.trans (List.suffix_cons c cs))) (start + 1)
      rw [divide_cons hn (h _ (List.suffix_refl _)), hcs, prependChar]

/-! ## Gaps -/

/-- A text is a gap before the rest of a text: no tag can be read in it, and a name that ends with
it ends before the rest. -/
structure IsGap (names : List Text) (u rest : Text) : Prop where
  unread : ∀ x c v, u = x ++ c :: v → read? names .full (c :: (v ++ rest)) = none
  ends : nameEnds rest = true

theorem IsGap.cons {u rest : Text} {c : Char} (h : IsGap names u rest)
    (hread : read? names .full (c :: (u ++ rest)) = none) : IsGap names (c :: u) rest := by
  refine ⟨fun x d v hu => ?_, h.ends⟩
  cases x with
  | nil =>
      rw [List.nil_append, List.cons.injEq] at hu
      obtain ⟨rfl, rfl⟩ := hu
      exact hread
  | cons e x =>
      rw [List.cons_append, List.cons.injEq] at hu
      exact h.unread x d v hu.2

theorem isGap_nil {rest : Text} (h : nameEnds rest = true) : IsGap names [] rest :=
  ⟨fun x c v hu => absurd hu (by simp), h⟩

/-- The gaps of a division are gaps of the text, with all that follows them there. -/
theorem isGap_of_divide (hn : names ≠ []) {before after : List Segment} {u : Text}
    (h : divide names start t = before ++ .gap u :: after) :
    IsGap names u (after.flatMap Segment.text) := by
  induction t using reading_induction names generalizing start before u with
  | nil =>
      rw [divide_nil] at h
      cases before with
      | cons b before => simp at h
      | nil =>
          cases h
          exact isGap_nil rfl
  | char c cs hread ih =>
      obtain ⟨u₀, segs, hdiv⟩ := exists_divide_eq hn (start + 1) cs
      rw [divide_cons hn hread, hdiv, prependChar] at h
      cases before with
      | cons b before =>
          rw [List.cons_append, List.cons.injEq] at h
          have hrest : divide names (start + 1) cs = (.gap u₀ :: before) ++ .gap u :: after := by
            rw [hdiv, h.2, List.cons_append]
          exact ih hrest
      | nil =>
          cases h
          have hrest : divide names (start + 1) cs = [] ++ .gap u₀ :: after := hdiv
          have htext := text_divide hn (start + 1) cs
          rw [hdiv, List.flatMap_cons, Segment.text] at htext
          refine (ih hrest).cons ?_
          rw [htext]
          exact hread
  | tag t g hread ih =>
      rw [divide_of_read? hn hread] at h
      cases before with
      | nil =>
          cases h
          rw [List.flatMap_cons, Segment.text, render_eq]
          exact isGap_nil rfl
      | cons b before =>
          cases before with
          | nil => simp at h
          | cons b' before =>
              rw [List.cons_append, List.cons_append, List.cons.injEq, List.cons.injEq] at h
              exact ih h.2.2

end Tag

end BracketTags
