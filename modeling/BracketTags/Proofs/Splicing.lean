import BracketTags.Proofs.Expression

/-!
# Splicing

The tags of a scan stand one after another in the text (`Tag.placed_scan`).
So the text can be taken apart at the tags, and a pass puts it together again
with other texts in their places.

*Splices.*  `splice t 0 os rs` is the text with the replacements `rs` for the
tags `os`.  Between two of them it has the slice of `t` from the end of one tag
to the start of the next.

*Segments.*  The segments of a text are those slices and the tags themselves
(`segmentsFrom_cons`).  Each of them is cut from what the previous one leaves,
which is the slice of the whole text because the tags are in place.
-/

namespace BracketTags

/-! ## Tags in place -/

/-- The tags stand one after another in the text `t`, from offset `pos` on. -/
inductive Placed (t : Text) : Nat → List Occurrence → Prop where
  | nil {pos : Nat} : pos ≤ t.length → Placed t pos []
  | cons {pos : Nat} {o : Occurrence} {os : List Occurrence} :
      pos ≤ o.start → o.start < o.stop → o.text = t.slice o.start o.stop →
      Placed t o.stop os → Placed t pos (o :: os)

namespace Placed

variable {t : Text} {pos : Nat} {o : Occurrence} {os : List Occurrence}

theorem mono {pos' : Nat} (h : Placed t pos os) (hle : pos' ≤ pos) : Placed t pos' os := by
  cases h with
  | nil hpos => exact .nil (Nat.le_trans hle hpos)
  | cons hpos hlt htext hrest => exact .cons (Nat.le_trans hle hpos) hlt htext hrest

theorem tail (h : Placed t pos (o :: os)) : Placed t o.stop os := by
  cases h with
  | cons _ _ _ hrest => exact hrest

theorem pos_le_stop (h : Placed t pos (o :: os)) : pos ≤ o.stop := by
  cases h with
  | cons hpos hlt _ _ => exact Nat.le_trans hpos (Nat.le_of_lt hlt)

theorem text_of_mem (h : Placed t pos os) (ho : o ∈ os) : o.text = t.slice o.start o.stop := by
  induction h with
  | nil _ => cases ho
  | cons _ _ htext _ ih =>
      rcases List.mem_cons.mp ho with rfl | ho
      · exact htext
      · exact ih ho

theorem pos_le_of_mem (h : Placed t pos os) (ho : o ∈ os) : pos ≤ o.start := by
  induction h with
  | nil _ => cases ho
  | cons hpos hlt _ _ ih =>
      rcases List.mem_cons.mp ho with rfl | ho
      · exact hpos
      · exact Nat.le_trans hpos (Nat.le_trans (Nat.le_of_lt hlt) (ih ho))

theorem pos_le_length (h : Placed t pos os) : pos ≤ t.length := by
  induction h with
  | nil hpos => exact hpos
  | cons hpos hlt _ _ ih => exact Nat.le_trans hpos (Nat.le_trans (Nat.le_of_lt hlt) ih)

/-- The first ones of some tags in place are in place. -/
theorem left_of_append {os' : List Occurrence} (h : Placed t pos (os ++ os')) :
    Placed t pos os := by
  induction os generalizing pos with
  | nil => exact .nil h.pos_le_length
  | cons o os ih =>
      cases h with
      | cons hpos hlt htext hrest => exact .cons hpos hlt htext (ih hrest)

theorem right_of_append {os' : List Occurrence} (h : Placed t pos (os ++ os')) :
    Placed t pos os' := by
  induction os generalizing pos with
  | nil => exact h
  | cons o os ih => exact (ih h.tail).mono h.pos_le_stop

theorem start_lt_of_mem (h : Placed t pos os) (ho : o ∈ os) : o.start < o.stop := by
  induction h with
  | nil _ => cases ho
  | cons _ hlt _ _ ih =>
      rcases List.mem_cons.mp ho with rfl | ho
      · exact hlt
      · exact ih ho

theorem stop_le_of_mem (h : Placed t pos os) (ho : o ∈ os) : o.stop ≤ t.length := by
  induction h with
  | nil _ => cases ho
  | cons _ _ _ hrest ih =>
      rcases List.mem_cons.mp ho with rfl | ho
      · exact hrest.pos_le_length
      · exact ih ho

/-- Each tag ends before those that come after it start. -/
theorem pairwise_stop (h : Placed t pos os) : os.Pairwise fun a b => a.stop ≤ b.start := by
  induction h with
  | nil _ => exact .nil
  | cons _ _ _ hrest ih => exact .cons (fun b hb => hrest.pos_le_of_mem hb) ih

/-- Each tag starts before those that come after it. -/
theorem pairwise_start (h : Placed t pos os) : os.Pairwise fun a b => a.start < b.start := by
  induction h with
  | nil _ => exact .nil
  | cons _ hlt _ hrest ih =>
      exact .cons (fun b hb => Nat.lt_of_lt_of_le hlt (hrest.pos_le_of_mem hb)) ih

end Placed

namespace Tag

/-- A match of an expression stands where it was looked for. -/
theorem placed_found {g : Tag} {t : Text} {start : Nat} (h : g.render <+: t.drop start)
    {os : List Occurrence} (hos : Placed t (start + g.render.length) os) :
    Placed t start (Occurrence.ofFound (g.found start (t.drop start)) :: os) := by
  have hpos := g.length_render_pos
  rw [Occurrence.ofFound_found h]
  refine .cons (Nat.le_refl start) ?_ ?_ hos
  · simp only [Occurrence.stop]
    omega
  · simp only [Occurrence.stop, Text.slice, Nat.add_sub_cancel_left]
    exact List.prefix_iff_eq_take.mp h

/-- What an expression finds from offset `start` on is in place behind the characters that are
skipped.  A match leaves one character less to skip than it takes, as the scan moves on by one. -/
theorem placed_findFrom {names : List Text} (hn : names ≠ []) (form : Form) {t u : Text}
    {skip start : Nat} (hu : t.drop start = u) (hle : start + skip ≤ t.length) :
    Placed t (start + skip)
      (((expression names form).findFrom skip start u).map Occurrence.ofFound) := by
  induction u generalizing skip start with
  | nil =>
      rw [Pattern.findFrom]
      exact .nil hle
  | cons c cs ih =>
      have hcs : t.drop (start + 1) = cs := by
        rw [← List.drop_drop, hu, List.drop_one, List.tail_cons]
      cases skip with
      | succ skip =>
          rw [Pattern.findFrom, show start + (skip + 1) = start + 1 + skip by omega]
          exact ih hcs (by omega)
      | zero =>
          rw [Pattern.findFrom, found?_expression hn]
          cases hg : read? names form (c :: cs) with
          | none =>
              have hlt : start < t.length := by
                rw [← Nat.not_le, ← List.drop_eq_nil_iff, hu]
                exact List.cons_ne_nil c cs
              have hrest : Placed t (start + 1 + 0) _ := ih hcs (by omega)
              exact hrest.mono (by omega)
          | some g =>
              have hpos := g.length_render_pos
              have hpre : g.render <+: t.drop start := hu ▸ render_prefix_of_read? hg
              have hlen := hpre.length_le
              rw [List.length_drop] at hlen
              have hrest : Placed t (start + 1 + (g.render.length - 1)) _ := ih hcs (by omega)
              rw [show start + 1 + (g.render.length - 1) = start + g.render.length by omega]
                at hrest
              simp only [Option.map_some, List.map_cons, ← hu]
              exact placed_found hpre hrest

/-- The tags of a scan stand one after another in the text. -/
theorem placed_scan {names : List Text} (hn : names ≠ []) (t : Text) :
    Placed t 0 (scan names t) := by
  have hle : 0 + 0 ≤ t.length := Nat.zero_le _
  exact placed_findFrom hn (formFor names t) rfl hle

end Tag

/-! ## Splices -/

/-- The text `t` from offset `pos` on, with replacements for the tags in it. -/
def splice (t : Text) : (pos : Nat) → List Occurrence → List Text → Text
  | pos, o :: os, r :: rs => t.slice pos o.start ++ (r ++ splice t o.stop os rs)
  | pos, _, _ => t.drop pos

@[simp] theorem splice_nil (t : Text) (pos : Nat) (rs : List Text) :
    splice t pos [] rs = t.drop pos := rfl

@[simp] theorem splice_cons (t : Text) (pos : Nat) (o : Occurrence) (os : List Occurrence)
    (r : Text) (rs : List Text) :
    splice t pos (o :: os) (r :: rs) = t.slice pos o.start ++ (r ++ splice t o.stop os rs) := rfl

/-! ## Segments -/

/-- The segments from a tag on, cut from the whole text. -/
theorem segmentsFrom_cons {t : Text} {pos : Nat} {o : Occurrence} {os : List Occurrence}
    (h : Placed t pos (o :: os)) :
    segmentsFrom pos (t.drop pos) (o :: os) =
      .gap (t.slice pos o.start) :: .tag o :: segmentsFrom o.stop (t.drop o.stop) os := by
  rw [segmentsFrom, List.drop_drop, Nat.add_sub_cancel' h.pos_le_stop, Text.slice]

theorem Text.slice_append_drop {t : Text} {start stop : Nat} (h : start ≤ stop) :
    t.slice start stop ++ t.drop stop = t.drop start := by
  rw [slice, ← Nat.add_sub_cancel' h, ← List.drop_drop, Nat.add_sub_cancel_left,
    List.take_append_drop]

/-- The segments are all of the text, if its tags are in place. -/
theorem Placed.text_segmentsFrom {t : Text} {pos : Nat} {os : List Occurrence}
    (h : Placed t pos os) :
    (segmentsFrom pos (t.drop pos) os).flatMap Segment.text = t.drop pos := by
  induction h with
  | nil _ => simp [segmentsFrom, Segment.text]
  | @cons pos o os hpos hlt htext hrest ih =>
      rw [segmentsFrom_cons (.cons hpos hlt htext hrest), List.flatMap_cons, List.flatMap_cons, ih,
        Segment.text, Segment.text, htext, Text.slice_append_drop (Nat.le_of_lt hlt),
        Text.slice_append_drop hpos]

end BracketTags
