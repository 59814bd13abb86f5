import BracketTags.Proofs.Division
import BracketTags.Proofs.Openings
import BracketTags.Proofs.Passes

/-!
# Passes at an offset

A tag at another offset is answered in the same way, unless it has no handler.
Only then its offset is told, in the event or in the error.

So where every name has a handler and no call takes one away, a pass over the
segments of a text does the same wherever the text stands
(`replaceAll_divide_offset`).  The induction goes along the tags that can be
read, and at each of them the world goes on having the handlers.
-/

namespace BracketTags

variable {η σ : Type}

/-! ## Handlers that stay -/

/-- The source has a handler for each of the names, when the registry is `r`. -/
def Source.HasAll (s : Source η) (names : List Text) (r : Registry η) : Prop :=
  ∀ name ∈ names, s.get? r name ≠ none

theorem Source.hasAll_names (s : Source η) (r : Registry η) : s.HasAll (s.names r) r := by
  intro name hname hnone
  cases s with
  | live => exact OrderedMap.find?_eq_none_iff.mp hnone hname
  | frozen s => exact OrderedMap.find?_eq_none_iff.mp hnone hname

/-- No source has the empty name. -/
theorem Source.nil_notMem_names (s : Source η) (r : Registry η) : [] ∉ s.names r := by
  cases s with
  | live => exact r.nil_notMem
  | frozen s => exact s.nil_notMem

/-- No call takes away a handler that the expander finds. -/
def Behaviour.KeepsHandlers (act : Behaviour η σ) (e : Expander η) : Prop :=
  ∀ h c w name, e.source.get? w.registry name ≠ none →
    e.source.get? (act h c w).world.registry name ≠ none

/-- Calls that leave the world as it is take no handler away. -/
theorem Behaviour.keepsHandlers_of_world_eq {act : Behaviour η σ} {e : Expander η}
    (h : ∀ x c w, (act x c w).world = w) : act.KeepsHandlers e := by
  intro x c w name hget
  rw [h]
  exact hget

theorem Behaviour.KeepsHandlers.hasAll {act : Behaviour η σ} {e : Expander η}
    (hkeep : act.KeepsHandlers e) {names : List Text} {h : η} {c : Call} {w w' : World η σ}
    {outcome : Except Error (Reply η σ)} {events : List Event}
    (hcall : act h c w = ⟨outcome, w', events⟩) (hw : e.source.HasAll names w.registry) :
    e.source.HasAll names w'.registry := by
  intro name hname
  have hget := hkeep h c w name (hw name hname)
  rw [hcall] at hget
  exact hget

/-! ## One tag -/

section Tag

variable {act : Behaviour η σ} {e : Expander η} {strict : Bool} {names : List Text}
  {w w' : World η σ} {calls : List (η × Call)} {out : Except Error Text} {events : List Event}

theorem Answers.hasAll {o : Occurrence} (h : Answers act e strict o w calls out w' events)
    (hkeep : act.KeepsHandlers e) (hw : e.source.HasAll names w.registry) :
    e.source.HasAll names w'.registry := by
  cases h with
  | escaped hesc => exact hw
  | unhandled hesc hget hstrict => exact hw
  | missing hesc hget hstrict => exact hw
  | value hesc hget hcall => exact hkeep.hasAll hcall hw
  | awaitable hesc hget hcall => exact hkeep.hasAll hcall hw
  | failed hesc hget hcall => exact hkeep.hasAll hcall hw

/-- A tag that has a handler is answered in the same way at another offset. -/
theorem Answers.offset {g : Tag} {start : Nat} {u : Text}
    (h : Answers act e strict ⟨g, start, u⟩ w calls out w' events)
    (hget : e.source.get? w.registry g.name ≠ none) (start' : Nat) :
    Answers act e strict ⟨g, start', u⟩ w calls out w' events := by
  cases h with
  | escaped hesc => exact .escaped hesc
  | unhandled hesc hnone hstrict => exact absurd hnone hget
  | missing hesc hnone hstrict => exact absurd hnone hget
  | value hesc hsome hcall => exact .value hesc hsome hcall
  | awaitable hesc hsome hcall => exact .awaitable hesc hsome hcall
  | failed hesc hsome hcall => exact .failed hesc hsome hcall

end Tag

/-! ## Segments -/

section Segments

variable {act : Behaviour η σ} {e : Expander η} {strict : Bool} {names : List Text}

theorem replaceAll_prependChar (c : Char) (segs : List Segment) :
    Expander.replaceAll act e strict (prependChar c segs) =
      (c :: ·) <$> Expander.replaceAll act e strict segs := by
  cases segs with
  | nil => rfl
  | cons seg segs =>
      cases seg with
      | gap u =>
          rw [prependChar, Expander.replaceAll, Expander.replaceAll, Functor.map_map]
          rfl
      | tag o => rfl

/-- A text that begins with a tag is replaced tag first. -/
theorem replaceAll_divide_of_read? (hn : names ≠ []) {t : Text} {g : Tag}
    (h : Tag.read? names .full t = some g) (start : Nat) :
    Expander.replaceAll act e strict (Tag.divide names start t) =
      Expander.replacement act e strict ⟨g, start, g.render⟩ >>= fun r =>
        (r ++ ·) <$> Expander.replaceAll act e strict
          (Tag.divide names (start + g.render.length) (t.drop g.render.length)) := by
  rw [Tag.divide_of_read? hn h, Expander.replaceAll, Expander.replaceAll]
  exact Run.id_map _

/-- The segments of a text are replaced in the same way at another offset, where every name has a
handler and no call takes one away. -/
theorem replaceAll_divide_offset (hn : names ≠ []) (hkeep : act.KeepsHandlers e) (t : Text)
    (start start' : Nat) {w : World η σ} (hw : e.source.HasAll names w.registry) :
    Expander.replaceAll act e strict (Tag.divide names start t) w =
      Expander.replaceAll act e strict (Tag.divide names start' t) w := by
  induction t using Tag.reading_induction names generalizing start start' w with
  | nil => rw [Tag.divide_nil, Tag.divide_nil]
  | char c cs h ih =>
      rw [Tag.divide_cons hn h, Tag.divide_cons hn h, replaceAll_prependChar,
        replaceAll_prependChar]
      exact Run.map_congr (ih _ _ hw) _
  | tag t g h ih =>
      rw [replaceAll_divide_of_read? hn h, replaceAll_divide_of_read? hn h]
      obtain ⟨calls, out, w', events, answers⟩ :=
        exists_answers act e strict ⟨g, start, g.render⟩ w
      have hanswer := answers.replacement
      have hanswer' :=
        (answers.offset (hw g.name (Tag.name_mem_of_read? h)) start').replacement
      cases out with
      | error err => rw [Run.bind_error hanswer, Run.bind_error hanswer']
      | ok r =>
          rw [Run.bind_ok hanswer, Run.bind_ok hanswer']
          exact congrArg (Result.after _) (Run.map_congr (ih _ _ (answers.hasAll hkeep hw)) _)

/-- Stripping leaves the same of a text at another offset. -/
theorem flatMap_strippedText_offset (hn : names ≠ []) (t : Text) (start start' : Nat) :
    (Tag.divide names start t).flatMap Segment.strippedText =
      (Tag.divide names start' t).flatMap Segment.strippedText := by
  induction t using Tag.reading_induction names generalizing start start' with
  | nil => rw [Tag.divide_nil, Tag.divide_nil]
  | char c cs h ih =>
      rw [Tag.divide_cons hn h, Tag.divide_cons hn h, flatMap_prependChar (fun _ => rfl),
        flatMap_prependChar (fun _ => rfl), ih]
  | tag t g h ih =>
      rw [Tag.divide_of_read? hn h, Tag.divide_of_read? hn h]
      simp only [List.flatMap_cons]
      rw [ih _ (start' + g.render.length)]
      rfl

end Segments

end BracketTags
