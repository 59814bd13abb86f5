import BracketTags.Proofs.Division
import BracketTags.Proofs.Passes

/-!
# Runs that yield a value

`Run.Yields P x a` says that the run `x` gives the value `a` in every world whose
registry has the property `P`, and leaves the property in place.  Runs that
yield are put together by the three rules of a monad.

A pass yields a text if its tags yield their replacements: an escaped tag yields
its text without the markers (`yields_replacement_escaped`), and any other tag
yields the answer of its handler (`yields_replacement`).  What happens to the
rest of the world does not matter.
-/

namespace BracketTags

variable {η σ α β : Type} {P : Registry η → Prop}

/-- The run gives the value wherever the registry has the property, and the registry has it
afterwards. -/
def Run.Yields (P : Registry η → Prop) (x : Run η σ α) (a : α) : Prop :=
  ∀ w, P w.registry → ∃ w' events, x w = ⟨.ok a, w', events⟩ ∧ P w'.registry

namespace Run.Yields

variable {x : Run η σ α} {a : α}

theorem pure (a : α) : (Pure.pure a : Run η σ α).Yields P a :=
  fun w hw => ⟨w, [], pure_apply a w, hw⟩

theorem bind {f : α → Run η σ β} {b : β} (hx : x.Yields P a) (hf : (f a).Yields P b) :
    (x >>= f).Yields P b := by
  intro w hw
  obtain ⟨w₁, events, happly, hw₁⟩ := hx w hw
  obtain ⟨w₂, more, happly₁, hw₂⟩ := hf w₁ hw₁
  exact ⟨w₂, events ++ more, by rw [bind_ok happly, happly₁, Result.after_mk], hw₂⟩

theorem map (f : α → β) (hx : x.Yields P a) : (f <$> x).Yields P (f a) := by
  intro w hw
  obtain ⟨w₁, events, happly, hw₁⟩ := hx w hw
  exact ⟨w₁, events, map_ok happly f, hw₁⟩

end Run.Yields

/-! ## Replacements -/

section Replacements

variable {act : Behaviour η σ} {e : Expander η} {strict : Bool} {o : Occurrence}

theorem yields_replacement_escaped (hesc : o.tag.isEscaped = true) :
    (Expander.replacement act e strict o).Yields P o.unescapedText := by
  intro w hw
  have answers : Answers act e strict o w [] (.ok o.unescapedText) w [] := .escaped hesc
  exact ⟨w, [], answers.replacement, hw⟩

/-- A tag that is not escaped yields the answer of its handler between its markers. -/
theorem yields_replacement {r : Text} (hesc : o.tag.isEscaped = false)
    (hcall : ∀ w, P w.registry → ∃ h v w' events,
      e.source.get? w.registry o.tag.name = some h ∧
      act h o.tag.call w = ⟨.ok (.value v), w', events⟩ ∧ v.toText = r ∧ P w'.registry) :
    (Expander.replacement act e strict o).Yields P (o.tag.withMarkers r) := by
  intro w hw
  obtain ⟨h, v, w', events, hget, happly, rfl, hw'⟩ := hcall w hw
  exact ⟨w', _, (Answers.value hesc hget happly).replacement, hw'⟩

/-- Segments yield the texts that their tags yield, with the gaps between them. -/
theorem yields_replaceAll {f : Occurrence → Text} {segs : List Segment}
    (h : ∀ o, .tag o ∈ segs → (Expander.replacement act e strict o).Yields P (f o)) :
    (Expander.replaceAll act e strict segs).Yields P
      (segs.flatMap fun
        | .gap u => u
        | .tag o => f o) := by
  induction segs with
  | nil => exact .pure []
  | cons seg segs ih =>
      have htail := ih fun o ho => h o (List.mem_cons_of_mem seg ho)
      cases seg with
      | gap u => exact htail.map (u ++ ·)
      | tag o => exact (h o List.mem_cons_self).bind (htail.map (f o ++ ·))

end Replacements

/-! ## Passes -/

section Pass

variable {act : Behaviour η σ} {e : Expander η} {t u : Text} {w : World η σ}

/-- A pass gives what the segments of its text yield. -/
theorem expand_of_yields (hn : e.source.names w.registry ≠ []) (hw : P w.registry)
    (h : ∀ strict, (Expander.replaceAll act e strict
      (Tag.divide (e.source.names w.registry) 0 t)).Yields P u) :
    ∃ w' events, e.expand act t w = ⟨.ok u, w', events⟩ ∧ P w'.registry := by
  obtain ⟨strict, w₀, first, hb⟩ := exists_begins t hn
  have hw₀ : P w₀.registry := by
    rw [hb.registry]
    exact hw
  obtain ⟨w', events, happly, hw'⟩ := h strict w₀ hw₀
  rw [← Tag.segments_scan hn] at happly
  exact ⟨w', first ++ events, by rw [hb.expand, happly, Result.after_mk], hw'⟩

end Pass

end BracketTags
