import BracketTags.Pass.Expander

/-!
# Runs step by step

A run that gives a value goes on with what depends on it, and the events of
both follow each other (`Run.bind_ok`).  A run that fails stops there
(`Run.bind_error`).  So runs are a lawful monad, and what a pass does can be
rewritten by its laws.
-/

namespace BracketTags

variable {η σ α β γ : Type}

/-- The result of a run that comes after some events. -/
def Result.after (events : List Event) (r : Result η σ α) : Result η σ α :=
  { r with events := events ++ r.events }

@[simp] theorem Result.after_mk (events more : List Event) (outcome : Except Error α)
    (w : World η σ) :
    (Result.mk outcome w more).after events = ⟨outcome, w, events ++ more⟩ := rfl

@[simp] theorem Result.after_nil (r : Result η σ α) : r.after [] = r := rfl

theorem Result.after_after (first second : List Event) (r : Result η σ α) :
    (r.after second).after first = r.after (first ++ second) := by
  simp [Result.after]

namespace Run

variable {x : Run η σ α} {w w' : World η σ} {a : α} {events : List Event} {err : Error}

/-! ## Sequence -/

@[simp] theorem pure_apply (a : α) (w : World η σ) : (Pure.pure a : Run η σ α) w = ⟨.ok a, w, []⟩ :=
  rfl

theorem bind_ok (h : x w = ⟨.ok a, w', events⟩) (f : α → Run η σ β) :
    (x >>= f) w = (f a w').after events := by
  show Run.bind x f w = _
  simp only [Run.bind, h]
  rfl

theorem bind_error (h : x w = ⟨.error err, w', events⟩) (f : α → Run η σ β) :
    (x >>= f) w = ⟨.error err, w', events⟩ := by
  show Run.bind x f w = _
  simp only [Run.bind, h]

theorem map_ok (h : x w = ⟨.ok a, w', events⟩) (f : α → β) :
    (f <$> x) w = ⟨.ok (f a), w', events⟩ := by
  show Run.map f x w = _
  simp only [Run.map, h]

theorem map_error (h : x w = ⟨.error err, w', events⟩) (f : α → β) :
    (f <$> x) w = ⟨.error err, w', events⟩ := by
  show Run.map f x w = _
  simp only [Run.map, h]

theorem map_after {y : Run η σ α} {w₀ : World η σ} (h : x w = (y w₀).after events) (f : α → β) :
    (f <$> x) w = ((f <$> y) w₀).after events := by
  cases hy : y w₀ with
  | mk outcome w' more =>
      rw [hy, Result.after_mk] at h
      cases outcome with
      | ok a => rw [map_ok h, map_ok hy, Result.after_mk]
      | error err => rw [map_error h, map_error hy, Result.after_mk]

/-- What becomes of the value of a run makes no difference to its events. -/
theorem events_map (f : α → β) (x : Run η σ α) (w : World η σ) :
    ((f <$> x) w).events = (x w).events := by
  cases h : x w with
  | mk outcome w' events =>
      cases outcome with
      | ok a => rw [map_ok h]
      | error err => rw [map_error h]

theorem map_congr {y : Run η σ α} (h : x w = y w) (f : α → β) : (f <$> x) w = (f <$> y) w := by
  have hafter : x w = (y w).after [] := by rw [h, Result.after_nil]
  exact map_after hafter f

/-- What becomes of the value of a run depends on nothing else of it. -/
theorem outcome_map_congr {y : Run η σ α} {w' : World η σ} (h : (x w).outcome = (y w').outcome)
    (f : α → β) : ((f <$> x) w).outcome = ((f <$> y) w').outcome := by
  cases hx : x w with
  | mk outcome w₁ events =>
      cases hy : y w' with
      | mk outcome' w₂ events' =>
          rw [hx, hy] at h
          obtain rfl : outcome = outcome' := h
          cases outcome with
          | ok a => rw [map_ok hx, map_ok hy]
          | error err => rw [map_error hx, map_error hy]

/-! ## Laws -/

theorem bind_pure_comp (f : α → β) (x : Run η σ α) :
    (x >>= fun a => Pure.pure (f a)) = f <$> x := by
  funext w
  cases h : x w with
  | mk outcome w' events =>
      cases outcome with
      | ok a => rw [bind_ok h, map_ok h, pure_apply, Result.after_mk, List.append_nil]
      | error err => rw [bind_error h, map_error h]

theorem id_map (x : Run η σ α) : id <$> x = x := by
  funext w
  cases h : x w with
  | mk outcome w' events =>
      cases outcome with
      | ok a => exact map_ok h id
      | error err => exact map_error h id

theorem bind_assoc (x : Run η σ α) (f : α → Run η σ β) (g : β → Run η σ γ) :
    x >>= f >>= g = x >>= fun a => f a >>= g := by
  funext w
  cases h : x w with
  | mk outcome w' events =>
      cases outcome with
      | error err => rw [bind_error h, bind_error (bind_error h f)]
      | ok a =>
          have hf := bind_ok h f
          rw [bind_ok h]
          cases h' : f a w' with
          | mk outcome w'' more =>
              rw [h', Result.after_mk] at hf
              cases outcome with
              | ok b => rw [bind_ok hf, bind_ok h', Result.after_after]
              | error err => rw [bind_error hf, bind_error h', Result.after_mk]

instance : LawfulMonad (Run η σ) :=
  LawfulMonad.mk' _ id_map (fun _ _ => funext fun _ => rfl) bind_assoc (fun _ _ => rfl)
    (fun _ _ => rfl) (fun _ _ => rfl) bind_pure_comp (fun _ _ => rfl)

end Run

end BracketTags
