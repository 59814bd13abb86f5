import BracketTags.Proofs.Tokens
import Mathlib.Data.List.TakeWhile

/-!
# Choices

Which match is found depends on the order in which the choices of a pattern are
tried.  Which matches there can be does not.  A pattern *can take* a text before
another one if some of its choices match all of it (`Pattern.CanTake`).  The
relation has one rule for each way to go on, and no rule depends on greed.

Whatever order the choices are tried in, a match that is found is one that the
pattern can take (`Pattern.exists_canTake`).  So what can be said of all texts
that a pattern can take holds of its matches, no matter how often the matching
has gone back.

The captures of a match are exact: the source of a part is as long as the part at
least (`Pattern.Exact`).  The text of a group once more takes as many characters
as it says for that reason.
-/

namespace BracketTags

namespace Pattern

variable {γ : Type} [DecidableEq γ]

/-- The pattern can take the text `u` before the text `v` by some of its choices, and the captures
change. -/
inductive CanTake :
    Pattern γ → Text → Text → (γ → Option Capture) → (γ → Option Capture) → Prop where
  | empty {v : Text} {captures : γ → Option Capture} : CanTake .empty [] v captures captures
  | char {c : Char} {v : Text} {captures : γ → Option Capture} :
      CanTake (.char c) [c] v captures captures
  | one {cls : CharClass} {c : Char} {v : Text} {captures : γ → Option Capture}
      (hc : cls.has c = true) : CanTake (.one cls) [c] v captures captures
  | many {greed : Greed} {cls : CharClass} {u v : Text} {captures : γ → Option Capture}
      (hu : ∀ c ∈ u, cls.has c = true) : CanTake (.many greed cls) u v captures captures
  | seq {p q : Pattern γ} {u u' v : Text} {captures captures' captures'' : γ → Option Capture}
      (hp : CanTake p u (u' ++ v) captures captures') (hq : CanTake q u' v captures' captures'') :
      CanTake (.seq p q) (u ++ u') v captures captures''
  | first {p q : Pattern γ} {u v : Text} {captures captures' : γ → Option Capture}
      (hp : CanTake p u v captures captures') : CanTake (.alt p q) u v captures captures'
  | second {p q : Pattern γ} {u v : Text} {captures captures' : γ → Option Capture}
      (hq : CanTake q u v captures captures') : CanTake (.alt p q) u v captures captures'
  | present {p : Pattern γ} {u v : Text} {captures captures' : γ → Option Capture}
      (hp : CanTake p u v captures captures') : CanTake (.optional p) u v captures captures'
  | absent {p : Pattern γ} {v : Text} {captures : γ → Option Capture} :
      CanTake (.optional p) [] v captures captures
  | done {greed : Greed} {p : Pattern γ} {v : Text} {captures : γ → Option Capture} :
      CanTake (.star greed p) [] v captures captures
  | round {greed : Greed} {p : Pattern γ} {u u' v : Text}
      {captures captures' captures'' : γ → Option Capture}
      (hp : CanTake p u (u' ++ v) captures captures')
      (hrest : CanTake (.star greed p) u' v captures' captures'') :
      CanTake (.star greed p) (u ++ u') v captures captures''
  | group {g : γ} {p : Pattern γ} {u v : Text} {captures captures' : γ → Option Capture}
      (hp : CanTake p u v captures captures') :
      CanTake (.group g p) u v captures (keepPart g ⟨u ++ v, u.length⟩ captures')
  | again {g : γ} {part : Capture} {v : Text} {captures : γ → Option Capture}
      (hpart : captures g = some part) : CanTake (.again g) part.text v captures captures
  | notAhead {p : Pattern γ} {v : Text} {n : Nat} {captures : γ → Option Capture}
      (hp : attempt p some ⟨v, n, captures⟩ = none) : CanTake (.notAhead p) [] v captures captures
  | atEnd {captures : γ → Option Capture} : CanTake .atEnd [] [] captures captures

/-- The source of each part goes on to the end of the part. -/
def Exact (captures : γ → Option Capture) : Prop :=
  ∀ g part, captures g = some part → part.text.length = part.length

/-- The pattern leads from the state `s` to `s'` by a text that it can take. -/
def LeadsBy (p : Pattern γ) (next : Follow γ) (s s' : Progress γ) : Prop :=
  ∃ u v captures, s.rest = u ++ v ∧ CanTake p u v s.captures captures ∧ Exact captures ∧
    next ⟨v, s.taken + u.length, captures⟩ = some s'

section

variable {p q : Pattern γ} {cls : CharClass} {greed : Greed} {next next' : Follow γ}
  {s s' s'' : Progress γ} {captures : γ → Option Capture}

omit [DecidableEq γ] in
theorem Exact.none : Exact (fun _ : γ => Option.none) := nofun

theorem Exact.keepPart (h : Exact captures) (g : γ) (u v : Text) :
    Exact (keepPart g ⟨u ++ v, u.length⟩ captures) := by
  intro g' part hpart
  rw [Pattern.keepPart] at hpart
  split at hpart
  · cases hpart
    simp [Capture.text]
  · exact h g' part hpart

/-! ## Repetitions -/

/-- Characters of the class lead from a place in the text to the state `s'`. -/
def CharsLead (cls : CharClass) (next : Follow γ) (captures : γ → Option Capture) (t : Text)
    (n : Nat) (s' : Progress γ) : Prop :=
  ∃ u v, t = u ++ v ∧ (∀ c ∈ u, cls.has c = true) ∧ next ⟨v, n + u.length, captures⟩ = some s'

omit [DecidableEq γ] in
theorem CharsLead.nil {t : Text} {n : Nat} (h : next ⟨t, n, captures⟩ = some s') :
    CharsLead cls next captures t n s' :=
  ⟨[], t, rfl, nofun, h⟩

omit [DecidableEq γ] in
theorem CharsLead.cons {c : Char} {t : Text} {n : Nat} (hc : cls.has c = true)
    (h : CharsLead cls next captures t (n + 1) s') : CharsLead cls next captures (c :: t) n s' := by
  obtain ⟨u, v, rfl, hu, hnext⟩ := h
  refine ⟨c :: u, v, rfl, List.forall_mem_cons.mpr ⟨hc, hu⟩, ?_⟩
  rw [List.length_cons, Nat.add_comm u.length, ← Nat.add_assoc]
  exact hnext

omit [DecidableEq γ] in
theorem charsLead_of_mostChars {t : Text} {n : Nat}
    (h : mostChars cls next captures t n = some s') : CharsLead cls next captures t n s' := by
  induction t generalizing n with
  | nil => exact .nil h
  | cons c cs ih =>
      rw [mostChars] at h
      split at h
      · next hc =>
          split at h
          · next s₁ hmore =>
              cases h
              exact (ih hmore).cons hc
          · exact .nil h
      · exact .nil h

omit [DecidableEq γ] in
theorem charsLead_of_fewestChars {t : Text} {n : Nat}
    (h : fewestChars cls next captures t n = some s') : CharsLead cls next captures t n s' := by
  induction t generalizing n with
  | nil => exact .nil h
  | cons c cs ih =>
      rw [fewestChars] at h
      split at h
      · next s₁ hnext =>
          cases h
          exact .nil hnext
      · split at h
        · next hc => exact (ih h).cons hc
        · cases h

omit [DecidableEq γ] in
theorem charsLead_of_allChars {t : Text} {n : Nat}
    (h : allChars cls next captures t n = some s') : CharsLead cls next captures t n s' := by
  rw [allChars_eq] at h
  refine ⟨t.takeWhile cls.has, t.drop (t.takeWhile cls.has).length, ?_,
    fun c hc => List.mem_takeWhile_imp hc, h⟩
  exact (List.prefix_iff_eq_append.mp (List.takeWhile_prefix cls.has)).symm

/-- A repetition of characters leads on by characters of its class, whatever its greed. -/
theorem leadsBy_many (hs : Exact s.captures) (h : attempt (.many greed cls) next s = some s') :
    LeadsBy (.many greed cls) next s s' := by
  have hchars : CharsLead cls next s.captures s.rest s.taken s' := by
    cases greed with
    | greedy => exact charsLead_of_mostChars h
    | sparing => exact charsLead_of_fewestChars h
    | possessive => exact charsLead_of_allChars h
  obtain ⟨u, v, hrest, hu, hnext⟩ := hchars
  exact ⟨u, v, s.captures, hrest, .many hu, hs, hnext⟩

/-- What follows a pattern may be another pattern, which leads on from there. -/
theorem LeadsBy.append (h : LeadsBy p next' s s')
    (hq : ∀ r : Progress γ, Exact r.captures → next' r = some s' → LeadsBy q next r s') :
    ∃ u u' v captures captures', s.rest = u ++ u' ++ v ∧
      CanTake p u (u' ++ v) s.captures captures ∧ CanTake q u' v captures captures' ∧
      Exact captures' ∧ next ⟨v, s.taken + (u ++ u').length, captures'⟩ = some s' := by
  obtain ⟨u, _, captures, hrest, hp, hexact, hnext⟩ := h
  obtain ⟨u', v, captures', rfl, hq, hexact', hnext'⟩ := hq _ hexact hnext
  refine ⟨u, u', v, captures, captures', ?_, hp, hq, hexact', ?_⟩
  · rw [hrest, List.append_assoc]
  · rw [List.length_append, ← Nat.add_assoc]
    exact hnext'

theorem LeadsBy.done (hs : Exact s.captures) (h : next s = some s') :
    LeadsBy (.star greed p) next s s' :=
  ⟨[], s.rest, s.captures, rfl, .done, hs, h⟩

theorem LeadsBy.round (h : LeadsBy p next' s s')
    (hrest : ∀ r : Progress γ, Exact r.captures → next' r = some s' →
      LeadsBy (.star greed p) next r s') : LeadsBy (.star greed p) next s s' := by
  obtain ⟨u, u', v, _, captures, hs, hp, hstar, hexact, hnext⟩ := h.append hrest
  exact ⟨u ++ u', v, captures, hs, .round hp hstar, hexact, hnext⟩

/-- A repetition leads on by rounds, whatever its greed, if each round does. -/
theorem leadsBy_star
    (hp : ∀ {next : Follow γ} {s s' : Progress γ}, Exact s.captures → attempt p next s = some s' →
      LeadsBy p next s s')
    (hs : Exact s.captures) (h : attempt (.star greed p) next s = some s') :
    LeadsBy (.star greed p) next s s' := by
  cases greed with
  | greedy =>
      rw [attempt] at h
      generalize s.rest = bound at h
      induction bound generalizing s with
      | nil => exact .done hs h
      | cons c bound ih =>
          rw [mostRounds] at h
          split at h
          · next s₁ hround =>
              cases h
              exact (hp hs hround).round fun r hr hrest => ih hr hrest
          · exact .done hs h
  | sparing =>
      rw [attempt] at h
      generalize s.rest = bound at h
      induction bound generalizing s with
      | nil => exact .done hs h
      | cons c bound ih =>
          rw [fewestRounds] at h
          split at h
          · next s₁ hnext =>
              cases h
              exact .done hs hnext
          · exact (hp hs h).round fun r hr hrest => ih hr hrest
  | possessive =>
      rw [attempt] at h
      generalize s.rest = bound at h
      induction bound generalizing s with
      | nil => exact .done hs h
      | cons c bound ih =>
          rw [allRounds] at h
          split at h
          · next s₁ hround =>
              obtain ⟨u, v, captures, hrest, htake, hexact, hstate⟩ := hp hs hround
              cases hstate
              have hmore : LeadsBy p
                  (fun r => next (allRounds (attempt p some) bound r)) s s' :=
                ⟨u, v, captures, hrest, htake, hexact, h⟩
              exact hmore.round fun r hr hnext => ih hr hnext
          · exact .done hs h

/-! ## All patterns -/

/-- A match is one that the pattern can take, in whatever order the choices are tried. -/
theorem exists_canTake (hs : Exact s.captures) (h : attempt p next s = some s') :
    LeadsBy p next s s' := by
  induction p generalizing next s s' with
  | empty => exact ⟨[], s.rest, s.captures, rfl, .empty, hs, h⟩
  | char c =>
      rw [attempt] at h
      split at h
      · cases h
      · next d rest hrest =>
          split at h
          · next hd => exact ⟨[d], rest, s.captures, hrest, hd ▸ .char, hs, h⟩
          · cases h
  | one cls =>
      rw [attempt] at h
      split at h
      · cases h
      · next d rest hrest =>
          split at h
          · next hd => exact ⟨[d], rest, s.captures, hrest, .one hd, hs, h⟩
          · cases h
  | many greed cls => exact leadsBy_many hs h
  | seq p q ihp ihq =>
      rw [attempt] at h
      obtain ⟨u, u', v, _, captures, hrest, hp, hq, hexact, hnext⟩ :=
        (ihp hs h).append fun r hr hrest => ihq hr hrest
      exact ⟨u ++ u', v, captures, hrest, .seq hp hq, hexact, hnext⟩
  | alt p q ihp ihq =>
      rw [attempt] at h
      split at h
      · next s₁ hp =>
          cases h
          obtain ⟨u, v, captures, hrest, htake, hnext⟩ := ihp hs hp
          exact ⟨u, v, captures, hrest, .first htake, hnext⟩
      · obtain ⟨u, v, captures, hrest, htake, hnext⟩ := ihq hs h
        exact ⟨u, v, captures, hrest, .second htake, hnext⟩
  | optional p ih =>
      rw [attempt] at h
      split at h
      · next s₁ hp =>
          cases h
          obtain ⟨u, v, captures, hrest, htake, hnext⟩ := ih hs hp
          exact ⟨u, v, captures, hrest, .present htake, hnext⟩
      · exact ⟨[], s.rest, s.captures, rfl, .absent, hs, h⟩
  | star greed p ih => exact leadsBy_star ih hs h
  | group g p ih =>
      rw [attempt] at h
      obtain ⟨u, v, captures, hrest, htake, hexact, hnext⟩ := ih hs h
      have hkeep : s.keep g ⟨v, s.taken + u.length, captures⟩ =
          ⟨v, s.taken + u.length, keepPart g ⟨u ++ v, u.length⟩ captures⟩ := by
        rw [← hrest]
        simp only [Progress.keep, Nat.add_sub_cancel_left]
        rfl
      exact ⟨u, v, _, hrest, .group htake, hexact.keepPart g u v, hkeep ▸ hnext⟩
  | again g =>
      rw [attempt] at h
      split at h
      · cases h
      · next part hpart =>
          split at h
          · next rest hrest =>
              refine ⟨part.text, rest, s.captures, Text.dropStart?_eq_some_iff.mp hrest,
                .again hpart, hs, ?_⟩
              rw [hs g part hpart]
              exact h
          · cases h
  | notAhead p _ =>
      rw [attempt] at h
      split at h
      · cases h
      · next hp =>
          have hnone := Option.not_isSome_iff_eq_none.mp hp
          exact ⟨[], s.rest, s.captures, rfl, .notAhead hnone, hs, h⟩
  | atEnd =>
      rw [attempt] at h
      split at h
      · next hend =>
          obtain ⟨rest, taken, captures⟩ := s
          obtain rfl : rest = [] := List.isEmpty_iff.mp hend
          exact ⟨[], [], captures, rfl, .atEnd, hs, h⟩
      · cases h

/-- A match that is found is the beginning of the text, and it is one that the pattern can take. -/
theorem found?_eq_some {start : Nat} {t : Text} {m : Found γ} (h : p.found? start t = some m) :
    m.text.length = m.whole.length ∧ t = m.text ++ t.drop m.whole.length ∧
      CanTake p m.text (t.drop m.whole.length) (fun _ => none) m.captures := by
  rw [found?] at h
  split at h
  · next s hmatch =>
      split at h
      · cases h
      · cases h
        obtain ⟨u, v, captures, ht, htake, -, hend⟩ := exists_canTake Exact.none hmatch
        cases hend
        obtain rfl : t = u ++ v := ht
        simp only [Found.text, Capture.text, Progress.start, Nat.zero_add, List.take_left,
          List.drop_left]
        exact ⟨trivial, trivial, htake⟩
  · cases h

end

/-! ## Built patterns -/

section

variable {p : Pattern γ} {ps : List (Pattern γ)} {cls : CharClass} {u v : Text}
  {captures captures' : γ → Option Capture}

theorem CanTake.of_sequence_cons (h : CanTake (sequence (p :: ps)) u v captures captures') :
    ∃ u₁ u₂ captures₁, u = u₁ ++ u₂ ∧ CanTake p u₁ (u₂ ++ v) captures captures₁ ∧
      CanTake (sequence ps) u₂ v captures₁ captures' := by
  cases ps with
  | nil => exact ⟨u, [], captures', (List.append_nil u).symm, h, .empty⟩
  | cons q qs =>
      cases h with
      | seq hp hq => exact ⟨_, _, _, rfl, hp, hq⟩

theorem CanTake.of_choice (hps : ps ≠ []) (h : CanTake (choice ps) u v captures captures') :
    ∃ p ∈ ps, CanTake p u v captures captures' := by
  induction ps with
  | nil => exact absurd rfl hps
  | cons p ps ih =>
      cases ps with
      | nil => exact ⟨p, List.mem_cons_self, h⟩
      | cons q qs =>
          cases h with
          | first hp => exact ⟨p, List.mem_cons_self, hp⟩
          | second hrest =>
              obtain ⟨r, hr, hr'⟩ := ih (List.cons_ne_nil q qs) hrest
              exact ⟨r, List.mem_cons_of_mem p hr, hr'⟩

theorem CanTake.of_many {greed : Greed} (h : CanTake (.many greed cls) u v captures captures') :
    (∀ c ∈ u, cls.has c = true) ∧ captures' = captures := by
  cases h with
  | many hu => exact ⟨hu, rfl⟩

theorem CanTake.of_oneOrMore (h : CanTake (oneOrMore cls) u v captures captures') :
    u ≠ [] ∧ (∀ c ∈ u, cls.has c = true) ∧ captures' = captures := by
  cases h with
  | seq hone hmany =>
      cases hone with
      | one hc =>
          obtain ⟨hrest, rfl⟩ := hmany.of_many
          exact ⟨List.cons_ne_nil _ _, List.forall_mem_cons.mpr ⟨hc, hrest⟩, rfl⟩

theorem CanTake.of_group {g : γ} (h : CanTake (.group g p) u v captures captures') :
    ∃ captures₁ part, part.text = u ∧ CanTake p u v captures captures₁ ∧
      captures' = keepPart g part captures₁ := by
  cases h with
  | group hp => exact ⟨_, _, by simp [Capture.text], hp, rfl⟩

end

end Pattern

end BracketTags
