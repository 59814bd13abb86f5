import BracketTags.Pattern.Matching

/-!
# Matching step by step

Three pieces for the matches of patterns.

*States.*  Most patterns move on by some characters and may keep them under a
name.  `Progress.skip` and `Progress.keepNext` are these two moves, and the
state after a match is made of them.

*Given texts.*  A character, a literal and the text of a group once more all
match one given text.  `Pattern.after` is what they do, so that a sequence of
them is one given text again (`after_append`).

*Cuts.*  `Text.cut?` splits a text around the first place where a part of it
stands.  It is the meaning of a repetition that stops before a given text.
-/

namespace BracketTags

/-! ## Given texts at the start -/

namespace Text

theorem append_prefix_iff {p q t : Text} :
    p ++ q <+: t ↔ p <+: t ∧ q <+: t.drop p.length := by
  constructor
  · rintro ⟨rest, rfl⟩
    refine ⟨⟨q ++ rest, by simp⟩, ⟨rest, ?_⟩⟩
    simp [List.append_assoc]
  · rintro ⟨⟨u, rfl⟩, ⟨rest, h⟩⟩
    rw [List.drop_left] at h
    exact ⟨rest, by rw [← h, List.append_assoc]⟩

theorem dropStart?_of_start {part t : Text} (h : part <+: t) :
    dropStart? part t = some (t.drop part.length) := by
  obtain ⟨rest, rfl⟩ := h
  rw [dropStart?_eq_some_iff, List.drop_left]

theorem dropStart?_eq_none_iff {part t : Text} : dropStart? part t = none ↔ ¬ part <+: t := by
  constructor
  · intro h hp
    rw [dropStart?_of_start hp] at h
    cases h
  · intro h
    cases hd : dropStart? part t with
    | none => rfl
    | some rest => exact absurd ⟨rest, (dropStart?_eq_some_iff.mp hd).symm⟩ h

theorem singleton_prefix_iff {c : Char} {t : Text} : [c] <+: t ↔ t.head? = some c := by
  cases t with
  | nil => simp
  | cons d ds => simp [eq_comm]

/-- The characters of a kind that a text begins with are followed by one of another kind. -/
theorem eq_false_of_drop_takeWhile {p : Char → Bool} {t : Text} {c : Char} {cs : Text}
    (h : t.drop (t.takeWhile p).length = c :: cs) : p c = false := by
  induction t with
  | nil => cases h
  | cons d ds ih =>
      by_cases hd : p d = true
      · rw [List.takeWhile_cons_of_pos hd] at h
        exact ih h
      · rw [List.takeWhile_cons_of_neg hd] at h
        cases h
        exact Bool.eq_false_iff.mpr hd

/-! ## Cuts -/

/-- The texts before and after the first place where a part stands, if it occurs. -/
def cut? (part : Text) : Text → Option (Text × Text)
  | [] => (dropStart? part []).map fun rest => ([], rest)
  | c :: cs =>
      match dropStart? part (c :: cs) with
      | some rest => some ([], rest)
      | none => (cut? part cs).map fun p => (c :: p.1, p.2)

theorem cut?_of_start {part t : Text} (h : part <+: t) :
    cut? part t = some ([], t.drop part.length) := by
  cases t with
  | nil => rw [cut?, dropStart?_of_start h, Option.map_some]
  | cons c cs => simp only [cut?, dropStart?_of_start h]

theorem cut?_cons {part : Text} {c : Char} {cs : Text} (h : ¬ part <+: c :: cs) :
    cut? part (c :: cs) = (cut? part cs).map fun p => (c :: p.1, p.2) := by
  simp only [cut?, dropStart?_eq_none_iff.mpr h]

theorem cut?_eq_some_iff_of_start {part t u v : Text} (h : part <+: t) :
    cut? part t = some (u, v) ↔
      t = u ++ (part ++ v) ∧ ∀ k < u.length, ¬ part <+: t.drop k := by
  rw [cut?_of_start h]
  constructor
  · intro he
    cases he
    obtain ⟨rest, hr⟩ := h
    refine ⟨?_, by simp⟩
    rw [← hr, List.drop_left, List.nil_append]
  · rintro ⟨he, hfirst⟩
    cases u with
    | nil => rw [he, List.nil_append, List.drop_left]
    | cons d u => exact absurd h (hfirst 0 (by simp))

/-- A cut falls at the first place where the part stands. -/
theorem cut?_eq_some_iff {part t u v : Text} :
    cut? part t = some (u, v) ↔
      t = u ++ (part ++ v) ∧ ∀ k < u.length, ¬ part <+: t.drop k := by
  induction t generalizing u with
  | nil =>
      by_cases h : part <+: []
      · exact cut?_eq_some_iff_of_start h
      · rw [cut?, dropStart?_eq_none_iff.mpr h]
        constructor
        · intro he
          cases he
        · rintro ⟨he, -⟩
          obtain ⟨-, he⟩ := List.append_eq_nil_iff.mp he.symm
          exact absurd (List.prefix_nil.mpr (List.append_eq_nil_iff.mp he).1) h
  | cons c cs ih =>
      by_cases h : part <+: c :: cs
      · exact cut?_eq_some_iff_of_start h
      · rw [cut?_cons h]
        constructor
        · intro he
          obtain ⟨⟨u', v'⟩, hp, he⟩ := Option.map_eq_some_iff.mp he
          cases he
          obtain ⟨hcs, hfirst⟩ := ih.mp hp
          refine ⟨by rw [hcs]; rfl, fun k hk => ?_⟩
          cases k with
          | zero => exact h
          | succ k => exact hfirst k (by simpa using hk)
        · rintro ⟨he, hfirst⟩
          cases u with
          | nil => exact absurd ⟨v, he.symm⟩ h
          | cons d u =>
              rw [List.cons_append, List.cons.injEq] at he
              obtain ⟨rfl, he⟩ := he
              rw [ih.mpr ⟨he, fun k hk => hfirst (k + 1) (by simpa using hk)⟩]
              rfl

/-- A text has no cut exactly when the part does not occur in it. -/
theorem cut?_eq_none_iff {part t : Text} : cut? part t = none ↔ ¬ part <:+: t := by
  induction t with
  | nil =>
      rw [cut?, Option.map_eq_none_iff, dropStart?_eq_none_iff, List.prefix_nil, List.infix_nil]
  | cons c cs ih =>
      rw [List.infix_cons_iff]
      by_cases h : part <+: c :: cs
      · simp [cut?_of_start h, h]
      · rw [cut?_cons h, Option.map_eq_none_iff, ih]
        simp [h]

/-- A cut stays where it is when a text goes on. -/
theorem cut?_append_of_some {part t u v : Text} (h : cut? part t = some (u, v)) (w : Text) :
    cut? part (t ++ w) = some (u, v ++ w) := by
  obtain ⟨rfl, hfirst⟩ := cut?_eq_some_iff.mp h
  refine cut?_eq_some_iff.mpr ⟨by simp, fun k hk hpre => hfirst k hk ?_⟩
  have hle : k ≤ (u ++ (part ++ v)).length := by
    rw [List.length_append]
    omega
  rw [List.drop_append_of_le_length hle] at hpre
  refine List.prefix_of_prefix_length_le hpre (List.prefix_append _ _) ?_
  simp only [List.length_drop, List.length_append]
  omega

end Text

/-! ## States -/

attribute [ext] Progress

namespace Progress

variable {γ : Type}

/-- The state after `n` more characters. -/
def skip (s : Progress γ) (n : Nat) : Progress γ := ⟨s.rest.drop n, s.taken + n, s.captures⟩

@[simp] theorem rest_skip (s : Progress γ) (n : Nat) : (s.skip n).rest = s.rest.drop n := rfl

@[simp] theorem taken_skip (s : Progress γ) (n : Nat) : (s.skip n).taken = s.taken + n := rfl

@[simp] theorem captures_skip (s : Progress γ) (n : Nat) : (s.skip n).captures = s.captures := rfl

@[simp] theorem skip_zero (s : Progress γ) : s.skip 0 = s := rfl

theorem skip_skip (s : Progress γ) (m n : Nat) : (s.skip m).skip n = s.skip (m + n) := by
  simp [skip, Nat.add_assoc]

variable [DecidableEq γ]

/-- The state after `n` more characters, which are kept under the name `g`. -/
def keepNext (s : Progress γ) (g : γ) (n : Nat) : Progress γ := s.keep g (s.skip n)

@[simp] theorem rest_keepNext (s : Progress γ) (g : γ) (n : Nat) :
    (s.keepNext g n).rest = s.rest.drop n := rfl

@[simp] theorem taken_keepNext (s : Progress γ) (g : γ) (n : Nat) :
    (s.keepNext g n).taken = s.taken + n := rfl

@[simp] theorem captures_keepNext (s : Progress γ) (g : γ) (n : Nat) (h : γ) :
    (s.keepNext g n).captures h = if h = g then some ⟨s.rest, n⟩ else s.captures h := by
  simp [keepNext, keep]

end Progress

namespace Pattern

variable {γ : Type}

/-! ## Given texts in a match -/

/-- What follows a given text. -/
def after (part : Text) (next : Follow γ) : Follow γ := fun s =>
  if part <+: s.rest then next (s.skip part.length) else none

theorem after_nil (next : Follow γ) : after [] next = next := by
  funext s
  simp [after]

theorem after_append (p q : Text) (next : Follow γ) :
    after (p ++ q) next = after p (after q next) := by
  funext s
  by_cases hp : p <+: s.rest
  · by_cases hq : q <+: s.rest.drop p.length
    · simp [after, Text.append_prefix_iff, hp, hq, Progress.skip_skip]
    · simp [after, Text.append_prefix_iff, hp, hq]
  · simp [after, Text.append_prefix_iff, hp]

variable [DecidableEq γ]

theorem attempt_char (c : Char) (next : Follow γ) : attempt (.char c) next = after [c] next := by
  funext s
  obtain ⟨rest, taken, captures⟩ := s
  cases rest with
  | nil => simp [attempt, after]
  | cons d ds =>
      by_cases h : d = c
      · simp [attempt, after, h, Progress.step, Progress.skip]
      · simp [attempt, after, h, Ne.symm h]

theorem attempt_sequence_cons (p : Pattern γ) (ps : List (Pattern γ)) (next : Follow γ) :
    attempt (sequence (p :: ps)) next = attempt p (attempt (sequence ps) next) := by
  cases ps with
  | nil => rfl
  | cons q qs => rfl

theorem attempt_literal (t : Text) (next : Follow γ) : attempt (literal t) next = after t next := by
  induction t with
  | nil => exact (after_nil next).symm
  | cons c cs ih =>
      rw [literal, List.map_cons, attempt_sequence_cons, attempt_char]
      rw [literal] at ih
      rw [ih, ← after_append]
      rfl

/-- The text of a group once more is a given text wherever the group has one. -/
theorem attempt_again {g : γ} {s : Progress γ} {c : Capture} (next : Follow γ)
    (hc : s.captures g = some c) (hlen : c.text.length = c.length) :
    attempt (.again g) next s = after c.text next s := by
  by_cases h : c.text <+: s.rest
  · simp only [attempt, hc, Text.dropStart?_of_start h, after, if_pos h, Progress.skip, hlen]
  · simp only [attempt, hc, Text.dropStart?_eq_none_iff.mpr h, after, if_neg h]

/-! ## Choices -/

theorem attempt_optional (p : Pattern γ) (next : Follow γ) (s : Progress γ) :
    attempt (.optional p) next s = (attempt p next s).or (next s) := by
  rw [attempt]
  cases attempt p next s with
  | none => rfl
  | some s' => rfl

theorem attempt_alt (p q : Pattern γ) (next : Follow γ) (s : Progress γ) :
    attempt (.alt p q) next s = (attempt p next s).or (attempt q next s) := by
  rw [attempt]
  cases attempt p next s with
  | none => rfl
  | some s' => rfl

/-- A choice leads where the first of its patterns leads that leads anywhere. -/
theorem attempt_choice {ps : List (Pattern γ)} (hps : ps ≠ []) (next : Follow γ)
    (s : Progress γ) : attempt (choice ps) next s = ps.findSome? fun p => attempt p next s := by
  induction ps with
  | nil => exact absurd rfl hps
  | cons p ps ih =>
      cases ps with
      | nil =>
          rw [choice, List.findSome?_cons]
          cases attempt p next s with
          | none => rfl
          | some s' => rfl
      | cons q qs =>
          rw [choice, attempt_alt, List.findSome?_cons, ih (by simp)]
          · cases attempt p next s with
            | none => rfl
            | some s' => rfl
          · simp

/-! ## Repetitions of characters -/

omit [DecidableEq γ] in
/-- A possessive repetition goes to the first character that is not of the class. -/
theorem allChars_eq (cls : CharClass) (next : Follow γ) (captures : γ → Option Capture) (t : Text)
    (n : Nat) :
    allChars cls next captures t n =
      next (Progress.skip ⟨t, n, captures⟩ (t.takeWhile cls.has).length) := by
  induction t generalizing n with
  | nil => rfl
  | cons c cs ih =>
      by_cases h : cls.has c
      · rw [allChars, if_pos h, ih]
        simp [Progress.skip, h, Nat.add_assoc, Nat.add_comm 1]
      · rw [allChars, if_neg h]
        simp [h]

end Pattern

end BracketTags
