import BracketTags.Proofs.Encodings

/-!
# What decoding does to the length of a text

An escape takes a backslash and at least one character more, and it stands for
a single one.  So a text gets shorter by decoding wherever an escape stands in it,
and that is wherever a backslash stands before another character.

*Induction.*  The decoder meets a character that is no backslash, an escape, or a
backslash at the end of the text (`unescape_induction`).

*Length.*  A text is never longer after decoding.  It is shorter exactly if a
backslash stands before its last character
(`Text.length_unescape_lt_iff`).  So no mixture of escapes decodes to the text
it is written as, and only text without escapes stays as it is.
-/

namespace BracketTags

/-! ## Escapes -/

/-- An escape takes at least one character after the backslash, and no more than there are. -/
theorem length_of_escape? {t : Text} {c : Char} {n : Nat} (h : escape? t = some (c, n)) :
    0 < n ∧ n ≤ t.length := by
  cases t with
  | nil => cases h
  | cons d ds =>
      rw [escape?] at h
      split at h
      · have hle := length_leadingDigits_le_length 16 2 ds
        dsimp only at h
        split at h
        · cases h
          simp
        · cases h
          exact ⟨Nat.succ_pos _, Nat.succ_le_succ hle⟩
      · have hle := length_leadingDigits_le_length 8 3 (d :: ds)
        dsimp only at h
        split at h
        · cases h
          simp
        · next hne =>
            cases h
            exact ⟨List.length_pos_iff.mpr (by simpa using hne), hle⟩

/-- Any character begins an escape. -/
theorem exists_escape?_cons (d : Char) (ds : Text) : ∃ p, escape? (d :: ds) = some p := by
  rw [escape?]
  dsimp only
  split
  · split <;> exact ⟨_, rfl⟩
  · split <;> exact ⟨_, rfl⟩

/-- A text is taken apart as the decoder does. -/
theorem unescape_induction {P : Text → Prop} (nil : P []) (lone : P ['\\'])
    (plain : ∀ c t, c ≠ '\\' → P t → P (c :: t))
    (escape : ∀ c n t, escape? t = some (c, n) → P (t.drop n) → P ('\\' :: t)) (t : Text) :
    P t := by
  induction hlen : t.length using Nat.strongRecOn generalizing t with
  | ind len ih =>
      cases t with
      | nil => exact nil
      | cons c t =>
          rw [List.length_cons] at hlen
          by_cases hc : c = '\\'
          · subst hc
            cases t with
            | nil => exact lone
            | cons d ds =>
                obtain ⟨⟨e, n⟩, hescape⟩ := exists_escape?_cons d ds
                refine escape e n _ hescape (ih _ ?_ _ rfl)
                rw [List.length_drop]
                omega
          · exact plain c t hc (ih _ (by omega) t rfl)

/-! ## Length -/

namespace Text

theorem length_unescape_le (t : Text) : t.unescape.length ≤ t.length := by
  induction t using unescape_induction with
  | nil => exact Nat.le_refl 0
  | lone => exact Nat.le_refl 1
  | plain c t hc ih =>
      rw [unescape_cons_of_ne hc]
      exact Nat.succ_le_succ ih
  | escape c n t hescape ih =>
      obtain ⟨hpos, hle⟩ := length_of_escape? hescape
      rw [List.length_drop] at ih
      rw [unescape_backslash hescape, List.length_cons, List.length_cons]
      omega

/-- An escape leaves one character of two or more. -/
theorem length_unescape_backslash_lt {c : Char} {n : Nat} {t : Text}
    (h : escape? t = some (c, n)) : (unescape ('\\' :: t)).length < ('\\' :: t).length := by
  obtain ⟨hpos, hle⟩ := length_of_escape? h
  have hrest := length_unescape_le (t.drop n)
  rw [List.length_drop] at hrest
  rw [unescape_backslash h, List.length_cons, List.length_cons]
  omega

/-- A text gets shorter exactly if a backslash stands before its last character. -/
theorem length_unescape_lt_iff (t : Text) :
    t.unescape.length < t.length ↔ '\\' ∈ t.dropLast := by
  induction t using unescape_induction with
  | nil => decide
  | lone => decide
  | plain c t hc ih =>
      rw [unescape_cons_of_ne hc, List.length_cons, List.length_cons, Nat.succ_lt_succ_iff, ih]
      cases t with
      | nil => simp
      | cons d ds => rw [List.dropLast_cons_cons, List.mem_cons, or_iff_right (Ne.symm hc)]
  | escape c n t hescape _ =>
      refine iff_of_true (length_unescape_backslash_lt hescape) ?_
      cases t with
      | nil => cases hescape
      | cons d ds => exact List.mem_cons_self

/-- A text without escapes stays as it is. -/
theorem unescape_eq_self {t : Text} (h : '\\' ∉ t.dropLast) : t.unescape = t := by
  induction t using unescape_induction with
  | nil => rfl
  | lone => rfl
  | plain c t hc ih =>
      rw [unescape_cons_of_ne hc, ih fun hmem => h ?_]
      cases t with
      | nil => cases hmem
      | cons d ds => exact List.mem_cons_of_mem c hmem
  | escape c n t hescape _ =>
      exact absurd ((length_unescape_lt_iff _).mp (length_unescape_backslash_lt hescape)) h

/-- The text with its escapes decoded.  A text in which there is no backslash at all is given back
at once. -/
def unescapeIfAny (t : Text) : Text := if '\\' ∈ t then t.unescape else t

end Text

/-- Decoding never makes a text longer, and something is left of a text that is not empty.  A text
changes, and then gets shorter, exactly if there is a backslash that is not its last character.  So
nothing is missed if a text without a backslash is not decoded. -/
theorem unescape_shortens (t : Text) :
    t.unescape.length ≤ t.length ∧
    (t.unescape = [] ↔ t = []) ∧
    (t.unescape = t ↔ '\\' ∉ t.dropLast) ∧
    (t.unescape.length < t.length ↔ '\\' ∈ t.dropLast) ∧
    t.unescapeIfAny = t.unescape := by
  have hself : t.unescape = t ↔ '\\' ∉ t.dropLast := by
    refine ⟨fun heq hmem => ?_, Text.unescape_eq_self⟩
    have hlt := (Text.length_unescape_lt_iff t).mpr hmem
    rw [heq] at hlt
    exact Nat.lt_irrefl _ hlt
  have hnil : t.unescape = [] ↔ t = [] := by
    refine ⟨fun heq => ?_, fun heq => by rw [heq]; rfl⟩
    by_contra hne
    exact Text.unescape_ne_nil hne heq
  refine ⟨Text.length_unescape_le t, hnil, hself, Text.length_unescape_lt_iff t, ?_⟩
  rw [Text.unescapeIfAny]
  split
  · rfl
  · next hnotMem => exact (hself.mpr fun hmem => hnotMem (List.dropLast_subset t hmem)).symm

example : Text.unescape "a\\".toList = "a\\".toList := by decide

end BracketTags
