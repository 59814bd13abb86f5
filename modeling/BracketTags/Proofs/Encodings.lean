import BracketTags.Text.Escape
import Mathlib.Data.List.Forall2

/-!
# Encodings

A character can be written in several ways in a text whose escapes are decoded.
`Encodes` has one rule for each of them.  A text is written character by
character, and each character may be written in another way than the one before.

*Digits.*  A hexadecimal escape with two digits and an octal one with three have
as many as are read at most, so no digit after them is taken for theirs
(`leadingDigits_append`).

*Pieces.*  So a written character is decoded to that character, whatever stands
after it (`Encodes.unescape_append`).  The decoder goes on behind it, and what it
has decoded is not seen again.
-/

namespace BracketTags

/-! ## Digits -/

/-- The character is the hexadecimal digit of the number `n`, in either case. -/
def IsHexDigit (n : Nat) (c : Char) : Prop :=
  n < 16 ∧ (c = n.digitChar ∨ c = n.digitChar.toUpper)

instance (n : Nat) (c : Char) : Decidable (IsHexDigit n c) :=
  inferInstanceAs (Decidable (_ ∧ _))

theorem digitValue?_octal : ∀ {n : Nat}, n < 8 → digitValue? 8 n.digitChar = some n := by
  decide

theorem IsHexDigit.digitValue? {n : Nat} {c : Char} (h : IsHexDigit n c) :
    digitValue? 16 c = some n := by
  have hlower : ∀ k < 16, BracketTags.digitValue? 16 k.digitChar = some k := by decide
  have hupper : ∀ k < 16, BracketTags.digitValue? 16 k.digitChar.toUpper = some k := by decide
  obtain ⟨hn, rfl | rfl⟩ := h
  · exact hlower n hn
  · exact hupper n hn

/-- Only the eight digits are read in an octal escape. -/
theorem eq_digitChar_of_digitValue? {c : Char} {n : Nat} (h : digitValue? 8 c = some n) :
    n < 8 ∧ c = n.digitChar := by
  obtain ⟨hvalue, hn⟩ := Option.filter_eq_some_iff.mp h
  have hlt : n < 8 := of_decide_eq_true hn
  refine ⟨hlt, Char.toNat_inj.mp ?_⟩
  rw [Nat.toNat_digitChar_of_lt_ten (by omega)]
  split at hvalue
  · next hdigit =>
      have hle : '0'.toNat ≤ c.toNat := hdigit.1
      have hsub := Option.some.inj hvalue
      have hzero : '0'.toNat = 48 := rfl
      omega
  · split at hvalue
    · have hsum := Option.some.inj hvalue
      omega
    · split at hvalue
      · have hsum := Option.some.inj hvalue
        omega
      · cases hvalue

/-- As many digits as are read at most are read, whatever stands after them. -/
theorem leadingDigits_append {base : Nat} {u : Text} {ds : List Nat}
    (h : List.Forall₂ (fun c d => digitValue? base c = some d) u ds) (rest : Text) :
    leadingDigits base ds.length (u ++ rest) = ds := by
  induction h with
  | nil => rfl
  | @cons c d u ds hc _ ih => rw [List.cons_append, List.length_cons, leadingDigits, hc, ih]

/-! ## Pieces -/

/-- The letters that stand for control characters after a backslash, and these characters. -/
def controlLetters : List (Char × Char) :=
  [('a', '\x07'), ('b', '\x08'), ('f', '\x0c'), ('n', '\n'), ('r', '\r'), ('t', '\t'),
   ('v', '\x0b')]

/-- The character can be written as the piece of text. -/
inductive Encodes : Char → Text → Prop where
  | plain {c : Char} (hc : c ≠ '\\') : Encodes c [c]
  /-- A backslash stands before the character, which is not the beginning of another escape. -/
  | backslash {c : Char} (hc : c ∉ "abfnrtvx01234567".toList) : Encodes c ['\\', c]
  | letter {c l : Char} (hl : (l, c) ∈ controlLetters) : Encodes c ['\\', l]
  | hexadecimal {c h l : Char} {m n : Nat} (hm : IsHexDigit m h) (hn : IsHexDigit n l)
      (hc : c.toNat = 16 * m + n) : Encodes c ['\\', 'x', h, l]
  /-- The number counts modulo 256. -/
  | octal {c : Char} {k m n : Nat} (hk : k < 8) (hm : m < 8) (hn : n < 8)
      (hc : c.toNat = (64 * k + 8 * m + n) % 256) :
      Encodes c ['\\', k.digitChar, m.digitChar, n.digitChar]

namespace Text

@[simp] theorem unescape_nil : unescape [] = [] := rfl

theorem unescape_cons_of_ne {c : Char} (h : c ≠ '\\') (t : Text) :
    unescape (c :: t) = c :: unescape t := by
  rw [unescape, unescapeAfter, if_neg h]
  rfl

/-- An escape is decoded, and the decoder goes on behind it. -/
theorem unescape_backslash {c : Char} {n : Nat} {t : Text} (h : escape? t = some (c, n)) :
    unescape ('\\' :: t) = c :: unescape (t.drop n) := by
  rw [unescape, unescapeAfter, if_pos rfl, h]
  exact congrArg (c :: ·) (unescapeAfter_eq_unescape_drop n t)

/-- Decoding the escapes leaves something of a text that is not empty. -/
theorem unescape_ne_nil {t : Text} (h : t ≠ []) : t.unescape ≠ [] := by
  obtain ⟨c, cs, rfl⟩ := List.exists_cons_of_ne_nil h
  rw [unescape, unescapeAfter]
  split
  · split
    · exact List.cons_ne_nil _ _
    · exact List.cons_ne_nil _ _
  · exact List.cons_ne_nil _ _

end Text

/-! ## Escapes -/

section Escapes

variable {c : Char}

theorem letterEscape_of_notMem (h : c ∉ "abfnrtvx01234567".toList) : letterEscape c = c := by
  unfold letterEscape
  split
  all_goals first | rfl | exact absurd h (by decide)

theorem digitValue?_of_notMem (h : c ∉ "abfnrtvx01234567".toList) : digitValue? 8 c = none := by
  have hdigits : ∀ n < 8, Nat.digitChar n ∈ "abfnrtvx01234567".toList := by decide
  refine Option.eq_none_iff_forall_ne_some.mpr fun n hn => h ?_
  obtain ⟨hlt, rfl⟩ := eq_digitChar_of_digitValue? hn
  exact hdigits n hlt

/-- A character that begins no other escape stands for itself. -/
theorem escape?_of_notMem (h : c ∉ "abfnrtvx01234567".toList) (rest : Text) :
    escape? (c :: rest) = some (c, 1) := by
  have hx : c ≠ 'x' := by
    rintro rfl
    exact h (by decide)
  rw [escape?, if_neg hx, leadingDigits, digitValue?_of_notMem h, letterEscape_of_notMem h]
  rfl

theorem escape?_letter {l : Char} (h : (l, c) ∈ controlLetters) (rest : Text) :
    escape? (l :: rest) = some (c, 1) := by
  simp only [controlLetters, List.mem_cons, List.not_mem_nil, or_false, Prod.mk.injEq] at h
  rcases h with ⟨rfl, rfl⟩ | ⟨rfl, rfl⟩ | ⟨rfl, rfl⟩ | ⟨rfl, rfl⟩ | ⟨rfl, rfl⟩ | ⟨rfl, rfl⟩ |
    ⟨rfl, rfl⟩
  all_goals rfl

theorem escape?_hexadecimal {h l : Char} {m n : Nat} (hm : IsHexDigit m h) (hn : IsHexDigit n l)
    (hc : c.toNat = 16 * m + n) (rest : Text) :
    escape? ('x' :: h :: l :: rest) = some (c, 3) := by
  have hdigits : leadingDigits 16 2 (h :: l :: rest) = [m, n] :=
    leadingDigits_append (u := [h, l]) (.cons hm.digitValue? (.cons hn.digitValue? .nil)) rest
  have hvalue : ofDigits 16 [m, n] = c.toNat := by
    rw [hc, ofDigits]
    simp only [List.foldl_cons, List.foldl_nil]
    omega
  rw [escape?, if_pos rfl, hdigits]
  simp only [List.isEmpty_cons, Bool.false_eq_true, if_false, hvalue, Char.ofNat_toNat]
  rfl

theorem escape?_octal {k m n : Nat} (hk : k < 8) (hm : m < 8) (hn : n < 8)
    (hc : c.toNat = (64 * k + 8 * m + n) % 256) (rest : Text) :
    escape? (k.digitChar :: m.digitChar :: n.digitChar :: rest) = some (c, 3) := by
  have hx : k.digitChar ≠ 'x' := by
    have hall : ∀ j < 8, Nat.digitChar j ≠ 'x' := by decide
    exact hall k hk
  have hdigits : leadingDigits 8 3 (k.digitChar :: m.digitChar :: n.digitChar :: rest) =
      [k, m, n] :=
    leadingDigits_append (u := [k.digitChar, m.digitChar, n.digitChar])
      (.cons (digitValue?_octal hk) (.cons (digitValue?_octal hm)
        (.cons (digitValue?_octal hn) .nil))) rest
  have hvalue : ofDigits 8 [k, m, n] % 256 = c.toNat := by
    rw [hc, ofDigits]
    simp only [List.foldl_cons, List.foldl_nil]
    omega
  rw [escape?, if_neg hx, hdigits]
  simp only [List.isEmpty_cons, Bool.false_eq_true, if_false, hvalue, Char.ofNat_toNat]
  rfl

end Escapes

/-! ## Texts -/

/-- A written character is decoded, whatever stands after it. -/
theorem Encodes.unescape_append {c : Char} {piece : Text} (h : Encodes c piece) (rest : Text) :
    Text.unescape (piece ++ rest) = c :: Text.unescape rest := by
  cases h with
  | plain hc => exact Text.unescape_cons_of_ne hc rest
  | backslash hc => exact Text.unescape_backslash (escape?_of_notMem hc rest)
  | letter hl => exact Text.unescape_backslash (escape?_letter hl rest)
  | hexadecimal hm hn hc => exact Text.unescape_backslash (escape?_hexadecimal hm hn hc rest)
  | octal hk hm hn hc => exact Text.unescape_backslash (escape?_octal hk hm hn hc rest)

theorem unescape_flatten_append {t : Text} {pieces : List Text}
    (h : List.Forall₂ Encodes t pieces) (rest : Text) :
    Text.unescape (pieces.flatten ++ rest) = t ++ Text.unescape rest := by
  induction h with
  | nil => rfl
  | cons hc _ ih =>
      rw [List.flatten_cons, List.append_assoc, hc.unescape_append, ih, List.cons_append]

/-- A text is decoded from the encodings of its characters, whichever of them is taken for each
one.  No piece takes anything of the text after it, and what is decoded is not decoded again. -/
theorem unescape_encodings {t : Text} {pieces : List Text} (h : List.Forall₂ Encodes t pieces) :
    Text.unescape pieces.flatten = t ∧
      ∀ rest, Text.unescape (pieces.flatten ++ rest) = t ++ Text.unescape rest := by
  have happend := unescape_flatten_append h
  exact ⟨by simpa using happend [], happend⟩

/-- All encodings in one text.  Digits stand after escapes with digits, and a decoded backslash
stands before what looks like an escape. -/
theorem unescape_encodings_mixed :
    Text.unescape "\\x411\\n\\1027\\\\x41\\\"\\777\\xeE\\v".toList =
      "A1\nB7\\x41\"ÿî\x0b".toList := by
  have hpieces : List.Forall₂ Encodes "A1\nB7\\x41\"ÿî\x0b".toList
      ["\\x41".toList, ['1'], "\\n".toList, "\\102".toList, ['7'], "\\\\".toList, ['x'], ['4'],
        ['1'], "\\\"".toList, "\\777".toList, "\\xeE".toList, "\\v".toList] :=
    .cons (.hexadecimal (m := 4) (n := 1) (by decide) (by decide) rfl) <|
    .cons (.plain (by decide)) <|
    .cons (.letter (by decide)) <|
    .cons (.octal (k := 1) (m := 0) (n := 2) (by decide) (by decide) (by decide) rfl) <|
    .cons (.plain (by decide)) <|
    .cons (.backslash (by decide)) <|
    .cons (.plain (by decide)) <|
    .cons (.plain (by decide)) <|
    .cons (.plain (by decide)) <|
    .cons (.backslash (by decide)) <|
    .cons (.octal (k := 7) (m := 7) (n := 7) (by decide) (by decide) (by decide) rfl) <|
    .cons (.hexadecimal (m := 14) (n := 14) (by decide) (by decide) rfl) <|
    .cons (.letter (by decide)) .nil
  exact (unescape_encodings hpieces).1

end BracketTags
