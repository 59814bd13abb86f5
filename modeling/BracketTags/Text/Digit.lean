import BracketTags.Text.Basic

/-!
# Digits

Numbers in texts: reading digits of a base up to a limit, and writing a number
in decimal or in a fixed number of hexadecimal digits.
-/

namespace BracketTags

/-- The value of a digit of a base up to sixteen.  Both cases of a letter are read. -/
def digitValue? (base : Nat) (c : Char) : Option Nat :=
  let value? :=
    if '0' ≤ c ∧ c ≤ '9' then some (c.toNat - '0'.toNat)
    else if 'a' ≤ c ∧ c ≤ 'f' then some (c.toNat - 'a'.toNat + 10)
    else if 'A' ≤ c ∧ c ≤ 'F' then some (c.toNat - 'A'.toNat + 10)
    else none
  value?.filter (· < base)

/-- The values of the digits a text begins with, at most `limit` of them. -/
def leadingDigits (base : Nat) : Nat → Text → List Nat
  | 0, _ => []
  | _ + 1, [] => []
  | limit + 1, c :: cs =>
      match digitValue? base c with
      | some d => d :: leadingDigits base limit cs
      | none => []

/-- The number that digits stand for, the first being the most significant. -/
def ofDigits (base : Nat) (ds : List Nat) : Nat := ds.foldl (fun n d => n * base + d) 0

/-- A number in decimal. -/
def decimal (n : Nat) : Text := Nat.toDigits 10 n

/-- An integer in decimal, with a minus sign when it is negative. -/
def signedDecimal : Int → Text
  | .ofNat n => decimal n
  | .negSucc n => '-' :: decimal (n + 1)

/-- The last `width` hexadecimal digits of a number, in lower case. -/
def hexadecimal : Nat → Nat → Text
  | 0, _ => []
  | width + 1, n => hexadecimal width (n / 16) ++ [Nat.digitChar (n % 16)]

theorem length_leadingDigits_le_length (base limit : Nat) (t : Text) :
    (leadingDigits base limit t).length ≤ t.length := by
  induction limit generalizing t with
  | zero => simp [leadingDigits]
  | succ limit ih =>
      cases t with
      | nil => simp [leadingDigits]
      | cons c cs =>
          rw [leadingDigits]
          split
          · simpa using ih cs
          · simp

end BracketTags
