import BracketTags.Text.Digit

/-!
# Backslash escapes

`Text.unescape` replaces every backslash escape by the character it stands for.
After the backslash stands one of these.

* One of the letters `a b f n r t v`, for a control character.
* `x` and one or two hexadecimal digits, for the character of that code.
* One to three octal digits, for the character of that code modulo 256.
* Any other character, for itself.  So does an `x` without a digit.

A backslash at the end of the text stands for itself.  Decoded text is not
decoded again.
-/

namespace BracketTags

/-- The character a letter stands for after a backslash. -/
def letterEscape (c : Char) : Char :=
  match c with
  | 'a' => '\x07'
  | 'b' => '\x08'
  | 'f' => '\x0c'
  | 'n' => '\n'
  | 'r' => '\r'
  | 't' => '\t'
  | 'v' => '\x0b'
  | _ => c

/-- The escape a text begins with, the backslash being read already: the character it stands for
and how many characters it takes. -/
def escape? : Text → Option (Char × Nat)
  | [] => none
  | c :: cs =>
      if c = 'x' then
        let digits := leadingDigits 16 2 cs
        if digits.isEmpty then some (c, 1)
        else some (Char.ofNat (ofDigits 16 digits), digits.length + 1)
      else
        let digits := leadingDigits 8 3 (c :: cs)
        if digits.isEmpty then some (letterEscape c, 1)
        else some (Char.ofNat (ofDigits 8 digits % 256), digits.length)

namespace Text

/-- The text with its escapes decoded, after `skip` more characters of the last escape. -/
def unescapeAfter : Nat → Text → Text
  | _, [] => []
  | skip + 1, _ :: cs => unescapeAfter skip cs
  | 0, c :: cs =>
      if c = '\\' then
        match escape? cs with
        | some (d, taken) => d :: unescapeAfter taken cs
        | none => c :: unescapeAfter 0 cs
      else c :: unescapeAfter 0 cs

/-- The text with every backslash escape replaced by the character it stands for. -/
def unescape (t : Text) : Text := unescapeAfter 0 t

example : unescape "\\x41\\102\\q\\\\".toList = "ABq\\".toList := by decide

theorem unescapeAfter_eq_unescape_drop (skip : Nat) (t : Text) :
    unescapeAfter skip t = unescape (t.drop skip) := by
  induction skip generalizing t with
  | zero => rfl
  | succ skip ih =>
      cases t with
      | nil => rfl
      | cons c cs => simpa [unescapeAfter] using ih cs

end Text

end BracketTags
