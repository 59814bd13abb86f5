import BracketTags.Text.Digit
import BracketTags.Text.Printable

/-!
# Quoted texts

Messages and listings show a text in quotes.

* The quotes are single, unless the text holds a single quote and no double one.
* The quote in use and the backslash follow a backslash.
* Line feed, carriage return and tab are written `\n`, `\r` and `\t`.
* Any other character that is not printable is written by its code, with `\x`
  and two hexadecimal digits, `\u` and four, or `\U` and eight.
-/

namespace BracketTags

/-- The quote to put around a text. -/
def quoteFor (t : Text) : Char := if '\'' ∈ t ∧ '"' ∉ t then '"' else '\''

/-- A character as it stands in a quoted text. -/
def quotedChar (quote c : Char) : Text :=
  if c = quote ∨ c = '\\' then ['\\', c]
  else if c = '\n' then ['\\', 'n']
  else if c = '\r' then ['\\', 'r']
  else if c = '\t' then ['\\', 't']
  else if isPrintable c then [c]
  else if c.toNat < 0x100 then '\\' :: 'x' :: hexadecimal 2 c.toNat
  else if c.toNat < 0x10000 then '\\' :: 'u' :: hexadecimal 4 c.toNat
  else '\\' :: 'U' :: hexadecimal 8 c.toNat

namespace Text

/-- A text in quotes. -/
def quoted (t : Text) : Text :=
  [quoteFor t] ++ t.flatMap (quotedChar (quoteFor t)) ++ [quoteFor t]

example : quoted "a'\"\\\n".toList = "'a\\'\"\\\\\\n'".toList := by decide +kernel

/-- A list of texts in quotes, in round brackets.  A single member is followed by a comma. -/
def quotedList : List Text → Text
  | [] => "()".toList
  | [t] => "(".toList ++ t.quoted ++ ",)".toList
  | t :: ts => "(".toList ++ t.quoted ++ ts.flatMap (fun u => ", ".toList ++ quoted u) ++ ")".toList

end Text

end BracketTags
