import BracketTags.Attributes.Basic
import BracketTags.Pattern.Search
import BracketTags.Text.Escape
import BracketTags.Text.Lowercase

/-!
# Reading attributes

Attribute text is a sequence of tokens.  A token has one of five forms, tried
in this order, and a blank or the end of the text follows it.

* `name="value"`, where the value has no double quote.
* `name='value'`, where the value has no single quote.
* `name=value`, where the value has neither blanks nor quotes.
* `"value"`, where the value has no double quote.
* `word`, any characters but blanks.

A name consists of word characters, and blanks may stand around its equals
sign.  Names are read in lower case.  Values and words are read with their
escapes decoded, and an empty `""` gives no value.

Space-like characters become plain spaces before the text is read.
-/

namespace BracketTags

/-! ## Tokens -/

/-- The parts of a token that its pattern keeps. -/
inductive Slot where
  | doubleName
  | doubleValue
  | singleName
  | singleValue
  | bareName
  | bareValue
  /-- The unnamed value in double quotes. -/
  | quoted
  | word
deriving DecidableEq

/-- A token of attribute text, as it is written. -/
inductive Token where
  | named (name value : Text)
  | quoted (value : Text)
  | word (text : Text)
deriving DecidableEq

namespace Token

open Pattern

def blanks : Pattern Slot := .many .greedy (.of [.blank])

/-- What follows a token: a blank or the end. -/
def ending : Pattern Slot := .alt (.one (.of [.blank])) .atEnd

/-- A name and an equals sign, with the blanks around it. -/
def nameEquals (slot : Slot) : List (Pattern Slot) :=
  [.group slot (oneOrMore (.of [.word])), blanks, .char '=', blanks]

/-- A text between two quotes. -/
def between (quote : Char) (slot : Slot) : List (Pattern Slot) :=
  [.char quote, .group slot (.many .greedy (.except [.exact quote])), .char quote]

/-- The pattern of tokens. -/
def pattern : Pattern Slot :=
  choice
    [sequence (nameEquals .doubleName ++ between '"' .doubleValue ++ [ending]),
     sequence (nameEquals .singleName ++ between '\'' .singleValue ++ [ending]),
     sequence (nameEquals .bareName ++
       [.group .bareValue (oneOrMore (.except [.blank, .exact '\'', .exact '"'])), ending]),
     sequence (between '"' .quoted ++ [ending]),
     sequence [.group .word (oneOrMore (.except [.blank])), ending]]

/-- The token that a match of the pattern stands for. -/
def ofFound (m : Found Slot) : Token :=
  match m.part? .doubleName, m.part? .singleName, m.part? .bareName, m.part? .quoted with
  | some name, _, _, _ => .named name ((m.part? .doubleValue).getD [])
  | none, some name, _, _ => .named name ((m.part? .singleValue).getD [])
  | none, none, some name, _ => .named name ((m.part? .bareValue).getD [])
  | none, none, none, some value => .quoted value
  | none, none, none, none => .word ((m.part? .word).getD [])

/-- The tokens of a text. -/
def readAll (t : Text) : List Token := (pattern.findAll t).map ofFound

example : readAll "A = \"1\" b='x y' c=2 \"\" w".toList =
    [.named ['A'] ['1'], .named ['b'] "x y".toList, .named ['c'] ['2'], .quoted [],
      .word ['w']] := by
  decide +kernel

/-- The key and the value of a named token, as they are read.  The key is a name. -/
def entry? : Token → Option (Key × Text)
  | named name value => some (.name name.lowercase, value.unescape)
  | _ => none

/-- The value of an unnamed token, as it is read.  An empty pair of quotes has none. -/
def value? : Token → Option Text
  | quoted value => if value.isEmpty then none else some value.unescape
  | word text => some text.unescape
  | named _ _ => none

end Token

/-! ## Attributes -/

namespace Attributes

/-- The attributes that tokens stand for, if there is a token. -/
def ofTokens (tokens : List Token) : Attributes :=
  let named := OrderedMap.ofList (tokens.filterMap Token.entry?)
  let values := tokens.filterMap Token.value?
  if named.isEmpty then .positional values else .keyed named values

/-- The attributes written in a text. -/
def parse (t : Text) : Attributes :=
  let plain := t.plainSpaces
  let tokens := Token.readAll plain
  if tokens.isEmpty then .raw plain.trimLeft else ofTokens tokens

end Attributes

end BracketTags
