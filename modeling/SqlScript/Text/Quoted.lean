import SqlScript.Text.DefaultIgnorable
import SqlScript.Text.ExtendingMark
import SqlScript.Text.Printable

/-!
# Text/Quoted — text shown between quotes

A message shows a character between single quotes and a word between double quotes, with an escape
for whatever would not survive being read on a terminal: control characters, the quote itself, the
backslash, and every character that is invisible or attaches to its neighbour.
-/

namespace SqlScript.Text

/-- The single quote, which delimits string literals and shown characters. -/
def singleQuote : Char := '\x27'

/-- The double quote, which delimits quoted identifiers and shown text. -/
def doubleQuote : Char := '\x22'

/-- The code point of a character in lower-case hexadecimal, without leading zeros. -/
def hexCode (c : Char) : List Char := Nat.toDigits 16 c.toNat

/-- A character that would be unseen or misread if it were shown as it is: one that is not
printable, one that a display ignores, or a mark that attaches to the character before it. -/
def isObscure (c : Char) : Bool := !isPrintable c || isDefaultIgnorable c || isExtendingMark c

/-- A character as it is written between two `mark`s. -/
def escape (mark c : Char) : List Char :=
  if c.toNat = 0 then ['\\', '0']
  else if c = '\t' then ['\\', 't']
  else if c = '\n' then ['\\', 'n']
  else if c = '\r' then ['\\', 'r']
  else if c = '\\' ∨ c = mark then ['\\', c]
  else if isObscure c then ['\\', 'u', '\x7b'] ++ hexCode c ++ ['\x7d']
  else [c]

/-- A character between single quotes. -/
def quotedChar (c : Char) : String :=
  String.ofList (singleQuote :: escape singleQuote c ++ [singleQuote])

/-- A text between double quotes. -/
def quotedText (s : String) : String :=
  String.ofList (doubleQuote :: s.toList.flatMap (escape doubleQuote) ++ [doubleQuote])

end SqlScript.Text
