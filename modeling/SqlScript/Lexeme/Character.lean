import SqlScript.Text.Numeric

/-!
# Lexeme/Character — the character classes of the language

White space is four characters only; a no-break space or a form feed is text.  Names take letters
and numerals of every script.
-/

namespace SqlScript.Lexeme

/-- White space between words. -/
def isSpace (c : Char) : Bool := c = ' ' || c = '\t' || c = '\n' || c = '\r'

/-- The end of a line, or a part of it. -/
def isLineBreak (c : Char) : Bool := c = '\n' || c = '\r'

/-- The marks that count as letters in a name. -/
def isNameMark (c : Char) : Bool := c = '_' || c = '#' || c = '@'

/-- A character that can open a plain name. -/
def isNameStart (c : Char) : Bool := Text.isAlphabetic c || isNameMark c

/-- A character that can continue a plain name. -/
def isNameChar (c : Char) : Bool := Text.isAlphanumeric c || isNameMark c

/-- Whatever opens a name can continue it. -/
theorem isNameChar_of_isNameStart {c : Char} (h : isNameStart c = true) : isNameChar c = true := by
  simp only [isNameStart, Bool.or_eq_true] at h
  rcases h with h | h <;> simp [isNameChar, Text.isAlphanumeric, h]

end SqlScript.Lexeme
