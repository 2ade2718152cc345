import SqlScript.Token.Spelling

/-!
# Lexeme/Basic — one word read off the front of a text

A lexeme divides a text into the part that makes one word and the rest.  Text that is no word of the
language is a lexeme too, with the fault that makes it one, so reading never stops.
-/

namespace SqlScript

/-- Why a stretch of text is no word of the language. -/
inductive LexicalFault where
  /-- A string literal without its closing quote. -/
  | unterminatedString
  /-- A block comment that is not closed at every level. -/
  | unterminatedComment
  /-- A bracketed or quoted name without its closing mark. -/
  | unterminatedIdentifier
  /-- A character that opens no word. -/
  | illegalCharacter (ch : Char)
  deriving DecidableEq

/-- One word at the front of a text. -/
structure Lexeme where
  token : Token
  /-- The text the word takes up. -/
  text : List Char
  /-- Its spelling, which is its text unless the word is a phrase. -/
  literal : List Char
  /-- The text that follows. -/
  rest : List Char
  fault : Option LexicalFault := none

namespace Lexeme

/-- A word spelled as its text. -/
def plain (token : Token) (text rest : List Char) : Lexeme := ⟨token, text, text, rest, none⟩

/-- A text taken up whole because it is not closed. -/
def unclosed (fault : LexicalFault) (text : List Char) : Lexeme :=
  ⟨.illegal, text, text, [], some fault⟩

@[simp] theorem text_plain (t : Token) (as bs : List Char) : (plain t as bs).text = as := rfl
@[simp] theorem rest_plain (t : Token) (as bs : List Char) : (plain t as bs).rest = bs := rfl
@[simp] theorem text_unclosed (f : LexicalFault) (as : List Char) :
    (unclosed f as).text = as := rfl
@[simp] theorem rest_unclosed (f : LexicalFault) (as : List Char) :
    (unclosed f as).rest = [] := rfl

/-- A lexeme divides `cs`: it takes up a part of it that is not empty, and the rest follows. -/
def Divides (l : Lexeme) (cs : List Char) : Prop := l.text ≠ [] ∧ l.text ++ l.rest = cs

theorem Divides.length_lt {l : Lexeme} {cs : List Char} (h : l.Divides cs) :
    l.rest.length < cs.length := by
  obtain ⟨hne, rfl⟩ := h
  have := List.length_pos_iff.mpr hne
  simp only [List.length_append]
  omega

end Lexeme

end SqlScript
