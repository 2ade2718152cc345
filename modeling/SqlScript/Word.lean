import SqlScript.Place.Position
import SqlScript.Token.Spelling

/-!
# Word — a token with its spelling and its place

The spelling of a word keeps the case it has in the script.  A phrase such as `GROUP BY` is one
word: its literal joins the two parts by a single space, while its span covers whatever stands
between them.
-/

namespace SqlScript

/-- A word of a script. -/
structure Word where
  token : Token
  literal : String
  span : Span
  deriving DecidableEq

namespace Word

/-- The word that stands for the end of a script of `offset` bytes. -/
def eof (offset : Nat) : Word := ⟨.eof, "", ⟨offset, offset⟩⟩

/-- The end of the script. -/
def isEof (w : Word) : Bool := w.token == .eof

/-- A line comment or a block comment. -/
def isComment (w : Word) : Bool := w.token == .comment

end Word

end SqlScript
