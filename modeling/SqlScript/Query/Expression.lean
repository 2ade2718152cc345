import SqlScript.Word

/-!
# Query/Expression — runs of words cut from a script

A query keeps most of its parts as runs of words.  A placed word remembers its index among all words
of the script, comments included, so that a run without its comments still tells which stretch of
the script it covers.
-/

namespace SqlScript

/-- A word and its index among the words of the script. -/
structure Placed where
  index : Nat
  word : Word
  deriving DecidableEq

/-- The token of a placed word. -/
def Placed.token (p : Placed) : Token := p.word.token

/-- The words that the grammar reads: all but comments, each with its index. -/
def Placed.visible (words : List Word) : List Placed :=
  (words.zipIdx.map fun p => ⟨p.2, p.1⟩).filter fun p => !p.word.isComment

/-- A range of word indices, the end excluded. -/
structure WordRange where
  start : Nat := 0
  stop : Nat := 0
  deriving DecidableEq

/-- A run of words. -/
structure Expression where
  items : List Placed
  deriving DecidableEq

namespace Expression

/-- The run without words. -/
def empty : Expression := ⟨[]⟩

/-- A run with one more word. -/
def push (e : Expression) (p : Placed) : Expression := ⟨e.items ++ [p]⟩

/-- The words of a run. -/
def words (e : Expression) : List Word := e.items.map Placed.word

/-- The tokens of a run. -/
def tokens (e : Expression) : List Token := e.items.map Placed.token

/-- The spellings of a run. -/
def literals (e : Expression) : List String := e.items.map (·.word.literal)

/-- The stretch of the script from the first word of a run to its last. -/
def range (e : Expression) : WordRange :=
  match e.items.head?, e.items.getLast? with
  | some first, some last => ⟨first.index, last.index + 1⟩
  | _, _ => {}

/-- The spellings of a run with single spaces between them. -/
def text (e : Expression) : String := " ".intercalate e.literals

/-- The run itself, unless it has no words. -/
def nonEmpty? (e : Expression) : Option Expression := if e.items.isEmpty then none else some e

end Expression

end SqlScript
