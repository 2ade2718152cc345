import SqlScript.Query.Statements

/-!
# Query/Session — parsing a script step by step

A session stands at a word of a script and keeps the faults noted so far.  Its operations move it
past words or read statements; comments are never seen.
-/

namespace SqlScript

/-- A place among the words of a script, and the faults noted on the way. -/
structure Session where
  /-- The number of words of the script, comments included. -/
  size : Nat
  rest : List Placed
  faults : List SyntaxFault := []

namespace Session

/-- A session at the first word that is no comment. -/
def ofWords (words : List Word) : Session where
  size := words.length
  rest := Placed.visible words

/-- The index of the current word, or the number of words at the end. -/
def offset (s : Session) : Nat := Grammar.offset s.size s.rest

/-- The current word; `none` at the end. -/
def current? (s : Session) : Option Word := s.rest.head?.map Placed.word

/-- The word behind the current one; `none` if there is none. -/
def peek? (s : Session) : Option Word := s.rest.tail.head?.map Placed.word

/-- Runs a parser at the current word and keeps its faults. -/
def run {α : Type} (s : Session) (p : Parse α) : α × Session :=
  let step := p s.rest
  (step.value, { s with rest := step.rest, faults := s.faults ++ step.faults })

/-- Passes the current word. -/
def advance (s : Session) : Session := (s.run Parse.advance).2

/-- Reads a statement, if the current word is `SELECT`. -/
def select? (s : Session) : Option Query × Session := s.run (Grammar.select s.size)

/-- Reads the rest of a statement whose `SELECT` has been passed. -/
def query (s : Session) : Query × Session := s.run (Grammar.query s.size s.offset)

/-- Reads every statement from here to the end of the script. -/
def statements (s : Session) : List Query × Session := s.run (Grammar.statements s.size)

end Session

end SqlScript
