/-!
# Place/Position — spans of bytes and human-readable positions

A span is a half-open range of byte offsets.  A position is what a message shows: the display name
of the script, a line and a column, both counted from 1.
-/

namespace SqlScript

/-- A range of byte offsets, the end excluded. -/
structure Span where
  start : Nat := 0
  stop : Nat := 0
  deriving DecidableEq

namespace Span

/-- The number of bytes of a span. -/
def length (s : Span) : Nat := s.stop - s.start

/-- A span without bytes. -/
def isEmpty (s : Span) : Bool := s.start == s.stop

end Span

/-- A place in a named script. -/
structure Position where
  name : String := ""
  line : Nat := 0
  column : Nat := 0
  deriving DecidableEq

namespace Position

/-- A place that is known: both counts start at 1. -/
def isValid (p : Position) : Bool := 0 < p.line && 0 < p.column

/-- The text of a position: nothing for an unknown place, and no name for a nameless script. -/
def text (p : Position) : String :=
  if !p.isValid then ""
  else
    let place := toString p.line ++ ":" ++ toString p.column
    if p.name = "" then place else p.name ++ ":" ++ place

end Position

end SqlScript
