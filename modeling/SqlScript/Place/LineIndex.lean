import SqlScript.Place.Position
import SqlScript.Text.Utf8

/-!
# Place/LineIndex — from byte offsets to lines and columns

The index of a text holds the byte offset of every line start.  A line ends at a line feed, a
carriage return, or the two together.  Looking up an offset finds the last line that starts at or
before it and counts the characters from there; a leading byte-order mark takes no column.
-/

namespace SqlScript

/-- U+FEFF, which may stand once at the start of a script. -/
def byteOrderMark : Char := '\uFEFF'

/-- The lines of a text. -/
structure LineIndex where
  /-- The byte offsets at which lines start. -/
  starts : List Nat
  /-- The number of bytes of the text. -/
  size : Nat

namespace LineIndex

/-- The line starts after the first, for a text that begins at byte `pos`. -/
def startsFrom (pos : Nat) : List Char → List Nat
  | [] => []
  | '\r' :: '\n' :: cs => (pos + 2) :: startsFrom (pos + 2) cs
  | c :: cs =>
    let next := pos + c.utf8Size
    if c = '\r' ∨ c = '\n' then next :: startsFrom next cs else startsFrom next cs

/-- Any character but the first of a pair ends its line on its own, or does not end it. -/
theorem startsFrom_cons {pos : Nat} {c : Char} {cs : List Char}
    (h : ¬ (c = '\r' ∧ cs.head? = some '\n')) :
    startsFrom pos (c :: cs) =
      if c = '\r' ∨ c = '\n' then (pos + c.utf8Size) :: startsFrom (pos + c.utf8Size) cs
      else startsFrom (pos + c.utf8Size) cs := by
  rw [startsFrom]
  rintro rest rfl rfl
  simp at h

/-- The index of a text. -/
def ofText (source : List Char) : LineIndex := ⟨0 :: startsFrom 0 source, Text.width source⟩

/-- Where the columns of the first line are counted from. -/
def firstColumn (source : List Char) : Nat :=
  if source.head? = some byteOrderMark then byteOrderMark.utf8Size else 0

/-- The line and column, both from 1, of a byte offset.  An offset past the end counts as the end,
and inside a character the column counts bytes. -/
def lineColumn (index : LineIndex) (source : List Char) (offset : Nat) : Nat × Nat :=
  let offset := min offset index.size
  let before := index.starts.takeWhile (· ≤ offset)
  let lineStart := if before.length ≤ 1 then firstColumn source else before.getLastD 0
  let offset := max offset lineStart
  let column := match Text.slice? source lineStart offset with
    | some text => text.length
    | none => offset - lineStart
  (before.length, column + 1)

/-- The position of a byte offset in the script called `name`. -/
def position (index : LineIndex) (name : String) (source : List Char) (offset : Nat) : Position :=
  let place := index.lineColumn source offset
  ⟨name, place.1, place.2⟩

end LineIndex

end SqlScript
