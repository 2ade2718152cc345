import SqlScript.Lexeme.Read
import SqlScript.Place.LineIndex
import SqlScript.Word

/-!
# Script/Scan — reading the words of a text one after the other

A reader stands at a byte offset in front of the text still to be read.  `Reader.next?` passes white
space and reads one word; `Reader.words` goes on to the end.  Every step leaves less text
(`Reader.next?_length_lt`), so reading ends.
-/

namespace SqlScript

/-- A word with the fault it was read with, if any. -/
structure Scanned where
  word : Word
  fault : Option LexicalFault
  deriving DecidableEq

/-- A place in a text: a byte offset and the text from there on. -/
structure Reader where
  pos : Nat
  rest : List Char

namespace Reader

/-- The reader at the start of a text, behind its byte-order mark. -/
def ofText (source : List Char) : Reader :=
  match source with
  | c :: cs => if c = byteOrderMark then ⟨c.utf8Size, cs⟩ else ⟨0, source⟩
  | [] => ⟨0, []⟩

/-- The reader behind the white space it stands at. -/
def skipSpace (r : Reader) : Reader :=
  ⟨r.pos + Text.width (r.rest.takeWhile Lexeme.isSpace), r.rest.dropWhile Lexeme.isSpace⟩

/-- The word that a lexeme at byte `pos` is. -/
def wordAt (pos : Nat) (l : Lexeme) : Word :=
  ⟨l.token, String.ofList l.literal, ⟨pos, pos + Text.width l.text⟩⟩

/-- The next word, with the reader behind it; `none` if only white space is left. -/
def next? (r : Reader) : Option (Scanned × Reader) :=
  match r.skipSpace.rest with
  | [] => none
  | c :: cs =>
    let l := Lexeme.read c cs
    let pos := r.skipSpace.pos
    some (⟨wordAt pos l, l.fault⟩, ⟨pos + Text.width l.text, l.rest⟩)

/-- Reading a word leaves less text. -/
theorem next?_length_lt {r r' : Reader} {s : Scanned} (h : r.next? = some (s, r')) :
    r'.rest.length < r.rest.length := by
  unfold next? at h
  split at h
  · exact absurd h (by simp)
  · next c cs hrest =>
    have hskip : (c :: cs).length ≤ r.rest.length := by
      rw [← hrest]
      exact (List.dropWhile_sublist _).length_le
    have hread := (Lexeme.read_divides c cs).length_lt
    cases h
    exact Nat.lt_of_lt_of_le hread hskip

/-- The words from a reader to the end of its text. -/
def words (r : Reader) : List Scanned :=
  match _h : r.next? with
  | none => []
  | some (s, r') => s :: words r'
termination_by r.rest.length
decreasing_by exact next?_length_lt _h

theorem words_of_next?_eq_none {r : Reader} (h : r.next? = none) : r.words = [] := by
  rw [words]
  split
  · rfl
  · next h' => exact absurd (h.symm.trans h') (by simp)

theorem words_of_next?_eq_some {r r' : Reader} {s : Scanned} (h : r.next? = some (s, r')) :
    r.words = s :: r'.words := by
  rw [words]
  split
  · next h' => exact absurd (h.symm.trans h') (by simp)
  · next h' =>
    cases h.symm.trans h'
    rfl

/-- One step of reading on demand: the next word, or the end of the text again and again. -/
def step (r : Reader) : Scanned × Reader :=
  match r.next? with
  | some found => found
  | none => (⟨Word.eof r.skipSpace.pos, none⟩, r.skipSpace)

end Reader

end SqlScript
