import SqlScript.Diagnostic
import SqlScript.Script.Scan

/-!
# Script/Basic — a script and its words

A script is a named text together with the words read from it.  Comments are words; white space
lives in the gaps between them, so gaps and words together give back the text
(`Script.reconstruct`).
-/

namespace SqlScript

/-- A script, read into words. -/
structure Script where
  /-- The display name, shown in positions. -/
  name : String
  source : List Char
  scanned : List Scanned
  lines : LineIndex

namespace Script

/-- The script with the given name and text. -/
def scan (name source : String) : Script where
  name := name
  source := source.toList
  scanned := (Reader.ofText source.toList).words
  lines := LineIndex.ofText source.toList

/-- The words of a script, comments included. -/
def words (s : Script) : List Word := s.scanned.map Scanned.word

/-- The word at an index. -/
def word? (s : Script) (index : Nat) : Option Word := s.scanned[index]?.map Scanned.word

/-- The number of bytes of the text. -/
def size (s : Script) : Nat := Text.width s.source

/-- The word that stands for the end. -/
def eof (s : Script) : Word := Word.eof s.size

/-- The position of a byte offset. -/
def position (s : Script) (offset : Nat) : Position := s.lines.position s.name s.source offset

/-- The lexical diagnostics: the faults of words, at their starts. -/
def diagnostics (s : Script) : List Diagnostic :=
  s.scanned.filterMap fun entry => entry.fault.map fun fault =>
    ⟨s.position entry.word.span.start, .lexical fault⟩

/-! ## Words and gaps -/

/-- The text between two byte offsets, if there is one. -/
def slice? (s : Script) (first last : Nat) : Option (List Char) := Text.slice? s.source first last

/-- The text a word was read from. -/
def text (s : Script) (w : Word) : List Char := (s.slice? w.span.start w.span.stop).getD []

/-- Where the gap in front of the word at an index starts: behind the word before it. -/
def gapStart (s : Script) : (index : Nat) → Nat
  | 0 => 0
  | previous + 1 => match s.word? previous with
    | some w => w.span.stop
    | none => 0

/-- Where the gap in front of the word at an index stops: at that word, or at the end. -/
def gapStop (s : Script) (index : Nat) : Nat :=
  match s.word? index with
  | some w => w.span.start
  | none => s.size

/-- The text in front of the word at `index`, back to the word before it.  Behind the last word this
is the tail of the script; further on, where no word comes before, it is the whole text. -/
def gapBefore (s : Script) (index : Nat) : List Char :=
  (s.slice? (min (s.gapStart index) (s.gapStop index)) (s.gapStop index)).getD []

/-- Every word as `showWord` shows it, with the gap in front of it, and the tail of the script. -/
def assemble (s : Script) (showWord : Word → List Char) : List Char :=
  (s.words.zipIdx.flatMap fun p => s.gapBefore p.2 ++ showWord p.1) ++ s.gapBefore s.words.length

/-- The text put together from the words and the gaps between them. -/
def reconstruct (s : Script) : List Char := s.assemble s.text

end Script

end SqlScript
