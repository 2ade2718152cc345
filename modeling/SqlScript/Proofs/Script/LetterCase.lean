import SqlScript.Proofs.Lexeme.LetterCase
import SqlScript.Proofs.Script.Tiling

/-!
# Proofs/Script/LetterCase — scanning a script does not look at the case of letters

Upper-casing a script upper-cases the literals of its words and changes nothing else: not their
number, not their tokens, not their places (`scanned_upper`), and not what is wrong with them or
where (`diagnostics_upper`).  Two scripts that differ in the case of letters only are compared
through the one they have in common in capitals.
-/

namespace SqlScript

open SqlScript.Text

/-- A word in capitals. -/
def Word.toUpper (w : Word) : Word := { w with literal := upper w.literal }

/-- A scanned word in capitals. -/
def Scanned.toUpper (e : Scanned) : Scanned := { e with word := e.word.toUpper }

/-- A tile in capitals. -/
def Tile.toUpper (t : Tile) : Tile := ⟨t.gap.map Char.toUpper, t.lexeme.toUpper⟩

/-! ## Words -/

theorem blank_map_toUpper {cs : List Char} (h : Blank cs) : Blank (cs.map Char.toUpper) := by
  intro c hc
  obtain ⟨d, hd, rfl⟩ := List.mem_map.mp hc
  rw [Lexeme.isSpace_toUpper, h d hd]

/-- **A text in capitals has its tiles in capitals.** -/
theorem Tiling.map_toUpper {cs tail : List Char} {ts : List Tile} (h : Tiling cs ts tail) :
    Tiling (cs.map Char.toUpper) (ts.map Tile.toUpper) (tail.map Char.toUpper) := by
  induction h with
  | tail h => exact .tail (blank_map_toUpper h)
  | @tile gap cs tail c ts hgap hc h ih =>
    have hread := Lexeme.read_toUpper c cs
    rw [List.map_append, List.map_cons, List.map_cons, Tile.toUpper, ← hread]
    refine .tile (blank_map_toUpper hgap) (by rw [Lexeme.isSpace_toUpper, hc]) ?_
    rw [hread]
    exact ih

theorem Tile.word_toUpper (pos : Nat) (t : Tile) : t.toUpper.word pos = (t.word pos).toUpper := by
  have hliteral : String.ofList (t.lexeme.literal.map Char.toUpper) =
      upper (String.ofList t.lexeme.literal) := by simp [upper]
  simp only [Tile.word, Tile.toUpper, Lexeme.toUpper, Reader.wordAt, Word.toUpper, hliteral,
    width_map utf8Size_toUpper]

theorem scannedFrom_map_toUpper : ∀ (pos : Nat) (ts : List Tile),
    scannedFrom pos (ts.map Tile.toUpper) = (scannedFrom pos ts).map Scanned.toUpper
  | _, [] => rfl
  | pos, t :: ts => by
      have hwidth : width t.toUpper.text = width t.text := by
        simp [Tile.toUpper, Lexeme.toUpper, width_map utf8Size_toUpper]
      rw [List.map_cons, scannedFrom, hwidth, scannedFrom_map_toUpper _ ts, scannedFrom,
        List.map_cons, Tile.word_toUpper]
      rfl

/-- A reader of the text in capitals stands where the reader of the text does. -/
theorem ofText_map_toUpper (cs : List Char) :
    Reader.ofText (cs.map Char.toUpper) =
      ⟨(Reader.ofText cs).pos, (Reader.ofText cs).rest.map Char.toUpper⟩ := by
  cases cs with
  | nil => rfl
  | cons c cs =>
    have hmark : c.toUpper = byteOrderMark ↔ c = byteOrderMark := toUpper_eq_iff (by decide)
    simp only [List.map_cons, Reader.ofText, hmark, utf8Size_toUpper]
    split <;> rfl

namespace Script

/-- **A script in capitals has the words of the script, in capitals.** -/
theorem scanned_upper (name source : String) :
    (scan name (upper source)).scanned = (scan name source).scanned.map Scanned.toUpper := by
  obtain ⟨ts, tail, h⟩ := exists_tiling (Reader.ofText source.toList).rest
  show (Reader.ofText (upper source).toList).words = (Reader.ofText source.toList).words.map _
  rw [toList_upper, ofText_map_toUpper, h.map_toUpper.words_eq, scannedFrom_map_toUpper,
    ← h.words_eq]

end Script

/-! ## Places -/

namespace LineIndex

theorem startsFrom_map_toUpper (pos : Nat) (cs : List Char) :
    startsFrom pos (cs.map Char.toUpper) = startsFrom pos cs := by
  have hbreak : ∀ c : Char, (c.toUpper = '\r' ∨ c.toUpper = '\n') = (c = '\r' ∨ c = '\n') :=
    congr_toUpper (fun c => c = '\r' ∨ c = '\n') (by decide)
  fun_induction startsFrom pos cs with
  | case1 pos => rfl
  | case2 pos cs ih =>
    show startsFrom pos ('\r' :: '\n' :: cs.map Char.toUpper) = _
    rw [startsFrom, ih]
  | case3 pos c cs hpair next hc ih | case4 pos c cs hpair next hc ih =>
    rw [List.map_cons, startsFrom_cons (Lexeme.not_mark_toUpper (by decide) (by decide) hpair),
      utf8Size_toUpper, ih]
    simp [hbreak, hc, next]

theorem firstColumn_map_toUpper (cs : List Char) :
    firstColumn (cs.map Char.toUpper) = firstColumn cs := by
  simp only [firstColumn, head?_map_toUpper (d := byteOrderMark) (by decide)]

/-- **Lines and columns do not depend on the case of letters.** -/
theorem lineColumn_map_toUpper (cs : List Char) (offset : Nat) :
    (ofText (cs.map Char.toUpper)).lineColumn (cs.map Char.toUpper) offset =
      (ofText cs).lineColumn cs offset := by
  have hindex : ofText (cs.map Char.toUpper) = ofText cs := by
    rw [ofText, startsFrom_map_toUpper, width_map utf8Size_toUpper, ofText]
  simp only [lineColumn, hindex, firstColumn_map_toUpper, slice?_map utf8Size_toUpper]
  refine Prod.ext rfl (congrArg (· + 1) ?_)
  cases slice? cs _ _ <;> simp

end LineIndex

namespace Script

theorem position_upper (name source : String) (offset : Nat) :
    (scan name (upper source)).position offset = (scan name source).position offset := by
  simp only [position, LineIndex.position, scan, toList_upper, LineIndex.lineColumn_map_toUpper]

/-- **A script in capitals has the diagnostics of the script.** -/
theorem diagnostics_upper (name source : String) :
    (scan name (upper source)).diagnostics = (scan name source).diagnostics := by
  simp only [diagnostics, position_upper, scanned_upper, List.filterMap_map]
  rfl

end Script

end SqlScript
