import SqlScript.Proofs.Casing.Print
import SqlScript.Proofs.Query.Visible
import SqlScript.Proofs.Script.Places
import SqlScript.Script.Outline

/-!
# Query/ByteOrderMark — a byte-order mark is not part of the script

    ▸ SELECT a        SELECT a        the mark ▸ takes three bytes and no column

A mark in front of a script is passed by the reader and left out of the columns of the first line,
while byte offsets count it.  The two cancel: every offset moves up by three bytes and keeps its
line and column (`Script.position_marked`).  So the words of the marked script are those of the
script, moved (`Script.scanned_marked`); its statements are read from them as they were, and what is
wrong is reported at the same places (`Outline.marks_parse`).
-/

namespace SqlScript

open SqlScript.Text

/-! ## Places -/

/-- A slice of a text with one more character in front is found behind it. -/
theorem Text.slice?_cons (c : Char) (cs : List Char) (first last : Nat) :
    slice? (c :: cs) (first + c.utf8Size) (last + c.utf8Size) = slice? cs first last := by
  rw [slice?, slice?, Nat.add_sub_add_right, Nat.add_comm first, dropBytes?_cons_add]
  simp only [Nat.add_comm c.utf8Size, Nat.add_le_add_iff_right]

namespace LineIndex

/-- Lines of a text further on start further on. -/
theorem startsFrom_add (n pos : Nat) (cs : List Char) :
    startsFrom (pos + n) cs = (startsFrom pos cs).map (· + n) := by
  induction cs generalizing pos with
  | nil => rfl
  | cons c cs ih =>
    rw [startsFrom_eq, startsFrom_eq, Nat.add_right_comm, ih]
    split <;> rfl

theorem getLastD_map_add (n first : Nat) (ns : List Nat) :
    (ns.map (· + n)).getLastD (first + n) = ns.getLastD first + n := by
  induction ns generalizing first with
  | nil => rfl
  | cons m ns ih => rw [List.map_cons, List.getLastD_cons, ih, List.getLastD_cons]

/-- **A mark moves offsets, not lines and columns.** -/
theorem lineColumn_marked {cs : List Char} (h : cs.head? ≠ some byteOrderMark) (offset : Nat) :
    (ofText (byteOrderMark :: cs)).lineColumn (byteOrderMark :: cs)
      (offset + byteOrderMark.utf8Size) = (ofText cs).lineColumn cs offset := by
  have hfirst : firstColumn (byteOrderMark :: cs) = 0 + byteOrderMark.utf8Size := by
    simp [firstColumn]
  have hfirst' : firstColumn cs = 0 := if_neg h
  have hsize : min (offset + byteOrderMark.utf8Size) (width (byteOrderMark :: cs)) =
      min offset (width cs) + byteOrderMark.utf8Size := by
    rw [width_cons]
    omega
  have hbefore : (startsFrom 0 (byteOrderMark :: cs)).takeWhile
        (· ≤ min offset (width cs) + byteOrderMark.utf8Size) =
      ((startsFrom 0 cs).takeWhile (· ≤ min offset (width cs))).map
        (· + byteOrderMark.utf8Size) := by
    rw [startsFrom_eq, if_neg (by simp [endsLine, byteOrderMark]), startsFrom_add,
      List.takeWhile_map]
    simp [Function.comp_def]
  simp only [lineColumn_ofText, hsize, hbefore, hfirst, hfirst', getLastD_map_add,
    List.length_map, Nat.add_max_add_right, slice?_cons, Nat.add_sub_add_right]

end LineIndex

/-- A script with a byte-order mark in front. -/
def marked (source : String) : String := String.singleton byteOrderMark ++ source

namespace Script

theorem toList_marked (source : String) :
    (marked source).toList = byteOrderMark :: source.toList := by
  simp [marked]

theorem size_marked (name source : String) :
    (scan name (marked source)).size = (scan name source).size + 3 := by
  show width (marked source).toList = width source.toList + 3
  rw [toList_marked, width_cons, Nat.add_comm]
  rfl

/-- **Every offset of a marked script is three bytes further on, in the same line and column.** -/
theorem position_marked (name : String) {source : String}
    (h : source.toList.head? ≠ some byteOrderMark) (offset : Nat) :
    (scan name (marked source)).position (offset + 3) = (scan name source).position offset := by
  have hplace := LineIndex.lineColumn_marked h offset
  rw [show byteOrderMark.utf8Size = 3 by decide] at hplace
  simp only [position, LineIndex.position, scan, toList_marked, hplace]

/-- A script without a mark is a row of tiles, and behind a mark it is the same row. -/
theorem exists_tiled_marked (name : String) {source : String}
    (h : source.toList.head? ≠ some byteOrderMark) :
    ∃ ts tail, (scan name source).Tiled [] ts tail ∧
      (scan name (marked source)).Tiled [byteOrderMark] ts tail := by
  obtain ⟨ts, tail, htiling⟩ := exists_tiling source.toList
  have hreader : Reader.ofText (marked source).toList =
      ⟨width [byteOrderMark], source.toList⟩ := by
    rw [toList_marked]
    simp [Reader.ofText]
  refine ⟨ts, tail, ⟨htiling.flatMap_text.symm, ?_⟩, ⟨?_, scanned_eq name hreader htiling⟩⟩
  · exact scanned_eq name (Reader.ofText_of_head?_ne h) htiling
  · rw [htiling.flatMap_text]
    exact toList_marked source

/-- **The words of a marked script are those of the script, moved up by the mark.** -/
theorem scanned_marked (name : String) {source : String}
    (h : source.toList.head? ≠ some byteOrderMark) :
    (scan name (marked source)).scanned = (scan name source).scanned.map (Scanned.shift 3) := by
  obtain ⟨ts, tail, htiled, hmarked⟩ := exists_tiled_marked name h
  rw [hmarked.scanned_eq, htiled.scanned_eq, ← scannedFrom_add]
  rfl

/-- A marked script has the lexical diagnostics of the script. -/
theorem diagnostics_marked (name : String) {source : String}
    (h : source.toList.head? ≠ some byteOrderMark) :
    (scan name (marked source)).diagnostics = (scan name source).diagnostics := by
  simp only [diagnostics, scanned_marked name h, List.filterMap_map]
  refine congrArg (List.filterMap · _) (funext fun entry => ?_)
  simp only [Function.comp_apply, Scanned.shift, Word.shift, Span.shift, position_marked name h]

/-- A marked script is printed as the script is, behind its mark. -/
theorem render_marked (name : String) {source : String}
    (h : source.toList.head? ≠ some byteOrderMark) (style : KeywordCase) :
    Casing.render (scan name (marked source)) style =
      marked (Casing.render (scan name source) style) := by
  obtain ⟨ts, tail, htiled, hmarked⟩ := exists_tiled_marked name h
  rw [String.ext_iff, toList_marked, Casing.toList_render style hmarked,
    Casing.toList_render style htiled]
  rfl

end Script

/-! ## Outlines -/

/-- Spans moved up by `n` bytes. -/
def Relabelling.moved (n : Nat) : Relabelling := { span := Span.shift n }

/-- **Two outlines that agree but for three bytes in front of the script.** -/
structure Outline.Marks (o o' : Outline) : Prop where
  /-- The same words three bytes further on, … -/
  words : o'.script.words = o.script.words.map (Word.shift 3)
  /-- …and the end of the script as well, … -/
  eof : o'.script.eof = o.script.eof.shift 3
  /-- …with every offset in the same line and column. -/
  position : ∀ offset, o'.script.position (offset + 3) = o.script.position offset
  /-- The same queries over these words, … -/
  queries : o'.queries = o.queries.map (Relabelling.moved 3).query
  /-- …whose runs cover the same ranges. -/
  ranges : o'.queries.map (·.expressions.map Expression.range) =
    o.queries.map (·.expressions.map Expression.range)
  /-- The same diagnostics at the same positions. -/
  diagnostics : o'.diagnostics = o.diagnostics
  /-- The same print, behind the mark. -/
  render : ∀ style, Casing.render o'.script style = marked (Casing.render o.script style)

namespace Script

theorem words_marked (name : String) {source : String}
    (h : source.toList.head? ≠ some byteOrderMark) :
    (scan name (marked source)).words = (scan name source).words.map (Word.shift 3) := by
  rw [words, scanned_marked name h, map_word_shift]
  rfl

theorem eof_marked (name source : String) :
    (scan name (marked source)).eof = (scan name source).eof.shift 3 := by
  rw [eof, size_marked]
  rfl

/-- A fault is reported of the marked script as it is of the script. -/
theorem syntaxDiagnostic_marked (name : String) {source : String}
    (h : source.toList.head? ≠ some byteOrderMark) (f : SyntaxFault) :
    (scan name (marked source)).syntaxDiagnostic ((Relabelling.moved 3).fault f) =
      (scan name source).syntaxDiagnostic f := by
  have hfound : (f.found.map (Word.shift 3)).getD (scan name (marked source)).eof =
      (f.found.getD (scan name source).eof).shift 3 := by
    rw [eof_marked]
    cases f.found <;> rfl
  show Diagnostic.mk ((scan name (marked source)).position _) (.unexpected _ _) = _
  rw [show ((Relabelling.moved 3).fault f).found = f.found.map (Word.shift 3) from rfl, hfound]
  show Diagnostic.mk ((scan name (marked source)).position (_ + 3)) _ = _
  rw [position_marked name h]
  rfl

end Script

namespace Outline

/-- **The statements of a marked script are those of the script, over its words.** -/
theorem parse_marked (name : String) {source : String}
    (h : source.toList.head? ≠ some byteOrderMark) :
    (parse name (marked source)).queries =
        (parse name source).queries.map (Relabelling.moved 3).query ∧
      (parse name (marked source)).faults =
        (parse name source).faults.map (Relabelling.moved 3).fault := by
  have hmap := Session.statements_map (r := .moved 3) rfl (Script.scan name source).words
  have hwords : (Script.scan name source).words.map (Relabelling.moved 3).word =
      (Script.scan name (marked source)).words := (Script.words_marked name h).symm
  rw [hwords] at hmap
  exact hmap

/-- **A byte-order mark in front of a script changes nothing but byte offsets.** -/
theorem marks_parse (name : String) {source : String}
    (h : source.toList.head? ≠ some byteOrderMark) :
    (parse name source).Marks (parse name (marked source)) := by
  obtain ⟨hqueries, hfaults⟩ := parse_marked name h
  refine ⟨Script.words_marked name h, Script.eof_marked name source, Script.position_marked name h,
    hqueries, ?_, ?_, Script.render_marked name h⟩
  · rw [hqueries, List.map_map]
    exact List.map_congr_left fun q _ => (Relabelling.moved 3).ranges_of_index rfl q
  · rw [diagnostics, diagnostics, syntaxDiagnostics, syntaxDiagnostics, hfaults, List.map_map]
    exact congrArg₂ (· ++ ·) (Script.diagnostics_marked name h)
      (List.map_congr_left fun f _ => Script.syntaxDiagnostic_marked name h f)

/-- A missing column and a string left open, in the first line and in the last. -/
theorem marks_parse_two_lines :
    let source := "SELECT é, FROM t -- x\r\n 'y"
    source.toList.head? ≠ some byteOrderMark ∧
      (parse "q" source).queries.length = 1 ∧
      (parse "q" source).diagnostics =
        [⟨⟨"q", 2, 2⟩, .lexical .unterminatedString⟩,
          ⟨⟨"q", 1, 11⟩, .unexpectedToken "column expression" (.keyword .FROM) "FROM"⟩] ∧
      (parse "q" source).Marks (parse "q" (marked source)) := by
  intro source
  have hmark : source.toList.head? ≠ some byteOrderMark := by decide
  exact ⟨hmark, by decide +kernel, by decide +kernel, marks_parse "q" hmark⟩

end Outline

end SqlScript
