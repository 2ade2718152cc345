import SqlScript.Casing
import SqlScript.Proofs.Script.LetterCase

/-!
# Proofs/Casing/Print — a script in print has the layout of the script

Printing goes tile by tile: the white space stays, and the text of a word is printed in its place
(`toList_render`).  A word in print is the same word up to the case of its letters
(`printWord_map_toUpper`), so the whole print is the script up to case (`upper_render`), every byte
offset keeps its meaning, and a word in print stands where the word stood (`slice?_render`).
-/

namespace SqlScript.Casing

open SqlScript.Text

/-! ## Words -/

theorem toUpper_apply (style : KeywordCase) (c : Char) : (style.apply c).toUpper = c.toUpper := by
  cases style <;> simp [KeywordCase.apply]

/-- The two parts make up the text, also where it cannot be cut. -/
theorem splitWidth_append (n : Nat) (cs : List Char) :
    (splitWidth n cs).1 ++ (splitWidth n cs).2 = cs := by
  unfold splitWidth
  cases hdrop : dropBytes? n cs with
  | none => simp [takeBytes?_eq_none hdrop]
  | some bs =>
    obtain ⟨as, rfl, rfl⟩ := exists_append_of_dropBytes? hdrop
    simp [takeBytes?_width_append]

/-- **Recasing changes nothing but the case of letters.** -/
theorem recase_map_toUpper (style : KeywordCase) (cs : List Char) :
    (recase style cs).map Char.toUpper = cs.map Char.toUpper := by
  fun_induction recase style cs with
  | case1 => rfl
  | case2 c cs hword ih => rw [List.map_cons, toUpper_apply, ih, List.map_cons]
  | case3 c cs hword hline line ih =>
    have hparts : line.1 ++ line.2 = c :: cs := List.takeWhile_append_dropWhile
    rw [List.map_append, ih, ← List.map_append, hparts]
  | case4 c cs hword hline hblock comment ih =>
    have hparts : comment.1 ++ comment.2 = c :: cs := splitWidth_append _ _
    rw [List.map_append, ih, ← List.map_append, hparts]
  | case5 c cs hword hline hblock ih => rw [List.map_cons, ih, List.map_cons]

theorem printWord_map_toUpper (style : KeywordCase) (w : Word) (cs : List Char) :
    (printWord style w cs).map Char.toUpper = cs.map Char.toUpper := by
  unfold printWord
  split
  · exact recase_map_toUpper style cs
  · rfl

/-- A word in print is as wide as the word. -/
theorem width_printWord (style : KeywordCase) (w : Word) (cs : List Char) :
    width (printWord style w cs) = width cs := by
  rw [← width_map utf8Size_toUpper, printWord_map_toUpper, width_map utf8Size_toUpper]

/-! ## Scripts -/

/-- The tile in print. -/
def printTile (style : KeywordCase) (t : Tile) : Tile :=
  { t with lexeme := { t.lexeme with text := printWord style (t.word 0) t.lexeme.text } }

theorem text_printTile (style : KeywordCase) (t : Tile) :
    (printTile style t).text = t.gap ++ printWord style (t.word 0) t.lexeme.text := rfl

theorem width_flatMap_printTile (style : KeywordCase) : ∀ ts : List Tile,
    width ((ts.map (printTile style)).flatMap Tile.text) = width (ts.flatMap Tile.text)
  | [] => rfl
  | t :: ts => by
      rw [List.map_cons, List.flatMap_cons, width_append, width_flatMap_printTile style ts,
        List.flatMap_cons, width_append, text_printTile, width_append, width_printWord,
        Tile.width_text]

theorem map_toUpper_flatMap_printTile (style : KeywordCase) : ∀ ts : List Tile,
    ((ts.map (printTile style)).flatMap Tile.text).map Char.toUpper =
      (ts.flatMap Tile.text).map Char.toUpper
  | [] => rfl
  | t :: ts => by
      rw [List.map_cons, List.flatMap_cons, List.map_append,
        map_toUpper_flatMap_printTile style ts, text_printTile, List.map_append,
        printWord_map_toUpper, ← List.map_append, ← List.map_append, List.flatMap_cons]
      rfl

section Tiled

variable {s : Script} {front tail : List Char} {ts : List Tile} (style : KeywordCase)

/-- **A script is printed tile by tile.** -/
theorem toList_render (h : s.Tiled front ts tail) :
    (render s style).toList = front ++ ((ts.map (printTile style)).flatMap Tile.text ++ tail) := by
  have hprint : ∀ pre t post, ts = pre ++ t :: post →
      printWord style (t.word (width front + width (pre.flatMap Tile.text)))
        (s.text (t.word (width front + width (pre.flatMap Tile.text)))) =
      printWord style (t.word 0) t.lexeme.text := by
    rintro pre t post rfl
    rw [h.text_eq]
    rfl
  rw [render, String.toList_ofList, h.assemble_eq hprint, List.flatMap_map]
  rfl

/-- **A word in print stands where the word stood.** -/
theorem slice?_render (h : s.Tiled front ts tail) {w : Word} (hw : w ∈ s.words) :
    slice? (render s style).toList w.span.start w.span.stop =
      some (printWord style w (s.text w)) := by
  rw [h.words_eq] at hw
  obtain ⟨pre, t, post, rfl, rfl⟩ := exists_tile_of_mem hw
  rw [h.text_eq, toList_render style h, Tile.start_word, Tile.stop_word]
  have hcut := slice?_append (front ++ ((pre.map (printTile style)).flatMap Tile.text ++ t.gap))
    (printWord style (t.word 0) t.lexeme.text)
    ((post.map (printTile style)).flatMap Tile.text ++ tail)
  simp only [width_append, width_flatMap_printTile, width_printWord] at hcut
  simp only [List.map_append, List.map_cons, List.flatMap_append, List.flatMap_cons,
    text_printTile, List.append_assoc, Tile.width_text, Nat.add_assoc] at hcut ⊢
  exact hcut

end Tiled

/-- **A script in print is the script up to the case of letters.** -/
theorem upper_render (name source : String) (style : KeywordCase) :
    upper (render (Script.scan name source) style) = upper source := by
  obtain ⟨front, body, ts, tail, hsource, -, htiling, htiled⟩ := Script.exists_tiled name source
  rw [upper_eq_upper_iff, toList_render style htiled, hsource, List.map_append, List.map_append,
    map_toUpper_flatMap_printTile, ← List.map_append, htiling.flatMap_text, ← List.map_append]

end SqlScript.Casing
