import SqlScript.Proofs.Casing.Recase
import SqlScript.Proofs.Casing.Stream

/-!
# Proofs/Casing/Reprint — printing a print

The print of a script is read into the same row of tiles as the script, each with its word in print:
the two texts agree in capitals, and a text in capitals can be laid out in one way only
(`Tiling.unique`).  Which words are cased does not depend on the case they are in, and a word
printed twice is the word in the second case (`printWord_printWord`).  So of two prints only the
last counts, unless it keeps the case it finds (`render_render`).
-/

namespace SqlScript.Casing

open SqlScript.Text

/-! ## Words -/

theorem isUndelimited_map_toUpper (cs : List Char) :
    isUndelimited (cs.map Char.toUpper) = isUndelimited cs := by
  cases cs with
  | nil => rfl
  | cons c cs =>
    have hdelimiter : ∀ d : Char, (d.toUpper = '[' || d.toUpper = doubleQuote) =
        (d = '[' || d = doubleQuote) :=
      congr_toUpper (fun d => (d = '[' || d = doubleQuote : Bool)) (by decide)
    simp [isUndelimited, hdelimiter]

/-- **Whether a word is cased does not depend on its case.** -/
theorem isCased_congr {w w' : Word} {cs cs' : List Char} (htoken : w'.token = w.token)
    (hupper : cs'.map Char.toUpper = cs.map Char.toUpper) : isCased w' cs' = isCased w cs := by
  have hreserved : Token.isReserved (String.ofList cs') = Token.isReserved (String.ofList cs) := by
    rw [Token.isReserved, Token.isReserved, ← upper_ofList_map_toUpper, hupper,
      upper_ofList_map_toUpper]
  have hundelimited : isUndelimited cs' = isUndelimited cs := by
    rw [← isUndelimited_map_toUpper, hupper, isUndelimited_map_toUpper]
  rw [isCased, htoken, hreserved, hundelimited, isCased]

/-- **A word printed twice is the word in the second case.** -/
theorem printWord_printWord {second : KeywordCase} (h : second ≠ .preserve) (first : KeywordCase)
    {w w' : Word} (htoken : w'.token = w.token) (cs : List Char) :
    printWord second w' (printWord first w cs) = printWord second w cs := by
  have hcased : isCased w' (printWord first w cs) = isCased w cs :=
    isCased_congr htoken (printWord_map_toUpper first w cs)
  cases hw : isCased w cs with
  | false =>
    rw [printWord_of_isCased_eq_false (hcased.trans hw), printWord_of_isCased_eq_false hw,
      printWord_of_isCased_eq_false hw]
  | true =>
    have hsecond : ∀ {v : Word} {ds : List Char},
        isCased v ds = true → printWord second v ds = recase second ds := fun hv => if_pos ⟨h, hv⟩
    rw [hsecond (hcased.trans hw), hsecond hw, printWord]
    split
    · exact recase_recase h first cs
    · rfl

/-! ## Rows of tiles -/

/-- **A row of tiles read from the print of a row prints as the row does.**  The tiles are as long
as those printed, so the print falls into their texts one by one. -/
theorem flatMap_printTile_of_print {first second : KeywordCase} (h : second ≠ .preserve)
    {ts ts' : List Tile} {tail tail' : List Char}
    (hupper : ts'.map Tile.toUpper = ts.map Tile.toUpper)
    (hprint : ts'.flatMap Tile.text ++ tail' =
      (ts.map (printTile first)).flatMap Tile.text ++ tail) :
    (ts'.map (printTile second)).flatMap Tile.text ++ tail' =
      (ts.map (printTile second)).flatMap Tile.text ++ tail := by
  induction ts generalizing ts' with
  | nil =>
    obtain rfl : ts' = [] := List.map_eq_nil_iff.mp hupper
    exact hprint
  | cons t ts ih =>
    obtain ⟨t', ts', rfl, htile, htiles⟩ := List.map_eq_cons_iff.mp hupper
    simp only [List.map_cons, List.flatMap_cons, Tile.text, List.append_assoc] at hprint ⊢
    have hgap : t'.gap.length = t.gap.length := by
      simpa [Tile.toUpper] using congrArg (·.gap.length) htile
    have hlexeme : t'.lexeme.text.map Char.toUpper =
        (printWord first (t.word 0) t.lexeme.text).map Char.toUpper := by
      rw [printWord_map_toUpper]
      exact congrArg (·.lexeme.text) htile
    have htext : t'.lexeme.text.length = (printTile first t).lexeme.text.length := by
      simpa [printTile] using congrArg List.length hlexeme
    obtain ⟨hgap, hprint⟩ := List.append_inj hprint hgap
    obtain ⟨htext, hprint⟩ := List.append_inj hprint htext
    have htoken : (t'.word 0).token = (t.word 0).token := congrArg (·.lexeme.token) htile
    have hword : (printTile second t').lexeme.text = (printTile second t).lexeme.text := by
      show printWord second (t'.word 0) t'.lexeme.text = _
      rw [htext]
      exact printWord_printWord h first htoken t.lexeme.text
    rw [ih htiles hprint, hword]
    exact congrArg (· ++ _) hgap

/-- Texts that agree in capitals are laid out in tiles that do. -/
theorem map_toUpper_of_tiling {cs cs' tail tail' : List Char} {ts ts' : List Tile}
    (h : Tiling cs ts tail) (h' : Tiling cs' ts' tail')
    (hupper : cs'.map Char.toUpper = cs.map Char.toUpper) :
    ts'.map Tile.toUpper = ts.map Tile.toUpper := by
  have hcapitals := h'.map_toUpper
  rw [hupper] at hcapitals
  exact (hcapitals.unique h.map_toUpper).1

/-! ## Scripts -/

/-- Nothing changes in a print that keeps the case. -/
theorem render_preserve (name source : String) :
    render (Script.scan name source) .preserve = source := by
  obtain ⟨front, body, ts, tail, -, -, -, htiled⟩ := Script.exists_tiled name source
  have hkeep : printTile .preserve = id := by
    funext t
    simp [printTile, printWord]
  rw [← String.toList_inj, toList_render .preserve htiled, hkeep, List.map_id]
  exact htiled.source_eq.symm

/-- Two readers behind at most a byte-order mark each have passed the same if they have come as
far. -/
theorem front_eq {front front' : List Char} (h : front = [] ∨ front = [byteOrderMark])
    (h' : front' = [] ∨ front' = [byteOrderMark]) (hwidth : width front' = width front) :
    front' = front := by
  have hmark : width [byteOrderMark] ≠ width [] := by decide
  rcases h with rfl | rfl <;> rcases h' with rfl | rfl
  · rfl
  · exact absurd hwidth hmark
  · exact absurd hwidth.symm hmark
  · rfl

/-- A print in a case is the print of any print of the script. -/
theorem render_render_of_ne_preserve (name name' source : String) (first : KeywordCase)
    {second : KeywordCase} (h : second ≠ .preserve) :
    render (Script.scan name' (render (Script.scan name source) first)) second =
      render (Script.scan name source) second := by
  generalize hprint : render (Script.scan name source) first = print
  have hupper : print.toList.map Char.toUpper = source.toList.map Char.toUpper := by
    rw [← upper_eq_upper_iff, ← hprint, upper_render]
  obtain ⟨front, hsource, hfront, hpos⟩ := Script.exists_ofText source.toList
  obtain ⟨front', hsource', hfront', hpos'⟩ := Script.exists_ofText print.toList
  obtain ⟨ts, tail, htiling⟩ := exists_tiling (Reader.ofText source.toList).rest
  obtain ⟨ts', tail', htiling'⟩ := exists_tiling (Reader.ofText print.toList).rest
  have htiled := Script.tiled_of_tiling name hsource hpos htiling
  have htiled' := Script.tiled_of_tiling name' hsource' hpos' htiling'
  -- The two readers stand at the same place, in front of texts that agree in capitals.
  have hreader := ofText_map_toUpper print.toList
  rw [hupper, ofText_map_toUpper] at hreader
  obtain ⟨hplace, hrest⟩ := Reader.mk.inj hreader
  obtain rfl : front' = front := front_eq hfront hfront' (by rw [← hpos, ← hpos', hplace])
  have hrow : ts'.flatMap Tile.text ++ tail' =
      (ts.map (printTile first)).flatMap Tile.text ++ tail := by
    have happend := toList_render first htiled
    rw [hprint, hsource', ← htiling'.flatMap_text] at happend
    exact List.append_cancel_left happend
  rw [← String.toList_inj, toList_render second htiled', toList_render second htiled,
    flatMap_printTile_of_print h (map_toUpper_of_tiling htiling htiling' hrest.symm) hrow]

/-- **Of two prints the last one counts**: printing a script in one case and the print in another is
printing the script in the second case, where keeping the case counts as none.  Keeping it prints
the script as it is. -/
theorem render_render (name name' source : String) (first second : KeywordCase) :
    render (Script.scan name' (render (Script.scan name source) first)) second =
        render (Script.scan name source) (if second = .preserve then first else second) ∧
      render (Script.scan name source) .preserve = source := by
  refine ⟨?_, render_preserve name source⟩
  split
  · next hkeep => rw [hkeep, render_preserve]
  · next hcase => exact render_render_of_ne_preserve name name' source first hcase

end SqlScript.Casing
