import Mathlib.Data.List.Forall2
import SqlScript.Proofs.Casing.Print
import SqlScript.Proofs.Script.Lossless

/-!
# Proofs/Casing/Stream — a script in print has the words of the script

Printing a script in another case and scanning the print gives back the same words: as many of them,
each with its token and its place, and with its literal too unless the word is cased
(`scan_render`).  The print and the script are the same text in capitals, and a word that is not
cased is copied.
-/

namespace SqlScript.Casing

open SqlScript.Text

/-- **A word `w` of a script and the word `w'` it is read back as from the print.** -/
structure Recased (s : Script) (w w' : Word) : Prop where
  token_eq : w'.token = w.token
  span_eq : w'.span = w.span
  /-- The literal may change in the case of letters… -/
  upper_literal_eq : upper w'.literal = upper w.literal
  /-- …and only where the word is cased. -/
  literal_eq : isCased w (s.text w) = false → w'.literal = w.literal

/-- A word that is not cased is no phrase, and is printed as it is. -/
theorem isPhrase_of_isCased_eq_false {w : Word} {cs : List Char} (h : isCased w cs = false) :
    w.token.isPhrase = false := by
  cases htoken : w.token with
  | keyword k => simp [isCased, htoken, Token.isKeyword] at h
  | _ => rfl

theorem printWord_of_isCased_eq_false {style : KeywordCase} {w : Word} {cs : List Char}
    (h : isCased w cs = false) : printWord style w cs = cs := by
  rw [printWord, if_neg (by simp [h])]

/-- A word that is not cased is read back with its literal. -/
theorem literal_eq_of_span_eq {name source : String} {style : KeywordCase} {w w' : Word}
    (hw : w ∈ (Script.scan name source).words)
    (hw' : w' ∈ (Script.scan name (render (Script.scan name source) style)).words)
    (htoken : w'.token = w.token) (hspan : w'.span = w.span)
    (hcased : isCased w ((Script.scan name source).text w) = false) :
    w'.literal = w.literal := by
  have hphrase := isPhrase_of_isCased_eq_false hcased
  have hbefore := Script.slice?_literal hw hphrase
  have hafter := Script.slice?_literal hw' (htoken ▸ hphrase)
  obtain ⟨front, body, ts, tail, -, -, -, htiled⟩ := Script.exists_tiled name source
  have hprint := slice?_render style htiled hw
  rw [printWord_of_isCased_eq_false hcased] at hprint
  have htext : (Script.scan name source).text w = w.literal.toList := by
    rw [Script.text, hbefore, Option.getD_some]
  rw [hspan, Script.slice?] at hafter
  rw [htext] at hprint
  exact String.toList_inj.mp (Option.some.inj (hafter.symm.trans hprint))

/-- **Printing keeps the token stream**: the print is scanned into the words of the script, recased,
with the same diagnostics at the same places. -/
theorem scan_render (name source : String) (style : KeywordCase) :
    let before := Script.scan name source
    let after := Script.scan name (render before style)
    List.Forall₂ (Recased before) before.words after.words ∧
      after.diagnostics = before.diagnostics := by
  intro before after
  have hupper := upper_render name source style
  have hscanned : after.scanned.map Scanned.toUpper = before.scanned.map Scanned.toUpper := by
    rw [← Script.scanned_upper, ← Script.scanned_upper, hupper]
  have hwords : before.words.map Word.toUpper = after.words.map Word.toUpper := by
    have := congrArg (List.map Scanned.word) hscanned
    simpa [Script.words, Scanned.toUpper, Function.comp_def] using this.symm
  refine ⟨List.forall₂_iff_get.mpr ⟨?_, fun i hi hi' => ?_⟩, ?_⟩
  · simpa using congrArg List.length hwords
  · have hword : (before.words.get ⟨i, hi⟩).toUpper = (after.words.get ⟨i, hi'⟩).toUpper := by
      have := congrArg (fun ws : List Word => ws[i]?) hwords
      simpa [hi, hi'] using this
    have htoken := (congrArg Word.token hword).symm
    have hspan := (congrArg Word.span hword).symm
    exact ⟨htoken, hspan, (congrArg Word.literal hword).symm,
      literal_eq_of_span_eq (List.get_mem _ _) (List.get_mem _ _) htoken hspan⟩
  · rw [← Script.diagnostics_upper name (render before style), hupper]
    exact Script.diagnostics_upper name source

end SqlScript.Casing
