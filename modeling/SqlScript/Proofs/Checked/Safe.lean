import SqlScript.Proofs.Checked.Grammar
import SqlScript.Proofs.Checked.Place
import SqlScript.Proofs.Checked.Print
import SqlScript.Proofs.Checked.Scan
import SqlScript.Proofs.Query.Invariant

/-!
# Proofs/Checked/Safe — no script makes a run fail

    text ──▸ words ──▸ statements
       └──▸ lines ──▸ positions       words ──▸ text again, keywords cased

Everything that is done with a script is done here with every cut, count and loop checked: a cut of
the text inside a character or past its end, a count of open comments or parentheses below zero, a
line before the first and a loop that does not end all give `none`.  On every text, also one that
breaks off in the middle of a word, the checked run gives what the run without checks gives
(`safe_script`).
-/

namespace SqlScript.Checked

/-- The search for statements goes to the end. -/
theorem rest_statements (size : Nat) (ws : List Placed) :
    (Grammar.statements size ws).rest = [] := by
  fun_induction Grammar.statements size ws with
  | case1 => rfl
  | case2 p ps _ found more ih => exact ih
  | case3 p ps _ ih => exact ih

/-- The words of a script are searched for statements to the end. -/
theorem statements?_scan (name source : String) :
    statements? (Script.scan name source).words =
      some ⟨(Outline.parse name source).queries, (Outline.parse name source).faults,
        (Script.scan name source).words.length⟩ := by
  have hwords : ∀ w ∈ (Script.scan name source).words, w.isEof = false :=
    fun w hw => Script.isEof_eq_false hw
  rw [statements?_eq hwords, trace, rest_statements]
  rfl

/-- **A script goes through every run without a failure.** -/
structure Safe (name source : String) : Prop where
  /-- Its text is read to the end. -/
  scan : scan? source.toList = some (Script.scan name source).scanned
  /-- Every word read but the end moves the cursor on. -/
  advance : ∀ {pos pos' : Nat} {entry : Scanned}, step? source.toList pos = some (entry, pos') →
    entry.word.isEof = false → pos < pos'
  /-- Its words are searched for statements to the end. -/
  parse : statements? (Script.scan name source).words =
    some ⟨(Outline.parse name source).queries, (Outline.parse name source).faults,
      (Script.scan name source).words.length⟩
  /-- Every offset has a position. -/
  position : ∀ offset, position? name source.toList offset =
    some ((Script.scan name source).position offset)
  /-- It is put together again. -/
  reconstruct : reconstruct? (Script.scan name source) = some (Script.scan name source).reconstruct
  /-- It is printed in every case. -/
  render : ∀ style, render? (Script.scan name source) style =
    some (Casing.render (Script.scan name source) style)

/-- **Every script is safe.** -/
theorem safe_script (name source : String) : Safe name source := by
  obtain ⟨front, body, ts, tail, -, -, -, htiled⟩ := Script.exists_tiled name source
  exact {
    scan := scan?_eq source.toList
    advance := lt_of_step?
    parse := statements?_scan name source
    position := position?_eq name source
    reconstruct := reconstruct?_eq htiled
    render := render?_eq htiled }

end SqlScript.Checked
