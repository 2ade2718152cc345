import SqlScript.Proofs.Query.Visible
import SqlScript.Proofs.Script.LetterCase
import SqlScript.Script.Outline

/-!
# Query/LetterCase — a script is outlined without looking at the case of letters

Scanning a script in capitals gives its words in capitals, and reading a statement looks at tokens
only; so the outline of a script in capitals is its outline in capitals (`Outline.parse_upper`,
`Outline.diagnostics_upper`).  Two scripts that differ in the case of letters therefore have the
same words, queries and diagnostics, up to the case of what they spell
(`Outline.sameInCapitals_parse`).
-/

namespace SqlScript

open SqlScript.Text

/-! ## Capitals -/

/-- All spellings in capitals. -/
def Relabelling.capitals : Relabelling := { literal := upper }

/-- A query that spells its words in capitals. -/
def Query.toUpper (q : Query) : Query := Relabelling.capitals.query q

/-- A cause that spells the word it names in capitals. -/
def Cause.toUpper : Cause → Cause
  | .unexpectedToken expected found literal => .unexpectedToken expected found (upper literal)
  | cause => cause

/-- A diagnostic that spells the word it names in capitals. -/
def Diagnostic.toUpper (d : Diagnostic) : Diagnostic := { d with cause := d.cause.toUpper }

/-- **Two outlines that agree up to the case of letters.** -/
structure Outline.SameInCapitals (o o' : Outline) : Prop where
  /-- They have as many words, with the same tokens at the same places… -/
  words : o.script.words.map Word.toUpper = o'.script.words.map Word.toUpper
  /-- …as many queries, with the same ranges, clauses, flags and joins over such words… -/
  queries : o.queries.map Query.toUpper = o'.queries.map Query.toUpper
  /-- …whose runs cover the same ranges… -/
  ranges : o.queries.map (·.expressions.map Expression.range) =
    o'.queries.map (·.expressions.map Expression.range)
  /-- …and as many diagnostics, of the same causes at the same positions. -/
  diagnostics : o.diagnostics.map Diagnostic.toUpper = o'.diagnostics.map Diagnostic.toUpper

/-! ## Scripts in capitals -/

namespace Script

theorem words_upper (name source : String) :
    (scan name (upper source)).words = (scan name source).words.map Word.toUpper := by
  rw [words, scanned_upper, words, List.map_map, List.map_map]
  rfl

theorem eof_upper (name source : String) :
    (scan name (upper source)).eof = (scan name source).eof.toUpper := by
  have hsize : (scan name (upper source)).size = (scan name source).size := by
    show width (upper source).toList = width source.toList
    rw [toList_upper, width_map utf8Size_toUpper]
  rw [eof, hsize]
  rfl

end Script

theorem Cause.unexpected_toUpper (expected : String) (found : Word) :
    unexpected expected found.toUpper = (unexpected expected found).toUpper := by
  rw [unexpected, unexpected, show found.toUpper.isEof = found.isEof from rfl]
  split <;> rfl

/-- A fault is reported of the script in capitals as it is of the script. -/
theorem Script.syntaxDiagnostic_upper (name source : String) (f : SyntaxFault) :
    (scan name (upper source)).syntaxDiagnostic (Relabelling.capitals.fault f) =
      ((scan name source).syntaxDiagnostic f).toUpper := by
  have hfound : (f.found.map Word.toUpper).getD (scan name (upper source)).eof =
      (f.found.getD (scan name source).eof).toUpper := by
    rw [eof_upper]
    cases f.found <;> rfl
  show Diagnostic.mk ((scan name (upper source)).position _) (.unexpected _ _) = _
  rw [show (Relabelling.capitals.fault f).found = f.found.map Word.toUpper from rfl, hfound,
    position_upper, Cause.unexpected_toUpper]
  rfl

/-! ## Outlines in capitals -/

namespace Outline

/-- **The statements of a script in capitals are those of the script, in capitals.** -/
theorem parse_upper (name source : String) :
    (parse name (upper source)).queries = (parse name source).queries.map Query.toUpper ∧
      (parse name (upper source)).faults =
        (parse name source).faults.map Relabelling.capitals.fault := by
  have hmap := Session.statements_map (r := .capitals) rfl (Script.scan name source).words
  have hwords : (Script.scan name source).words.map Relabelling.capitals.word =
      (Script.scan name (upper source)).words := (Script.words_upper name source).symm
  rw [hwords] at hmap
  exact hmap

/-- **The diagnostics of a script in capitals are those of the script, in capitals.** -/
theorem diagnostics_upper (name source : String) :
    (parse name (upper source)).diagnostics =
      (parse name source).diagnostics.map Diagnostic.toUpper := by
  have hlexical : (Script.scan name source).diagnostics.map Diagnostic.toUpper =
      (Script.scan name source).diagnostics := by
    rw [Script.diagnostics, List.map_filterMap]
    refine congrArg (List.filterMap · _) (funext fun entry => ?_)
    cases entry.fault <;> rfl
  have hsyntax : (parse name (upper source)).syntaxDiagnostics =
      (parse name source).syntaxDiagnostics.map Diagnostic.toUpper := by
    rw [syntaxDiagnostics, (parse_upper name source).2, syntaxDiagnostics, List.map_map,
      List.map_map]
    exact List.map_congr_left fun f _ => Script.syntaxDiagnostic_upper name source f
  calc (parse name (upper source)).diagnostics
      = (Script.scan name (upper source)).diagnostics ++
          (parse name (upper source)).syntaxDiagnostics := rfl
    _ = (Script.scan name source).diagnostics.map Diagnostic.toUpper ++
          (parse name source).syntaxDiagnostics.map Diagnostic.toUpper := by
        rw [Script.diagnostics_upper, hlexical, hsyntax]
    _ = (parse name source).diagnostics.map Diagnostic.toUpper := List.map_append.symm

end Outline

/-- Runs in capitals cover the same ranges. -/
theorem Query.ranges_toUpper (q : Query) :
    q.toUpper.expressions.map Expression.range = q.expressions.map Expression.range :=
  Relabelling.capitals.ranges_of_index rfl q

/-- **Outlining a script does not look at the case of letters**: scripts that differ in it only have
outlines that differ in it only. -/
theorem Outline.sameInCapitals_parse {source source' : String} (name : String)
    (h : upper source = upper source') :
    (parse name source).SameInCapitals (parse name source') := by
  have hqueries : (parse name source).queries.map Query.toUpper =
      (parse name source').queries.map Query.toUpper := by
    rw [← (parse_upper name source).1, h, (parse_upper name source').1]
  refine ⟨?_, hqueries, ?_, ?_⟩
  · show (Script.scan name source).words.map _ = (Script.scan name source').words.map _
    rw [← Script.words_upper, h, Script.words_upper]
  · have hranges := congrArg (List.map fun q => q.expressions.map Expression.range) hqueries
    simpa only [List.map_map, Function.comp_def, Query.ranges_toUpper] using hranges
  · rw [← diagnostics_upper, h, diagnostics_upper]

/-- Keywords, a phrase across a comment, a national string, an exponent and a name that is in
brackets, with a fault at the end. -/
theorem Outline.sameInCapitals_parse_mixed :
    let source := "Select N'x', 1E5 from [Tab] group /* c */ by"
    let source' := "sElEcT n'X', 1e5 FROM [tAB] GrouP /* C */ bY"
    upper source = upper source' ∧ (parse "q" source).SameInCapitals (parse "q" source') := by
  intro source source'
  have h : upper source = upper source' := by decide
  exact ⟨h, sameInCapitals_parse "q" h⟩

end SqlScript
