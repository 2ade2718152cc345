import Mathlib.Data.List.Basic
import SqlScript.Proofs.Script.Places
import SqlScript.Proofs.Script.Retiling

/-!
# Proofs/Script/Separator — scripts put together at a separator

    first ++ "\n;" ++ second   has the words of   first,   ;,   second

A line break and a semicolon keep two scripts apart.  The break ends every word of the first script
that is closed, a line comment among them, and the semicolon ends the search of a word for the other
half of a phrase.  What was read of the first script is therefore read again, and the reader arrives
at the second script with nothing kept but its place (`Script.scan_separated`).
-/

namespace SqlScript

open SqlScript.Text

/-- A semicolon is a word by itself. -/
theorem Lexeme.read_semicolon (cs : List Char) :
    read ';' cs = plain (.symbol .semicolon) [';'] cs := by
  cases cs with
  | nil => rfl
  | cons d cs =>
    have hname : isNameStart ';' = false := by decide
    have hsign : isSign ';' = false := by decide
    have hkind : Opening.of ';' (some d) = .operator := by
      simp [Opening.of, hname, hsign, singleQuote, doubleQuote]
    have hpair : Symbol.ofPair? ';' d = none := rfl
    simp only [read, List.head?_cons, hkind, readOperator, hpair]
    rfl

/-- A row behind a separator is the semicolon and the row. -/
theorem Tiling.separated {cs tail : List Char} {ts : List Tile} (h : Tiling cs ts tail) :
    Tiling (';' :: cs) (⟨[], .plain (.symbol .semicolon) [';'] cs⟩ :: ts) tail := by
  have hread := Lexeme.read_semicolon cs
  rw [← hread, ← List.nil_append (';' :: cs)]
  refine .tile (by simp [Blank]) (by decide) ?_
  rw [hread]
  exact h

theorem map_fault_scannedFrom : ∀ (pos : Nat) (ts : List Tile),
    (scannedFrom pos ts).map Scanned.fault = ts.map fun t => t.lexeme.fault
  | _, [] => rfl
  | pos, t :: ts => by rw [scannedFrom, List.map_cons, map_fault_scannedFrom _ ts, List.map_cons]

namespace Script

theorem toList_separated (first second : String) :
    (first ++ "\n;" ++ second).toList = first.toList ++ '\n' :: ';' :: second.toList := by
  simp

/-- The reader of the joined text stands where that of the first one does. -/
theorem ofText_separated {first : String} {mark body : List Char}
    (hsource : first.toList = mark ++ body) (hmark : mark = [] ∨ mark = [byteOrderMark])
    (hreader : Reader.ofText first.toList = ⟨width mark, body⟩) (second : String) :
    Reader.ofText (first ++ "\n;" ++ second).toList =
      ⟨width mark, body ++ '\n' :: ';' :: second.toList⟩ := by
  rw [toList_separated, hsource, List.append_assoc]
  rw [hsource] at hreader
  refine Reader.ofText_exchange hmark hreader ?_
  cases body with
  | nil => exact .inr (by simp [byteOrderMark])
  | cons c body => exact .inl rfl

/-- **The place of a word of the first script is not moved by what follows.** -/
theorem position_separated (name : String) {first second : String} {entry : Scanned}
    (hentry : entry ∈ (scan name first).scanned) :
    (scan name (first ++ "\n;" ++ second)).position entry.word.span.start =
      (scan name first).position entry.word.span.start := by
  obtain ⟨mark, body, hsource, hmark, hreader⟩ := Reader.exists_mark first.toList
  obtain ⟨ts, tail, htiling⟩ := exists_tiling body
  have hjoined := ofText_separated hsource hmark hreader second
  rw [scanned_eq name hreader htiling] at hentry
  obtain ⟨front, back, rfl, hback, hstart⟩ := htiling.exists_start hentry
  rw [List.append_assoc] at hjoined
  rw [hstart, position_eq name hsource hreader, position_eq name (by simp [hsource]) hjoined,
    placed_append name front hback]

/-- **The words of the first script, the separator, and the words of the second.** -/
theorem scanned_separated (name : String) {first second : String}
    (hclosed : ∀ entry ∈ (scan name first).scanned,
      entry.fault.any LexicalFault.isUnterminated = false)
    (hmark : second.toList.head? ≠ some byteOrderMark) :
    (scan name (first ++ "\n;" ++ second)).scanned = (scan name first).scanned ++
      ⟨⟨.symbol .semicolon, ";", ⟨(scan name first).size + 1, (scan name first).size + 2⟩⟩, none⟩ ::
        (scan name second).scanned.map (Scanned.shift ((scan name first).size + 2)) := by
  obtain ⟨mark, body, hsource, hfront, hreader⟩ := Reader.exists_mark first.toList
  obtain ⟨ts, tail, hfirst⟩ := exists_tiling body
  obtain ⟨us, tail', hsecond⟩ := exists_tiling second.toList
  have hsize : (scan name first).size = width mark + width body := by
    rw [← width_append, ← hsource]
    rfl
  rw [scanned_eq name hreader hfirst] at hclosed ⊢
  have hunclosed : ∀ t ∈ ts, t.lexeme.isUnclosed = false := by
    intro t ht
    have hfault : t.lexeme.fault ∈ (scannedFrom (width mark) ts).map Scanned.fault := by
      rw [map_fault_scannedFrom]
      exact List.mem_map_of_mem ht
    obtain ⟨entry, hentry, heq⟩ := List.mem_map.mp hfault
    rw [Lexeme.isUnclosed, ← heq]
    exact hclosed entry hentry
  obtain ⟨vs, tail'', hjoined, -, hscan⟩ := hfirst.exists_append hunclosed hsecond.separated rfl
  rw [scanned_eq name (ofText_separated hsource hfront hreader second) hjoined, hscan,
    scanned_eq name (Reader.ofText_of_head?_ne hmark) hsecond, hsize, ← scannedFrom_add,
    scannedFrom, Nat.zero_add]
  rfl

/-- The causes of lexical diagnostics are the faults of words, wherever these are placed. -/
theorem map_cause_filterMap (place : Scanned → Position) (entries : List Scanned) :
    (entries.filterMap fun entry => entry.fault.map fun fault =>
        (⟨place entry, .lexical fault⟩ : Diagnostic)).map Diagnostic.cause =
      entries.filterMap fun entry => entry.fault.map Cause.lexical := by
  rw [List.map_filterMap]
  simp only [Option.map_map]
  rfl

/-- **Scanning goes on behind a separator as at a start.** -/
theorem scan_separated (name : String) {first second : String}
    (hclosed : ∀ fault, .lexical fault ∈ (scan name first).diagnostics.map Diagnostic.cause →
      fault.isUnterminated = false)
    (hmark : second.toList.head? ≠ some byteOrderMark) :
    let n := (scan name first).size
    let joined := scan name (first ++ "\n;" ++ second)
    joined.words = (scan name first).words ++
      ⟨.symbol .semicolon, ";", ⟨n + 1, n + 2⟩⟩ ::
        (scan name second).words.map (Word.shift (n + 2)) ∧
    ∃ behind, joined.diagnostics = (scan name first).diagnostics ++ behind ∧
      behind.map Diagnostic.cause = (scan name second).diagnostics.map Diagnostic.cause := by
  intro n joined
  have hentries : ∀ entry ∈ (scan name first).scanned,
      entry.fault.any LexicalFault.isUnterminated = false := by
    intro entry hentry
    cases hfault : entry.fault with
    | none => rfl
    | some fault =>
      refine hclosed fault ?_
      rw [diagnostics, map_cause_filterMap]
      exact List.mem_filterMap.mpr ⟨entry, hentry, by rw [hfault]; rfl⟩
  have hscanned := scanned_separated name hentries hmark
  constructor
  · rw [words, hscanned, List.map_append, List.map_cons, map_word_shift]
    rfl
  · rw [diagnostics, hscanned, List.filterMap_append]
    refine ⟨_, congrArg (· ++ _) (List.filterMap_congr fun entry hentry => ?_), ?_⟩
    · rw [position_separated name hentry]
    · rw [map_cause_filterMap, diagnostics, map_cause_filterMap, List.filterMap_cons_none rfl,
        List.filterMap_map]
      rfl

/-- Across the separator `GROUP` and `BY` make no phrase, the comment ends, and the string of the
second script may stay open. -/
theorem scan_separated_phrase :
    let first := scan "q" "? GROUP -- é"
    let second := scan "q" "BY 'x"
    let joined := scan "q" ("? GROUP -- é" ++ "\n;" ++ "BY 'x")
    first.size = 13 ∧
    first.diagnostics.map Diagnostic.cause = [.lexical (.illegalCharacter '?')] ∧
    second.diagnostics.map Diagnostic.cause = [.lexical .unterminatedString] ∧
    joined.words = first.words ++
      ⟨.symbol .semicolon, ";", ⟨14, 15⟩⟩ :: second.words.map (Word.shift 15) := by
  intro first second joined
  have hsize : first.size = 13 := by decide +kernel
  have hcauses : first.diagnostics.map Diagnostic.cause = [.lexical (.illegalCharacter '?')] := by
    decide +kernel
  have hclosed : ∀ fault, .lexical fault ∈ first.diagnostics.map Diagnostic.cause →
      fault.isUnterminated = false := by
    intro fault hfault
    rw [hcauses] at hfault
    cases List.mem_singleton.mp hfault
    rfl
  have hmark : "BY 'x".toList.head? ≠ some byteOrderMark := by decide
  have hwords := (scan_separated "q" hclosed hmark).1
  rw [hsize] at hwords
  exact ⟨hsize, hcauses, by decide +kernel, hwords⟩

end Script

end SqlScript
