import SqlScript.Proofs.Lexeme.Lookahead
import SqlScript.Text.Utf8

/-!
# Proofs/Checked/Cursor — walking a text by byte offsets, with every cut checked

    pos ──▸ peek ──▸ pos + width of the character ──▸ …

A text is walked here as bytes: a cursor is an offset, a look at the text cuts it at the offset, and
loops move the offset until they find what they look for.  Everything is checked: a cut inside a
character or past the end, a count that falls below zero and a loop that does not end all give
`none`.  A loop belongs to the list it walks, and calls itself on it:
`source |>.passWhile? p (pos + c.utf8Size)`.

On a cursor that stands in front of a text (`At`) each loop gives an offset, and it is the one where
the text is cut by the function of the same job on characters (`passWhile?_eq`, `passComment?_eq`,
`passTrivia?_eq`).
-/

namespace SqlScript

/-- A list that is walked by an index or an offset, with every step checked. -/
abbrev Checked (α : Type) : Type := List α

namespace Checked

open SqlScript.Text SqlScript.Lexeme

/-! ## Offsets and cuts -/

/-- A difference; `none` below zero. -/
def sub? (m n : Nat) : Option Nat := if n ≤ m then some (m - n) else none

theorem sub?_eq {m n : Nat} (h : n ≤ m) : sub? m n = some (m - n) := if_pos h

/-- From byte `pos` on the text is `cs`. -/
def At (source : List Char) (pos : Nat) (cs : List Char) : Prop := dropBytes? pos source = some cs

theorem at_zero (source : List Char) : At source 0 source := dropBytes?_zero source

section

variable {source as bs cs : List Char} {pos : Nat} {c : Char}

/-- A cursor moves by the width of what it passes. -/
theorem At.append (h : At source pos (as ++ bs)) : At source (pos + width as) bs := by
  obtain ⟨front, rfl, rfl⟩ := exists_append_of_dropBytes? h
  rw [At, ← width_append, ← List.append_assoc]
  exact dropBytes?_width_append _ _

theorem At.cons (h : At source pos (c :: cs)) : At source (pos + c.utf8Size) cs :=
  At.append (show At source pos ([c] ++ cs) from h)

/-- The text in front of a cursor reaches to the end. -/
theorem At.add_width (h : At source pos cs) : pos + width cs = width source := by
  obtain ⟨front, rfl, rfl⟩ := exists_append_of_dropBytes? h
  exact (width_append _ _).symm

/-- What a cursor has passed can be cut out. -/
theorem At.slice?_eq (h : At source pos (as ++ bs)) :
    slice? source pos (pos + width as) = some as := by
  obtain ⟨front, rfl, rfl⟩ := exists_append_of_dropBytes? h
  exact slice?_append front as bs

/-! ## Looking ahead -/

/-- The character at a cursor. -/
def peek? (source : List Char) (pos : Nat) : Option (Option Char) :=
  (dropBytes? pos source).map List.head?

/-- The character behind the one at a cursor. -/
def peekNext? (source : List Char) (pos : Nat) : Option (Option Char) :=
  (dropBytes? pos source).map fun cs => cs.tail.head?

/-- A mark stands at a cursor. -/
def startsWith? (source : List Char) (pos : Nat) (mark : List Char) : Option Bool :=
  (dropBytes? pos source).map mark.isPrefixOf

theorem At.peek?_eq (h : At source pos cs) : peek? source pos = some cs.head? := by
  rw [peek?, h]
  rfl

example : peek? ['ą'] 1 = none := by decide

theorem At.peekNext?_eq (h : At source pos cs) : peekNext? source pos = some cs.tail.head? := by
  rw [peekNext?, h]
  rfl

theorem At.startsWith?_eq (h : At source pos cs) (mark : List Char) :
    startsWith? source pos mark = some (mark.isPrefixOf cs) := by
  rw [startsWith?, h]
  rfl

end

/-! ## Runs of characters -/

/-- Passes the characters that `p` admits. -/
def passWhile? (source : Checked Char) (p : Char → Bool) (pos : Nat) : Option Nat := do
  match ← peek? source pos with
  | some c => if p c then source |>.passWhile? p (pos + c.utf8Size) else return pos
  | none => return pos
partial_fixpoint

theorem passWhile?_eq {source cs : List Char} {pos : Nat} (h : At source pos cs)
    (p : Char → Bool) : passWhile? source p pos = some (pos + width (cs.takeWhile p)) := by
  induction cs generalizing pos with
  | nil =>
    rw [passWhile?, h.peek?_eq]
    rfl
  | cons c cs ih =>
    rw [passWhile?, h.peek?_eq]
    by_cases hc : p c = true
    · rw [List.takeWhile_cons_of_pos hc, width_cons, ← Nat.add_assoc, ← ih h.cons]
      exact if_pos hc
    · rw [List.takeWhile_cons_of_neg hc]
      exact if_neg hc

/-! ## Names and strings

The loops that look for an end give the offset behind it, or `none` inside if the text ends
first. -/

/-- Passes characters up to and with the first `mark`. -/
def passDelimited? (source : Checked Char) (mark : Char) (pos : Nat) : Option (Option Nat) := do
  match ← peek? source pos with
  | some c =>
    if c = mark then return some (pos + c.utf8Size)
    else source |>.passDelimited? mark (pos + c.utf8Size)
  | none => return none
partial_fixpoint

theorem passDelimited?_eq {source cs : List Char} {mark : Char} {pos : Nat}
    (h : At source pos cs) :
    passDelimited? source mark pos = some ((closeName mark cs).map fun p => pos + width p.1) := by
  induction cs generalizing pos with
  | nil =>
    rw [passDelimited?, h.peek?_eq]
    rfl
  | cons c cs ih =>
    rw [passDelimited?, h.peek?_eq, closeName]
    by_cases hc : c = mark
    · rw [if_pos hc]
      exact if_pos hc
    · rw [if_neg hc, Option.map_map]
      refine (if_neg hc).trans ((ih h.cons).trans ?_)
      simp only [Function.comp_def, width_cons, Nat.add_assoc]

/-- Passes characters up to and with the first quote that is not doubled. -/
def passString? (source : Checked Char) (pos : Nat) : Option (Option Nat) := do
  match ← peek? source pos with
  | some c =>
    let pos := pos + c.utf8Size
    if c = singleQuote then
      match ← peek? source pos with
      | some d =>
        if d = singleQuote then source |>.passString? (pos + d.utf8Size) else return some pos
      | none => return some pos
    else source |>.passString? pos
  | none => return none
partial_fixpoint

theorem passString?_eq {source cs : List Char} {pos : Nat} (h : At source pos cs) :
    passString? source pos = some ((closeString cs).map fun p => pos + width p.1) := by
  fun_induction closeString cs generalizing pos with
  | case1 cs ih =>
    rw [passString?, h.peek?_eq]
    simp only [List.head?_cons, Option.bind_eq_bind, Option.bind_some, singleQuote, ↓reduceIte,
      h.cons.peek?_eq, ih h.cons.cons, Option.map_map]
    simp only [Function.comp_def, width_cons, Nat.add_assoc]
  | case2 cs hquote =>
    rw [passString?, h.peek?_eq]
    simp only [List.head?_cons, Option.bind_eq_bind, Option.bind_some, singleQuote, ↓reduceIte,
      h.cons.peek?_eq]
    cases cs with
    | nil => rfl
    | cons d ds =>
      have hd : d ≠ '\x27' := fun hd => hquote ds (by rw [hd])
      exact if_neg hd
  | case3 c cs _ hc ih =>
    rw [passString?, h.peek?_eq]
    refine (if_neg fun hquote => hc hquote).trans ((ih h.cons).trans ?_)
    simp only [Option.map_map, Function.comp_def, width_cons, Nat.add_assoc]
  | case4 =>
    rw [passString?, h.peek?_eq]
    rfl

/-! ## Numbers -/

/-- Passes what continues a number; a sign belongs to the exponent mark in front of it. -/
def passNumber? (source : Checked Char) (pos : Nat) : Option Nat := do
  match ← peek? source pos with
  | some c =>
    if isExponentMark c then
      let pos := pos + c.utf8Size
      match ← peek? source pos with
      | some d => source |>.passNumber? (if isSign d then pos + d.utf8Size else pos)
      | none => source |>.passNumber? pos
    else if c.isDigit || c = '.' then source |>.passNumber? (pos + c.utf8Size)
    else return pos
  | none => return pos
partial_fixpoint

/-- Behind an exponent mark a number goes on as everywhere, a sign apart. -/
theorem splitNumber_true {cs : List Char} (h : cs.head?.any isSign = false) :
    splitNumber true cs = splitNumber false cs := by
  cases cs with
  | nil => rfl
  | cons c cs =>
    have hc : isSign c = false := h
    simp only [splitNumber, hc, Bool.and_false]

theorem passNumber?_eq {source cs : List Char} {pos : Nat} (h : At source pos cs) :
    passNumber? source pos = some (pos + width (splitNumber false cs).1) := by
  -- an exponent mark and its sign are passed together, so the induction is on the length
  generalize hn : cs.length = n
  induction n using Nat.strongRecOn generalizing cs pos with
  | ind n ih =>
    rw [passNumber?, h.peek?_eq]
    cases cs with
    | nil => rfl
    | cons c cs =>
      simp only [List.head?_cons, Option.bind_eq_bind, Option.bind_some]
      by_cases hmark : isExponentMark c = true
      · rw [if_pos hmark, h.cons.peek?_eq, splitNumber, if_pos (by simp [hmark]), hmark]
        simp only [List.length_cons] at hn
        cases cs with
        | nil => exact ih 0 (by omega) h.cons rfl
        | cons d ds =>
          simp only [List.head?_cons, Option.bind_some, List.length_cons] at hn ⊢
          by_cases hsign : isSign d = true
          · have hd : isExponentMark d = false := by
              rcases Bool.or_eq_true_iff.mp hsign with hd | hd <;> rw [of_decide_eq_true hd] <;> rfl
            rw [if_pos hsign, ih ds.length (by omega) h.cons.cons rfl, splitNumber,
              if_pos (by simp [hsign]), hd]
            simp only [width_cons, Nat.add_assoc]
          · rw [if_neg hsign, ih (ds.length + 1) (by omega) h.cons rfl,
              splitNumber_true (by simpa using hsign), width_cons, Nat.add_assoc]
      · rw [if_neg hmark, splitNumber]
        simp only [Bool.not_eq_true] at hmark
        by_cases hc : (c.isDigit || decide (c = '.')) = true
        · rw [List.length_cons] at hn
          rw [if_pos hc, if_pos (by rw [hc]; rfl), ih cs.length (by omega) h.cons rfl, hmark,
            width_cons, Nat.add_assoc]
        · rw [if_neg hc, if_neg (by simpa [hmark] using hc)]
          rfl

/-! ## Comments -/

/-- Passes a block comment to its end, where `depth` comments are open. -/
def passComment? (source : Checked Char) (depth pos : Nat) : Option (Option Nat) := do
  if ← startsWith? source pos ['/', '*'] then source |>.passComment? (depth + 1) (pos + 2)
  else if ← startsWith? source pos ['*', '/'] then
    let depth ← sub? depth 1
    if depth = 0 then return some (pos + 2) else source |>.passComment? depth (pos + 2)
  else
    match ← peek? source pos with
    | some c => source |>.passComment? depth (pos + c.utf8Size)
    | none => return none
partial_fixpoint

theorem isPrefixOf_singleton {a : Char} {cs : List Char} :
    [a].isPrefixOf cs = true ↔ cs.head? = some a := by
  rw [List.isPrefixOf_iff_prefix, List.head?_eq_some_iff]
  exact ⟨fun ⟨ds, h⟩ => ⟨ds, h.symm⟩, fun ⟨ds, h⟩ => ⟨ds, h.symm⟩⟩

theorem isPrefixOf_pair {a b : Char} {cs : List Char} :
    [a, b].isPrefixOf cs = true ↔ ∃ ds, cs = a :: b :: ds := by
  rw [List.isPrefixOf_iff_prefix]
  exact ⟨fun ⟨ds, h⟩ => ⟨ds, h.symm⟩, fun ⟨ds, h⟩ => ⟨ds, h.symm⟩⟩

theorem isPrefixOf_pair_cons {a b c : Char} {cs : List Char} :
    [a, b].isPrefixOf (c :: cs) = true ↔ c = a ∧ cs.head? = some b := by
  rw [isPrefixOf_pair, List.head?_eq_some_iff]
  simp

theorem isPrefixOf_pair_eq_false {a b c : Char} {cs : List Char}
    (h : ¬ (c = a ∧ cs.head? = some b)) : [a, b].isPrefixOf (c :: cs) = false :=
  Bool.eq_false_iff.mpr fun hmark => h (isPrefixOf_pair_cons.mp hmark)

theorem passComment?_eq {source cs : List Char} {depth pos : Nat} (h : At source pos cs) :
    passComment? source (depth + 1) pos =
      some ((closeComment depth cs).map fun p => pos + width p.1) := by
  fun_induction closeComment depth cs generalizing pos with
  | case1 depth cs ih =>
    rw [passComment?, h.startsWith?_eq]
    refine (ih h.cons.cons).trans ?_
    simp only [Option.map_map, Function.comp_def, width_cons, ← Nat.add_assoc]
  | case2 cs =>
    rw [passComment?, h.startsWith?_eq, h.startsWith?_eq]
    rfl
  | case3 depth cs ih =>
    rw [passComment?, h.startsWith?_eq, h.startsWith?_eq]
    refine (ih h.cons.cons).trans ?_
    simp only [Option.map_map, Function.comp_def, width_cons, ← Nat.add_assoc]
  | case4 depth c cs hopen hzero hsucc ih =>
    have hstart := isPrefixOf_pair_eq_false (not_mark hopen)
    have hstop := isPrefixOf_pair_eq_false (not_mark (not_closeMark hzero hsucc))
    rw [passComment?, h.startsWith?_eq, h.startsWith?_eq, hstart, hstop, h.peek?_eq]
    refine (ih h.cons).trans ?_
    simp only [Option.map_map, Function.comp_def, width_cons, ← Nat.add_assoc]
  | case5 =>
    rw [passComment?, h.startsWith?_eq, h.startsWith?_eq, h.peek?_eq]
    rfl

/-- Passes white space and comments; a comment that is not closed takes up everything. -/
def passTrivia? (source : Checked Char) (pos : Nat) : Option Nat := do
  let pos ← passWhile? source isSpace pos
  if ← startsWith? source pos ['-', '-'] then
    source |>.passTrivia? (← passWhile? source (!isLineBreak ·) pos)
  else if ← startsWith? source pos ['/', '*'] then
    source |>.passTrivia? ((← passComment? source 1 (pos + 2)).getD (width source))
  else return pos
partial_fixpoint

/-- A text without white space in front is trivia only if a comment stands there. -/
theorem splitTrivia_eq_nil {cs : List Char} (hspace : cs.head?.any isSpace = false)
    (hline : ['-', '-'].isPrefixOf cs = false) (hblock : ['/', '*'].isPrefixOf cs = false) :
    splitTrivia cs = ([], cs) := by
  cases cs with
  | nil => exact splitTrivia_nil
  | cons c ds =>
    rw [Bool.eq_false_iff, Ne, isPrefixOf_pair_cons] at hline hblock
    rw [splitTrivia_cons hline hblock, if_neg (by simpa using hspace)]

/-- **Trivia is passed to its end.** -/
theorem passTrivia?_eq {source cs : List Char} {pos : Nat} (h : At source pos cs) :
    passTrivia? source pos = some (pos + width (splitTrivia cs).1) := by
  generalize hn : cs.length = n
  induction n using Nat.strongRecOn generalizing cs pos with
  | ind n ih =>
    -- first the white space in front
    obtain ⟨gap, rest, hcs, htake, hgap, hspace⟩ : ∃ gap rest, cs = gap ++ rest ∧
        cs.takeWhile isSpace = gap ∧ (∀ c ∈ gap, isSpace c = true) ∧
        rest.head?.any isSpace = false :=
      ⟨_, _, List.takeWhile_append_dropWhile.symm, rfl,
        fun c hc => List.all_eq_true.mp List.all_takeWhile c hc, any_head?_dropWhile isSpace cs⟩
    rw [passTrivia?, passWhile?_eq h, htake]
    subst hcs
    rw [List.length_append] at hn
    rw [splitTrivia_append_of_isSpace hgap, width_append, ← Nat.add_assoc]
    replace h := h.append
    generalize pos + width gap = pos at h ⊢
    simp only [Option.bind_eq_bind, Option.bind_some, h.startsWith?_eq]
    by_cases hline : ['-', '-'].isPrefixOf rest = true
    · rw [if_pos hline, passWhile?_eq h, Option.bind_some]
      obtain ⟨ds, rfl⟩ := isPrefixOf_pair.mp hline
      have hcut : ('-' :: '-' :: ds).takeWhile (!isLineBreak ·) =
        '-' :: '-' :: (splitLine ds).1 := rfl
      have hbehind : At source (pos + width ('-' :: '-' :: (splitLine ds).1)) (splitLine ds).2 := by
        refine At.append ?_
        simpa [splitLine] using h
      have hle : (splitLine ds).2.length ≤ ds.length := (List.dropWhile_sublist _).length_le
      simp only [List.length_cons] at hn
      rw [hcut, ih _ (by omega) hbehind rfl, splitTrivia_line, width_append, Nat.add_assoc]
    rw [if_neg hline]
    by_cases hblock : ['/', '*'].isPrefixOf rest = true
    · rw [if_pos hblock]
      obtain ⟨ds, rfl⟩ := isPrefixOf_pair.mp hblock
      have hopen : At source (pos + 2) ds := h.cons.cons
      simp only [List.length_cons] at hn
      rw [passComment?_eq hopen, Option.bind_some]
      cases hclose : closeComment 0 ds with
      | none =>
        have hend : At source (width source) [] := by
          have hall := At.append (show At source (pos + 2) (ds ++ []) by rwa [List.append_nil])
          rwa [hopen.add_width] at hall
        rw [splitTrivia_unclosed hclose, h.add_width]
        exact (ih 0 (by omega) hend rfl).trans (by rw [splitTrivia_nil]; rfl)
      | some parts =>
        obtain ⟨comment, after⟩ := parts
        obtain ⟨-, rfl⟩ := append_of_closeComment hclose
        rw [List.length_append] at hn
        rw [splitTrivia_block hclose]
        refine (ih _ (by omega) hopen.append rfl).trans ?_
        rw [width_append, width_cons, width_cons, ← Nat.add_assoc, ← Nat.add_assoc, ← Nat.add_assoc]
        rfl
    · rw [if_neg hblock, splitTrivia_eq_nil hspace (Bool.eq_false_iff.mpr hline)
        (Bool.eq_false_iff.mpr hblock)]
      rfl

end Checked

end SqlScript
