import SqlScript.Lexeme.Character

/-!
# Lexeme/Comment — comments and the trivia between the parts of a phrase

A line comment runs to the end of its line.  Block comments nest: `closeComment` reads from just
behind an opening mark to the mark that closes it, and each mark takes both of its characters.
`splitTrivia` takes the white space and comments that may stand between the two words of a phrase.
-/

namespace SqlScript.Lexeme

/-- The text of a line up to its end, and what follows. -/
def splitLine (cs : List Char) : List Char × List Char :=
  (cs.takeWhile (!isLineBreak ·), cs.dropWhile (!isLineBreak ·))

/-- The text up to and with the mark that closes a block comment, and what follows, where `depth`
more comments are open inside it; `none` if the text ends first. -/
def closeComment : (depth : Nat) → List Char → Option (List Char × List Char)
  | depth, '/' :: '*' :: cs =>
    (closeComment (depth + 1) cs).map fun p => ('/' :: '*' :: p.1, p.2)
  | 0, '*' :: '/' :: cs => some (['*', '/'], cs)
  | depth + 1, '*' :: '/' :: cs =>
    (closeComment depth cs).map fun p => ('*' :: '/' :: p.1, p.2)
  | depth, c :: cs => (closeComment depth cs).map fun p => (c :: p.1, p.2)
  | _, [] => none

/-- A character that does not open a mark is part of the comment. -/
theorem closeComment_cons {depth : Nat} {c : Char} {cs : List Char}
    (hopen : ¬ (c = '/' ∧ cs.head? = some '*')) (hclose : ¬ (c = '*' ∧ cs.head? = some '/')) :
    closeComment depth (c :: cs) = (closeComment depth cs).map fun p => (c :: p.1, p.2) := by
  rw [closeComment]
  · rintro rest rfl rfl; simp at hopen
  · rintro rest rfl rfl rfl; simp at hclose
  · rintro inner rest rfl rfl rfl; simp at hclose

section

variable {a b c : Char} {depth : Nat} {cs : List Char}

/-- A character that does not go on as a mark does not open it. -/
theorem not_mark (h : ∀ ds, c = a → cs = b :: ds → False) : ¬ (c = a ∧ cs.head? = some b) := by
  rintro ⟨hc, hhead⟩
  obtain ⟨ds, hds⟩ := List.head?_eq_some_iff.mp hhead
  exact h ds hc hds

/-- A mark that closes a comment neither at depth 0 nor deeper is none. -/
theorem not_closeMark (hzero : ∀ ds, depth = 0 → c = '*' → cs = '/' :: ds → False)
    (hsucc : ∀ inner ds, depth = inner + 1 → c = '*' → cs = '/' :: ds → False) :
    ∀ ds, c = '*' → cs = '/' :: ds → False := by
  cases depth with
  | zero => exact fun ds => hzero ds rfl
  | succ inner => exact fun ds => hsucc inner ds rfl

end

/-- The two parts of a closed comment make up the text, and the first is not empty. -/
theorem append_of_closeComment {depth : Nat} {cs as bs : List Char}
    (h : closeComment depth cs = some (as, bs)) : as ≠ [] ∧ as ++ bs = cs := by
  fun_induction closeComment depth cs generalizing as bs with
  | case1 depth cs ih | case3 depth cs ih | case4 depth c cs _ _ _ ih =>
    obtain ⟨⟨as', bs'⟩, hclose, heq⟩ := Option.map_eq_some_iff.mp h
    cases heq
    simp [(ih hclose).2]
  | case2 cs => cases h; simp
  | case5 => exact absurd h (by simp)

theorem length_lt_of_closeComment {depth : Nat} {cs as bs : List Char}
    (h : closeComment depth cs = some (as, bs)) : bs.length < cs.length := by
  obtain ⟨hne, rfl⟩ := append_of_closeComment h
  have := List.length_pos_iff.mpr hne
  simp only [List.length_append]
  omega

/-- The white space and comments at the front of a text, and what follows.  A block comment that
is not closed takes up everything. -/
def splitTrivia (cs : List Char) : List Char × List Char :=
  match cs with
  | '-' :: '-' :: ds =>
    let line := splitLine ds
    let more := splitTrivia line.2
    ('-' :: '-' :: line.1 ++ more.1, more.2)
  | '/' :: '*' :: ds =>
    match _h : closeComment 0 ds with
    | some (comment, after) =>
      let more := splitTrivia after
      ('/' :: '*' :: comment ++ more.1, more.2)
    | none => (cs, [])
  | c :: ds =>
    if isSpace c then
      let more := splitTrivia ds
      (c :: more.1, more.2)
    else ([], c :: ds)
  | [] => ([], [])
termination_by cs.length
decreasing_by
  · have := (List.dropWhile_sublist (l := ds) (!isLineBreak ·)).length_le
    simp only [splitLine, List.length_cons]
    omega
  · have := length_lt_of_closeComment _h
    simp only [List.length_cons]
    omega
  · simp

@[simp] theorem splitTrivia_nil : splitTrivia [] = ([], []) := by rw [splitTrivia]

/-- Trivia that opens with a line comment goes on behind the line. -/
theorem splitTrivia_line (ds : List Char) :
    splitTrivia ('-' :: '-' :: ds) =
      ('-' :: '-' :: (splitLine ds).1 ++ (splitTrivia (splitLine ds).2).1,
        (splitTrivia (splitLine ds).2).2) := by
  rw [splitTrivia]

/-- Trivia that opens with a closed block comment goes on behind the comment. -/
theorem splitTrivia_block {ds comment after : List Char}
    (h : closeComment 0 ds = some (comment, after)) :
    splitTrivia ('/' :: '*' :: ds) =
      ('/' :: '*' :: comment ++ (splitTrivia after).1, (splitTrivia after).2) := by
  rw [splitTrivia]
  split
  · next h' => cases h.symm.trans h'; rfl
  · next h' => exact absurd (h.symm.trans h') (by simp)

/-- A block comment that is not closed takes up everything. -/
theorem splitTrivia_unclosed {ds : List Char} (h : closeComment 0 ds = none) :
    splitTrivia ('/' :: '*' :: ds) = ('/' :: '*' :: ds, []) := by
  rw [splitTrivia]
  split
  · next h' => exact absurd (h.symm.trans h') (by simp)
  · rfl

/-- Any other character is trivia if it is white space. -/
theorem splitTrivia_cons {c : Char} {ds : List Char} (hline : ¬ (c = '-' ∧ ds.head? = some '-'))
    (hblock : ¬ (c = '/' ∧ ds.head? = some '*')) :
    splitTrivia (c :: ds) =
      if isSpace c then (c :: (splitTrivia ds).1, (splitTrivia ds).2) else ([], c :: ds) := by
  rw [splitTrivia]
  · rintro rest rfl rfl; simp at hline
  · rintro rest rfl rfl; simp at hblock

/-- The two parts make up the text. -/
theorem splitTrivia_append (cs : List Char) : (splitTrivia cs).1 ++ (splitTrivia cs).2 = cs := by
  fun_induction splitTrivia cs with
  | case1 ds line more ih =>
    have hline : line.1 ++ line.2 = ds := List.takeWhile_append_dropWhile
    simp [more, ih, hline]
  | case2 ds comment after hclose more ih =>
    simp [more, ih, (append_of_closeComment hclose).2]
  | case3 ds hclose => simp
  | case4 c ds _ _ hspace more ih => simp [more, ih]
  | case5 c ds _ _ hspace => rfl
  | case6 => rfl

end SqlScript.Lexeme
