import SqlScript.Proofs.Checked.Bytes

/-!
# Proofs/Checked/Print — putting a script together, with every cut checked

    gap ++ word ++ gap ++ word ++ … ++ tail

A script is put together from slices of its source: the text of each word, the gap in front of it,
and the tail.  All of them can be cut out (`text?_eq`, `gap?_eq`), because the words are tiles of
the source.  A keyword in print is cut once more, where its words and the comments between them end;
the end of a block comment is found among bytes, and lies between two characters still
(`recase?_eq`).
-/

namespace SqlScript.Checked

open SqlScript.Text SqlScript.Casing

/-! ## Keywords -/

/-- How much of a text that opens with `c`, no letter of a word, is copied: a comment, or `c`. -/
def copyWidth? (c : Char) (rest : List Char) : Option Nat := do
  if ← startsWith? rest 0 ['-', '-'] then passWhile? rest (!Lexeme.isLineBreak ·) 0
  else if ← startsWith? rest 0 ['/', '*'] then commentEnd? (bytes rest) 0 0
  else return c.utf8Size

/-- The text of a keyword with its words in the case asked for and the rest as it is. -/
def recase? (style : KeywordCase) (rest : Checked Char) : Option (List Char) := do
  match ← peek? rest 0 with
  | none => return []
  | some c =>
    let part ← passWhile? rest isWordChar 0
    if 0 < part then
      let word ← takeBytes? part rest
      let rest : Checked Char ← dropBytes? part rest
      return word.map style.apply ++ (← rest |>.recase? style)
    else
      let part ← copyWidth? c rest
      let copied ← takeBytes? part rest
      let rest : Checked Char ← dropBytes? part rest
      return copied ++ (← rest |>.recase? style)
partial_fixpoint

/-- **What is copied can be cut off**: it is a front part of the text, and recasing goes on behind
it. -/
theorem exists_copyWidth?_eq {c : Char} {cs : List Char} (hc : isWordChar c = false) :
    ∃ as bs, c :: cs = as ++ bs ∧ as ≠ [] ∧ copyWidth? c (c :: cs) = some (width as) ∧
      ∀ style, recase style (c :: cs) = as ++ recase style bs := by
  simp only [copyWidth?, (at_zero (c :: cs)).startsWith?_eq, Option.bind_eq_bind, Option.bind_some,
    isPrefixOf_pair_cons]
  by_cases hline : c = '-' ∧ cs.head? = some '-'
  · refine ⟨(Lexeme.splitLine (c :: cs)).1, (Lexeme.splitLine (c :: cs)).2,
      (splitLine_spec (c :: cs)).1.symm, ?_, ?_, fun style => ?_⟩
    · rw [hline.1]
      exact List.cons_ne_nil _ _
    · rw [if_pos hline, passWhile?_eq (at_zero _), Nat.zero_add]
      rfl
    · rw [recase, if_neg (by simp [hc]), if_pos hline]
  by_cases hblock : c = '/' ∧ cs.head? = some '*'
  · obtain ⟨as, bs, hsplit, hnil, hwidth⟩ := exists_commentWidth_eq 0 (c :: cs)
    have hcut : commentWidth 0 (c :: cs) = width as := by
      rw [hsplit]
      exact hwidth bs id
    refine ⟨as, bs, hsplit, ?_, ?_, fun style => ?_⟩
    · rintro rfl
      rw [hnil rfl] at hsplit
      cases hsplit
    · rw [if_neg hline, if_pos hblock, commentEnd?_eq (atByte_zero _), hcut, Nat.zero_add]
    · rw [recase, if_neg (by simp [hc]), if_neg hline, if_pos hblock, hcut, hsplit,
        splitWidth_width_append]
  · exact ⟨[c], cs, rfl, List.cons_ne_nil _ _, by rw [if_neg hline, if_neg hblock]; rfl,
      fun style => recase_other style hc hline hblock⟩

/-- **Recasing cuts between characters and ends.** -/
theorem recase?_eq (style : KeywordCase) (cs : List Char) :
    recase? style cs = some (recase style cs) := by
  -- every turn takes at least one character off the front
  generalize hn : cs.length = n
  induction n using Nat.strongRecOn generalizing cs with
  | ind n ih =>
    have hpass := passWhile?_eq (at_zero cs) isWordChar
    rw [Nat.zero_add] at hpass
    rw [recase?, (at_zero cs).peek?_eq, hpass]
    cases cs with
    | nil => simp [recase]
    | cons c cs =>
      simp only [List.head?_cons, Option.bind_eq_bind, Option.bind_some]
      have hturn : ∀ {as bs : List Char}, c :: cs = as ++ bs → as ≠ [] →
          takeBytes? (width as) (c :: cs) = some as ∧ dropBytes? (width as) (c :: cs) = some bs ∧
            recase? style bs = some (recase style bs) := by
        intro as bs hsplit hne
        have hlength := congrArg List.length hsplit
        have hpos := List.length_pos_iff.mpr hne
        rw [hn, List.length_append] at hlength
        rw [hsplit]
        exact ⟨takeBytes?_width_append as bs, dropBytes?_width_append as bs,
          ih bs.length (by omega) bs rfl⟩
      cases hc : isWordChar c with
      | true =>
        have hsplit : (c :: cs).takeWhile isWordChar ++ (c :: cs).dropWhile isWordChar = c :: cs :=
          List.takeWhile_append_dropWhile
        have hword : ∀ d ∈ (c :: cs).takeWhile isWordChar, isWordChar d = true :=
          List.all_eq_true.mp List.all_takeWhile
        have hne : (c :: cs).takeWhile isWordChar ≠ [] := by
          rw [List.takeWhile_cons_of_pos hc]
          exact List.cons_ne_nil _ _
        obtain ⟨htake, hdrop, hrest⟩ := hturn hsplit.symm hne
        have hrecase := recase_append style hword ((c :: cs).dropWhile isWordChar)
        rw [hsplit] at hrecase
        rw [if_pos (width_pos_of_ne_nil hne), htake, hdrop, hrecase]
        simp only [Option.bind_some, hrest]
        rfl
      | false =>
        obtain ⟨as, bs, hsplit, hne, hwidth, hrecase⟩ := exists_copyWidth?_eq hc
        obtain ⟨htake, hdrop, hrest⟩ := hturn hsplit hne
        rw [List.takeWhile_cons_of_neg (by simp [hc]), width_nil, if_neg (Nat.lt_irrefl 0), hrecase]
        simp only [hwidth, htake, hdrop, hrest, Option.bind_some]
        rfl

/-! ## Words and gaps -/

/-- The text a word was read from. -/
def text? (s : Script) (w : Word) : Option (List Char) := s.slice? w.span.start w.span.stop

/-- The text in front of the word at an index, back to the word before it. -/
def gap? (s : Script) (index : Nat) : Option (List Char) :=
  s.slice? (min (s.gapStart index) (s.gapStop index)) (s.gapStop index)

/-- Words from an index on as `showWord` shows them, each behind its gap, and the tail. -/
def assembleFrom? (s : Script) (showWord : Word → Option (List Char)) (index : Nat) :
    List Word → Option (List Char)
  | [] => gap? s index
  | w :: ws => do
    let gap ← gap? s index
    let word ← showWord w
    return gap ++ word ++ (← assembleFrom? s showWord (index + 1) ws)

/-- The text put together from the words and the gaps between them. -/
def reconstruct? (s : Script) : Option (List Char) := assembleFrom? s (text? s) 0 s.words

/-- A word in print, given its text. -/
def printWord? (style : KeywordCase) (w : Word) (text : List Char) : Option (List Char) :=
  if style ≠ .preserve ∧ isCased w text then recase? style text else some text

/-- A script with its keywords in the case asked for. -/
def render? (s : Script) (style : KeywordCase) : Option String := do
  let text ← assembleFrom? s (fun w => do printWord? style w (← text? s w)) 0 s.words
  return String.ofList text

theorem assembleFrom?_eq {s : Script} (hgap : ∀ i, gap? s i = some (s.gapBefore i))
    {showWord? : Word → Option (List Char)} {showWord : Word → List Char} {ws : List Word}
    (hshow : ∀ w ∈ ws, showWord? w = some (showWord w)) (index : Nat) :
    assembleFrom? s showWord? index ws =
      some (((ws.zipIdx index).flatMap fun p => s.gapBefore p.2 ++ showWord p.1) ++
        s.gapBefore (index + ws.length)) := by
  induction ws generalizing index with
  | nil => exact hgap index
  | cons w ws ih =>
    obtain ⟨hw, hws⟩ := List.forall_mem_cons.mp hshow
    simp only [assembleFrom?, hgap, hw, ih hws, Option.bind_eq_bind, Option.bind_some,
      List.zipIdx_cons, List.flatMap_cons, List.length_cons]
    simp only [List.append_assoc, Nat.add_right_comm, ← Nat.add_assoc]
    rfl

section

variable {s : Script} {front tail : List Char} {ts : List Tile}

theorem text?_eq (h : s.Tiled front ts tail) {w : Word} (hw : w ∈ s.words) :
    text? s w = some (s.text w) := by
  rw [h.words_eq] at hw
  obtain ⟨pre, t, post, rfl, rfl⟩ := exists_tile_of_mem hw
  rw [text?, h.slice?_eq, h.text_eq]

/-- **Every gap can be cut out.** -/
theorem gap?_eq (h : s.Tiled front ts tail) (index : Nat) :
    gap? s index = some (s.gapBefore index) := by
  suffices hcut : ∃ gap, gap? s index = some gap by
    obtain ⟨gap, hgap⟩ := hcut
    have hbefore : s.gapBefore index = gap := congrArg (Option.getD · []) hgap
    rw [hgap, hbefore]
  by_cases hle : index ≤ ts.length
  · rw [← List.take_append_drop index ts] at h
    have hgap := h.slice?_gap
    rw [List.length_take_of_le hle] at hgap
    exact ⟨_, hgap⟩
  · -- no word comes before, so the gap is everything
    have hnone : ∀ i, ts.length ≤ i → s.word? i = none := fun i hi => by
      rw [Script.word?, h.scanned_eq, List.getElem?_eq_none (by simpa using hi)]
      rfl
    obtain ⟨previous, rfl⟩ : ∃ previous, index = previous + 1 := ⟨index - 1, by omega⟩
    have hall := slice?_append [] s.source []
    rw [List.append_nil, width_nil, Nat.zero_add] at hall
    refine ⟨s.source, ?_⟩
    simp only [gap?, Script.gapStart, Script.gapStop, hnone previous (by omega),
      hnone (previous + 1) (by omega), Nat.zero_min]
    exact hall

theorem reconstruct?_eq (h : s.Tiled front ts tail) : reconstruct? s = some s.reconstruct := by
  rw [reconstruct?, assembleFrom?_eq (gap?_eq h) (fun w hw => text?_eq h hw), Nat.zero_add]
  rfl

theorem render?_eq (h : s.Tiled front ts tail) (style : KeywordCase) :
    render? s style = some (render s style) := by
  have hprint : ∀ w ∈ s.words, (do printWord? style w (← text? s w)) =
      some (printWord style w (s.text w)) := by
    intro w hw
    rw [text?_eq h hw, Option.bind_eq_bind, Option.bind_some, printWord?, printWord, recase?_eq]
    split <;> rfl
  rw [render?, assembleFrom?_eq (gap?_eq h) hprint, Nat.zero_add]
  rfl

end

end SqlScript.Checked
