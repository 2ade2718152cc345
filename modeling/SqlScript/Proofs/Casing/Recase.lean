import SqlScript.Proofs.Casing.Print

/-!
# Proofs/Casing/Recase — the last case a text is put into wins

Recasing changes letters and nothing else, so every mark of a comment is still there in the recased
text and is found again at its place.  A comment that is closed ends where it ends whatever follows
(`exists_commentWidth_eq`), and a line comment ends where its line does; each is copied, and what
follows it is recased on its own (`recase_line`, `recase_block`).  Hence a text recased twice
is the text in the second case (`recase_recase`).
-/

namespace SqlScript.Casing

open SqlScript.Text

/-! ## Characters -/

/-- What the twenty-six letters share with their capitals, every character shares with itself in any
case. -/
theorem congr_apply {α : Type} (f : Char → α)
    (h : ∀ i < 26, f (lowercase i).toUpper = f (lowercase i)) (style : KeywordCase) (c : Char) :
    f (style.apply c) = f c := by
  rw [← congr_toUpper f h, toUpper_apply, congr_toUpper f h]

theorem isWordChar_apply (style : KeywordCase) (c : Char) :
    isWordChar (style.apply c) = isWordChar c := congr_apply isWordChar (by decide) style c

theorem apply_apply {second : KeywordCase} (h : second ≠ .preserve) (first : KeywordCase)
    (c : Char) : second.apply (first.apply c) = second.apply c := by
  cases second with
  | upper => exact toUpper_apply first c
  | lower => exact congr_apply Char.toLower (by decide) first c
  | preserve => exact absurd rfl h

/-! ## Comments -/

/-- A character that does not open a mark is measured on its own. -/
theorem commentWidth_cons {depth : Nat} {c : Char} {cs : List Char}
    (hopen : ¬ (c = '/' ∧ cs.head? = some '*')) (hclose : ¬ (c = '*' ∧ cs.head? = some '/')) :
    commentWidth depth (c :: cs) = c.utf8Size + commentWidth depth cs := by
  rw [commentWidth]
  · rintro rest rfl rfl; simp at hopen
  · rintro rest rfl rfl; simp at hclose

/-- **The width of a comment is that of the front part it takes up**, and what stands behind a
comment that is closed does not matter to it. -/
theorem exists_commentWidth_eq (depth : Nat) (cs : List Char) :
    ∃ as bs, cs = as ++ bs ∧ (as = [] → bs = []) ∧
      ∀ bs', (bs = [] → bs' = []) → commentWidth depth (as ++ bs') = width as := by
  have hslash : '/'.utf8Size = 1 := rfl
  have hstar : '*'.utf8Size = 1 := rfl
  fun_induction commentWidth depth cs with
  | case1 depth cs ih =>
    obtain ⟨as, bs, rfl, -, hwidth⟩ := ih
    refine ⟨'/' :: '*' :: as, bs, rfl, by simp, fun bs' hbs' => ?_⟩
    simp only [List.cons_append, commentWidth, hwidth bs' hbs', width_cons, hslash, hstar]
    omega
  | case2 depth cs hdepth =>
    refine ⟨['*', '/'], cs, rfl, by simp, fun bs' hbs' => ?_⟩
    simp only [List.cons_append, List.nil_append, commentWidth, if_pos hdepth]
    rfl
  | case3 depth cs hdepth ih =>
    obtain ⟨as, bs, rfl, -, hwidth⟩ := ih
    refine ⟨'*' :: '/' :: as, bs, rfl, by simp, fun bs' hbs' => ?_⟩
    simp only [List.cons_append, commentWidth, if_neg hdepth, hwidth bs' hbs', width_cons, hslash,
      hstar]
    omega
  | case4 depth c cs hopen hclose ih =>
    obtain ⟨as, bs, rfl, hnil, hwidth⟩ := ih
    refine ⟨c :: as, bs, rfl, by simp, fun bs' hbs' => ?_⟩
    -- Whatever replaces the words behind, the character next to `c` stays.
    have hhead : (as ++ bs').head? = (as ++ bs).head? := by
      cases as with
      | nil => rw [hbs' (hnil rfl), hnil rfl]
      | cons a as => rfl
    rw [List.cons_append, commentWidth_cons, hwidth bs' hbs', width_cons]
    · rw [hhead]
      exact Lexeme.not_mark hopen
    · rw [hhead]
      exact Lexeme.not_mark hclose
  | case5 depth => exact ⟨[], [], rfl, fun _ => rfl, fun bs' hbs' => by simp [hbs', commentWidth]⟩

theorem splitWidth_width_append (as bs : List Char) :
    splitWidth (width as) (as ++ bs) = (as, bs) := by
  simp [splitWidth, takeBytes?_width_append, dropBytes?_width_append]

/-! ## The parts of a text -/

/-- Texts that agree in capitals agree in a first character that has no case. -/
theorem head?_eq_some_iff_of_upper {cs cs' : List Char} {d : Char}
    (h : cs'.map Char.toUpper = cs.map Char.toUpper) (hd : d.isAlpha = false) :
    cs'.head? = some d ↔ cs.head? = some d := by
  rw [← head?_map_toUpper hd, h, head?_map_toUpper hd]

theorem recase_word (style : KeywordCase) {c : Char} (hc : isWordChar c = true) (cs : List Char) :
    recase style (c :: cs) = style.apply c :: recase style cs := by
  rw [recase, if_pos hc]

/-- A name of word characters is recased character by character. -/
theorem recase_append (style : KeywordCase) {word : List Char}
    (hword : ∀ c ∈ word, isWordChar c = true) (cs : List Char) :
    recase style (word ++ cs) = word.map style.apply ++ recase style cs := by
  induction word with
  | nil => rfl
  | cons c word ih =>
    obtain ⟨hc, hword⟩ := List.forall_mem_cons.mp hword
    rw [List.cons_append, recase_word style hc, ih hword]
    rfl

theorem recase_other (style : KeywordCase) {c : Char} {cs : List Char} (hc : isWordChar c = false)
    (hline : ¬ (c = '-' ∧ cs.head? = some '-')) (hblock : ¬ (c = '/' ∧ cs.head? = some '*')) :
    recase style (c :: cs) = c :: recase style cs := by
  rw [recase, if_neg (by simp [hc]), if_neg hline, if_neg hblock]

/-- A text is a line without line breaks, and what follows it from a line break on. -/
theorem splitLine_spec (cs : List Char) :
    (Lexeme.splitLine cs).1 ++ (Lexeme.splitLine cs).2 = cs ∧
      (∀ c ∈ (Lexeme.splitLine cs).1, Lexeme.isLineBreak c = false) ∧
      ∀ c ∈ (Lexeme.splitLine cs).2.head?, Lexeme.isLineBreak c = true := by
  refine ⟨List.takeWhile_append_dropWhile, fun c hc => ?_, fun c hc => ?_⟩
  · simpa using List.all_eq_true.mp List.all_takeWhile c hc
  · have hstop := List.head?_dropWhile_not (!Lexeme.isLineBreak ·) cs
    rw [show (cs.dropWhile (!Lexeme.isLineBreak ·)).head? = some c from hc] at hstop
    simpa using hstop

theorem splitLine_append {line rest : List Char}
    (hline : ∀ c ∈ line, Lexeme.isLineBreak c = false)
    (hrest : ∀ c ∈ rest.head?, Lexeme.isLineBreak c = true) :
    Lexeme.splitLine (line ++ rest) = (line, rest) := by
  have hpass : ∀ c ∈ line, (!Lexeme.isLineBreak c) = true := fun c hc => by rw [hline c hc]; rfl
  rw [Lexeme.splitLine, List.takeWhile_append_of_pos hpass, List.dropWhile_append_of_pos hpass]
  cases rest with
  | nil => simp
  | cons c cs => simp [hrest c rfl]

/-- **A line comment is copied**, and recasing goes on at the end of its line. -/
theorem recase_line (style : KeywordCase) {line rest : List Char}
    (hline : ∀ c ∈ line, Lexeme.isLineBreak c = false)
    (hrest : ∀ c ∈ rest.head?, Lexeme.isLineBreak c = true) :
    recase style ('-' :: '-' :: (line ++ rest)) = '-' :: '-' :: (line ++ recase style rest) := by
  have hdashes : ∀ c ∈ '-' :: '-' :: line, Lexeme.isLineBreak c = false := by
    simpa [Lexeme.isLineBreak] using hline
  have hsplit := splitLine_append hdashes hrest
  rw [List.cons_append, List.cons_append] at hsplit
  rw [recase, if_neg (by decide), if_pos (by simp), hsplit]
  rfl

/-- **A block comment is copied**, and recasing goes on behind it. -/
theorem recase_block (style : KeywordCase) {as bs : List Char}
    (h : commentWidth 1 (as ++ bs) = width as) :
    recase style ('/' :: '*' :: (as ++ bs)) = '/' :: '*' :: (as ++ recase style bs) := by
  have hwidth : commentWidth 0 ('/' :: '*' :: (as ++ bs)) = width ('/' :: '*' :: as) := by
    rw [commentWidth, h, width_cons, width_cons, ← Nat.add_assoc]
    rfl
  have hsplit := splitWidth_width_append ('/' :: '*' :: as) bs
  rw [← hwidth, List.cons_append, List.cons_append] at hsplit
  rw [recase, if_neg (by decide), if_neg (by simp), if_pos (by simp), hsplit]
  rfl

/-- **A comment at the front of a text is copied**, and is found again as long as what stands behind
it changes in the case of letters only. -/
theorem exists_recase_comment {c : Char} {cs : List Char}
    (hc : c = '-' ∧ cs.head? = some '-' ∨ c = '/' ∧ cs.head? = some '*') :
    ∃ as bs, c :: cs = as ++ bs ∧ as ≠ [] ∧ ∀ style bs',
      bs'.map Char.toUpper = bs.map Char.toUpper →
        recase style (as ++ bs') = as ++ recase style bs' := by
  rcases hc with ⟨rfl, hdash⟩ | ⟨rfl, hstar⟩
  · obtain ⟨ds, rfl⟩ := List.head?_eq_some_iff.mp hdash
    obtain ⟨hparts, hline, hrest⟩ := splitLine_spec ds
    refine ⟨'-' :: '-' :: (Lexeme.splitLine ds).1, (Lexeme.splitLine ds).2, by simp [hparts],
      List.cons_ne_nil _ _, fun style bs' hbs' => recase_line style hline fun c hc => ?_⟩
    have hhead := congrArg List.head? hbs'
    rw [List.head?_map, List.head?_map, Option.mem_def.mp hc] at hhead
    obtain ⟨d, hd, hupper⟩ := Option.map_eq_some_iff.mp hhead.symm
    rw [← Lexeme.isLineBreak_toUpper, ← hupper, Lexeme.isLineBreak_toUpper, hrest d hd]
  · obtain ⟨ds, rfl⟩ := List.head?_eq_some_iff.mp hstar
    obtain ⟨as, bs, rfl, -, hwidth⟩ := exists_commentWidth_eq 1 ds
    refine ⟨'/' :: '*' :: as, bs, rfl, List.cons_ne_nil _ _, fun style bs' hbs' => ?_⟩
    refine recase_block style (hwidth bs' fun hnil => ?_)
    rw [hnil] at hbs'
    simpa using hbs'

/-- **A text recased twice is the text in the second case**, by induction along its words and its
comments. -/
theorem recase_recase {second : KeywordCase} (h : second ≠ .preserve) (first : KeywordCase)
    (cs : List Char) : recase second (recase first cs) = recase second cs := by
  generalize hn : cs.length = n
  induction n using Nat.strongRecOn generalizing cs with
  | ind n ih =>
    cases cs with
    | nil => simp [recase]
    | cons c cs =>
      have hcs : recase second (recase first cs) = recase second cs :=
        ih cs.length (by simp [← hn]) cs rfl
      have hupper := recase_map_toUpper first cs
      cases hword : isWordChar c with
      | true =>
        have happly : isWordChar (first.apply c) = true := by rw [isWordChar_apply, hword]
        rw [recase_word first hword, recase_word second happly, hcs, apply_apply h,
          recase_word second hword]
      | false =>
        by_cases hcomment : c = '-' ∧ cs.head? = some '-' ∨ c = '/' ∧ cs.head? = some '*'
        · obtain ⟨as, bs, hsplit, hne, hcopy⟩ := exists_recase_comment hcomment
          have hlt : bs.length < n := by
            have hlength := congrArg List.length hsplit
            have hpos := List.length_pos_iff.mpr hne
            rw [hn, List.length_append] at hlength
            omega
          rw [hsplit, hcopy first bs rfl, hcopy second _ (recase_map_toUpper first bs),
            ih bs.length hlt bs rfl, hcopy second bs rfl]
        · obtain ⟨hline, hblock⟩ := not_or.mp hcomment
          rw [recase_other first hword hline hblock, recase_other second hword, hcs,
            recase_other second hword hline hblock]
          · rwa [head?_eq_some_iff_of_upper hupper rfl]
          · rwa [head?_eq_some_iff_of_upper hupper rfl]

end SqlScript.Casing
