import SqlScript.Proofs.Lexeme.Lookahead
import SqlScript.Proofs.Lexeme.Language
import SqlScript.Proofs.Script.Places

/-!
# Proofs/Script/BlockComment — where a block comment ends

    /*  /  ␣  *  */  */  x            pieces, cut from the left
    1   1  1  1  0                    open comments behind each

A text falls into **pieces**: the two marks of a comment, which take both of their characters, and
single characters.  A block comment is the shortest front part of whole pieces with as many opening
marks as closing ones; if there is none, the comment is not closed and takes up the script
(`Script.scan_blockComment`).  Comments nested inside it, to any depth, are part of it.
-/

namespace SqlScript

open SqlScript.Text

namespace Lexeme

/-! ## Pieces -/

/-- The pieces of a text: marks of two characters where there are any, and single characters. -/
def pieces : List Char → List (List Char)
  | '/' :: '*' :: cs => ['/', '*'] :: pieces cs
  | '*' :: '/' :: cs => ['*', '/'] :: pieces cs
  | c :: cs => [c] :: pieces cs
  | [] => []

/-- A character that does not open a mark is a piece of its own. -/
theorem pieces_cons {c : Char} {cs : List Char} (hopen : ¬ (c = '/' ∧ cs.head? = some '*'))
    (hclose : ¬ (c = '*' ∧ cs.head? = some '/')) : pieces (c :: cs) = [c] :: pieces cs := by
  rw [pieces]
  · rintro rest rfl rfl; simp at hopen
  · rintro rest rfl rfl; simp at hclose

/-- As many marks that open a comment as marks that close one. -/
def EvenMarks (ps : List (List Char)) : Prop := ps.count ['/', '*'] = ps.count ['*', '/']

instance (ps : List (List Char)) : Decidable (EvenMarks ps) :=
  inferInstanceAs (Decidable (_ = _))

/-- **The pieces that close the comment a text opens with**: the shortest front part with as many
opening marks as closing ones, the empty one apart. -/
structure Closes (text : List Char) (ps : List (List Char)) : Prop where
  isPrefix : ps <+: pieces text
  ne_nil : ps ≠ []
  even : EvenMarks ps
  shortest : ∀ qs, qs <+: pieces text → qs ≠ [] → EvenMarks qs → ps.length ≤ qs.length

/-- The pieces make up the text. -/
theorem flatten_pieces (cs : List Char) : (pieces cs).flatten = cs := by
  fun_induction pieces cs with
  | case1 cs ih | case2 cs ih | case3 c cs _ _ ih => simp [ih]
  | case4 => rfl

/-- What a piece does to the number of open comments. -/
def pieceStep (piece : List Char) : Int :=
  if piece = ['/', '*'] then 1 else if piece = ['*', '/'] then -1 else 0

theorem map_pieceStep_pieces (cs : List Char) : (pieces cs).map pieceStep = nestingSteps cs := by
  fun_induction pieces cs with
  | case1 cs ih | case2 cs ih => simp [nestingSteps, ih, pieceStep]
  | case3 c cs hslash hstar ih =>
    rw [nestingSteps, List.map_cons, ih]
    · simp [pieceStep]
    · exact hslash
    · exact hstar
  | case4 => rfl

theorem sum_map_pieceStep (ps : List (List Char)) :
    (ps.map pieceStep).sum = ps.count ['/', '*'] - ps.count ['*', '/'] := by
  induction ps with
  | nil => rfl
  | cons piece ps ih =>
    rw [List.map_cons, List.sum_cons, ih, List.count_cons, List.count_cons]
    unfold pieceStep
    split
    · next h => subst h; simp; omega
    · split
      · next h => subst h; simp; omega
      · next h h' => simp [h, h']

theorem evenMarks_iff {ps : List (List Char)} : EvenMarks ps ↔ (ps.map pieceStep).sum = 0 := by
  rw [sum_map_pieceStep, EvenMarks]
  omega

/-- **While a comment is open the marks are uneven.** -/
theorem not_evenMarks_of_openInside {text : List Char} (h : OpenInside text)
    {qs : List (List Char)} (hleads : qs <+: pieces text) (hne : qs ≠ [])
    (hlt : qs.length < (pieces text).length) : ¬ EvenMarks qs := by
  have hopen := h qs.length (List.length_pos_iff.mpr hne)
  rw [← map_pieceStep_pieces, List.length_map, ← List.map_take,
    ← List.prefix_iff_eq_take.mp hleads] at hopen
  rw [evenMarks_iff]
  exact (hopen hlt).ne'

/-- A comment that is closed ends between two pieces. -/
theorem pieces_of_closeComment {depth : Nat} {cs as bs : List Char}
    (h : closeComment depth cs = some (as, bs)) : pieces cs = pieces as ++ pieces bs := by
  fun_induction closeComment depth cs generalizing as bs with
  | case1 depth cs ih =>
    obtain ⟨as, hclose, rfl⟩ := exists_of_map_eq_some (f := fun as => '/' :: '*' :: as) h
    rw [pieces, pieces, ih hclose]
    rfl
  | case2 cs =>
    cases h
    rfl
  | case3 depth cs ih =>
    obtain ⟨as, hclose, rfl⟩ := exists_of_map_eq_some (f := fun as => '*' :: '/' :: as) h
    rw [pieces, pieces, ih hclose]
    rfl
  | case4 depth c cs hopen hzero hsucc ih =>
    obtain ⟨as, hclose, rfl⟩ := exists_of_map_eq_some h
    obtain ⟨hne, rfl⟩ := append_of_closeComment hclose
    obtain ⟨a, as, rfl⟩ := List.exists_cons_of_ne_nil hne
    have hslash : ¬ (c = '/' ∧ a = '*') := by
      rintro ⟨hc, ha⟩
      exact hopen (as ++ bs) hc (by rw [ha]; rfl)
    have hstar : ¬ (c = '*' ∧ a = '/') := by
      rintro ⟨hc, ha⟩
      cases depth with
      | zero => exact hzero (as ++ bs) rfl hc (by rw [ha]; rfl)
      | succ depth => exact hsucc depth (as ++ bs) rfl hc (by rw [ha]; rfl)
    have hfront : pieces (c :: a :: as) = [c] :: pieces (a :: as) :=
      pieces_cons (by simpa using hslash) (by simpa using hstar)
    rw [pieces_cons (by simpa using hslash) (by simpa using hstar), ih hclose, hfront]
    rfl
  | case5 => exact absurd h (by simp)

/-! ## Nested comments -/

/-- Text without `/` and `*`, and comments around such text, nested to any depth. -/
inductive Nested : List Char → Prop
  | nil : Nested []
  | char {c : Char} {cs : List Char} (hslash : c ≠ '/') (hstar : c ≠ '*') (h : Nested cs) :
      Nested (c :: cs)
  | comment {body cs : List Char} (hbody : Nested body) (h : Nested cs) :
      Nested ('/' :: '*' :: body ++ '*' :: '/' :: cs)

/-- **Nested comments are passed whole**, at any depth. -/
theorem closeComment_nested {body : List Char} (h : Nested body) (depth : Nat) (cs : List Char) :
    closeComment depth (body ++ cs) = (closeComment depth cs).map fun p => (body ++ p.1, p.2) := by
  induction h generalizing depth cs with
  | nil => simp
  | @char c body hslash hstar h ih =>
    rw [List.cons_append, closeComment_cons (fun h => hslash h.1) (fun h => hstar h.1), ih]
    simp [Function.comp_def]
  | @comment body rest hbody h ihbody ih =>
    simp only [List.cons_append, List.append_assoc, closeComment, ihbody, ih]
    simp [Function.comp_def]

/-! ## Closed and unclosed comments -/

/-- What is read as a comment is the pieces that close it. -/
theorem closes_of_closeComment {cs as bs : List Char} (h : closeComment 0 cs = some (as, bs)) :
    Closes ('/' :: '*' :: cs) (pieces ('/' :: '*' :: as)) := by
  have hpieces : pieces ('/' :: '*' :: cs) = pieces ('/' :: '*' :: as) ++ pieces bs := by
    rw [pieces, pieces, pieces_of_closeComment h]
    rfl
  obtain ⟨-, hinside, hsum⟩ := block_mem h
  have hleads : pieces ('/' :: '*' :: as) <+: pieces ('/' :: '*' :: cs) := ⟨_, hpieces.symm⟩
  refine ⟨hleads, by simp [pieces], ?_, fun qs hqs hne heven => ?_⟩
  · rw [evenMarks_iff, map_pieceStep_pieces, hsum]
  · refine Nat.not_lt.mp fun hlt => ?_
    have hshorter := List.prefix_of_prefix_length_le hqs hleads hlt.le
    exact not_evenMarks_of_openInside hinside hshorter hne hlt heven

/-- In a comment that is not closed the marks of no front part are even. -/
theorem not_evenMarks_of_closeComment {cs : List Char} (h : closeComment 0 cs = none)
    {qs : List (List Char)} (hleads : qs <+: pieces ('/' :: '*' :: cs)) (hne : qs ≠ []) :
    ¬ EvenMarks qs := by
  obtain ⟨-, hinside, hsum⟩ := unclosedBlock_mem h
  rcases hleads.length_le.lt_or_eq with hlt | heq
  · exact not_evenMarks_of_openInside hinside hleads hne hlt
  · rw [hleads.eq_of_length heq, evenMarks_iff, map_pieceStep_pieces]
    exact hsum.ne'

/-- The word that opens with the mark of a block comment. -/
theorem read_block (cs : List Char) :
    read '/' ('*' :: cs) =
      closed .comment .unterminatedComment ['/', '*'] cs (closeComment 0) := by
  have hkind : Opening.of '/' ('*' :: cs).head? = .blockComment :=
    opening_eq_blockComment_iff.mpr ⟨rfl, rfl⟩
  simp only [read, hkind]
  rfl

end Lexeme

/-! ## Scripts -/

/-- **A block comment that is closed is a word**, and the reader goes on behind it. -/
theorem Reader.words_of_closeComment {cs as bs : List Char}
    (h : Lexeme.closeComment 0 cs = some (as, bs)) (pos : Nat) :
    (Reader.mk pos ('/' :: '*' :: cs)).words =
      ⟨⟨.comment, String.ofList ('/' :: '*' :: as), ⟨pos, pos + width ('/' :: '*' :: as)⟩⟩, none⟩ ::
        (Reader.mk (pos + width ('/' :: '*' :: as)) bs).words := by
  have hread : Lexeme.read '/' ('*' :: cs) = Lexeme.plain .comment ('/' :: '*' :: as) bs := by
    rw [Lexeme.read_block, Lexeme.closed, h]
    rfl
  exact words_of_plain (by decide) hread pos

/-- **A block comment that is not closed is an illegal word**, and the last one. -/
theorem Reader.words_of_closeComment_eq_none {cs : List Char}
    (h : Lexeme.closeComment 0 cs = none) (pos : Nat) :
    (Reader.mk pos ('/' :: '*' :: cs)).words =
      [⟨⟨.illegal, String.ofList ('/' :: '*' :: cs), ⟨pos, pos + width ('/' :: '*' :: cs)⟩⟩,
        some .unterminatedComment⟩] := by
  have hread : Lexeme.read '/' ('*' :: cs) =
      Lexeme.unclosed .unterminatedComment ('/' :: '*' :: cs) := by
    rw [Lexeme.read_block, Lexeme.closed, h]
    rfl
  exact words_of_unclosed (by decide) hread pos

namespace Script

/-- **A script whose first word is the comment `text`**, without a fault, and which is read on
behind it. -/
def OpensWithComment (s : Script) (text : List Char) : Prop :=
  ∃ behind, s.source = text ++ behind ∧
    s.scanned = ⟨⟨.comment, String.ofList text, ⟨0, width text⟩⟩, none⟩ ::
      (Reader.mk (width text) behind).words

/-- A script that opens with the mark of a block comment is read from its first character. -/
theorem scanned_of_block (name : String) {source : String} {cs : List Char}
    (h : source.toList = '/' :: '*' :: cs) :
    (scan name source).scanned = (Reader.mk 0 ('/' :: '*' :: cs)).words := by
  rw [scanned_of_head?_ne name (by simp [h, byteOrderMark]), h]

theorem opensWithComment_of_closeComment (name : String) {source : String} {cs as bs : List Char}
    (hsource : source.toList = '/' :: '*' :: cs) (h : Lexeme.closeComment 0 cs = some (as, bs)) :
    (scan name source).OpensWithComment ('/' :: '*' :: as) := by
  refine ⟨bs, ?_, ?_⟩
  · rw [List.cons_append, List.cons_append, (Lexeme.append_of_closeComment h).2]
    exact hsource
  · rw [scanned_of_block name hsource, Reader.words_of_closeComment h, Nat.zero_add]

/-- **A block comment ends behind the shortest front part with as many opening marks as closing
ones**, or it is not closed. -/
theorem scan_blockComment (name : String) {source : String} (h : ['/', '*'] <+: source.toList) :
    let s := scan name source
    ((∃ ps, ps <+: Lexeme.pieces source.toList ∧ ps ≠ [] ∧ Lexeme.EvenMarks ps) →
      ∃ ps, Lexeme.Closes source.toList ps ∧ s.OpensWithComment ps.flatten) ∧
    ((¬ ∃ ps, ps <+: Lexeme.pieces source.toList ∧ ps ≠ [] ∧ Lexeme.EvenMarks ps) →
      s.words = [⟨.illegal, source, ⟨0, s.size⟩⟩] ∧
        s.diagnostics = [⟨s.position 0, .lexical .unterminatedComment⟩]) ∧
    ∀ body behind, Lexeme.Nested body →
      source.toList = '/' :: '*' :: body ++ '*' :: '/' :: behind →
      s.OpensWithComment ('/' :: '*' :: body ++ ['*', '/']) := by
  intro s
  obtain ⟨cs, hsource⟩ := h
  rw [List.cons_append, List.cons_append, List.nil_append] at hsource
  have hclosed : ∀ {as bs}, Lexeme.closeComment 0 cs = some (as, bs) →
      s.OpensWithComment ('/' :: '*' :: as) :=
    fun hclose => opensWithComment_of_closeComment name hsource.symm hclose
  rw [← hsource]
  refine ⟨fun ⟨qs, hleads, hne, heven⟩ => ?_, fun hnone => ?_, fun body behind hbody hnested => ?_⟩
  · cases hclose : Lexeme.closeComment 0 cs with
    | none => exact absurd heven (Lexeme.not_evenMarks_of_closeComment hclose hleads hne)
    | some parts =>
      refine ⟨_, Lexeme.closes_of_closeComment hclose, ?_⟩
      rw [Lexeme.flatten_pieces]
      exact hclosed hclose
  · cases hclose : Lexeme.closeComment 0 cs with
    | none =>
      have hscanned : s.scanned = _ := scanned_of_block name hsource.symm
      rw [Reader.words_of_closeComment_eq_none hclose, hsource, String.ofList_toList,
        Nat.zero_add] at hscanned
      exact ⟨by rw [words, hscanned]; rfl, by rw [diagnostics, hscanned]; rfl⟩
    | some parts =>
      have hcloses := Lexeme.closes_of_closeComment hclose
      exact absurd ⟨_, hcloses.isPrefix, hcloses.ne_nil, hcloses.even⟩ hnone
  · obtain rfl : cs = body ++ '*' :: '/' :: behind := by simpa using hnested
    have hclose : Lexeme.closeComment 0 (body ++ '*' :: '/' :: behind) =
        some (body ++ ['*', '/'], behind) := by
      rw [Lexeme.closeComment_nested hbody]
      rfl
    exact hclosed hclose

/-- Marks that share a character, and a comment inside another: `/*/` opens one comment only. -/
theorem scan_blockComment_overlapping :
    let source := "/*/ /*a*/ **/*/ b"
    ['/', '*'] <+: source.toList ∧
      (∃ ps, ps <+: Lexeme.pieces source.toList ∧ ps ≠ [] ∧ Lexeme.EvenMarks ps) ∧
      ∃ ps, Lexeme.Closes source.toList ps ∧ (scan "q" source).OpensWithComment ps.flatten := by
  intro source
  have hopens : ['/', '*'] <+: source.toList := by decide
  have heven : ∃ ps, ps <+: Lexeme.pieces source.toList ∧ ps ≠ [] ∧ Lexeme.EvenMarks ps :=
    ⟨(Lexeme.pieces source.toList).take 9, List.take_prefix _ _, by decide, by decide⟩
  exact ⟨hopens, heven, (scan_blockComment "q" hopens).1 heven⟩

end Script

end SqlScript
