import Mathlib.Data.List.TakeWhile
import SqlScript.Proofs.Lexeme.Language
import SqlScript.Proofs.Script.BlockComment
import SqlScript.Proofs.Script.Spelling

/-!
# Proofs/Script/Phrases — when two words make one, and what is left when they do not

    GROUP ␣ /* x */ ␣ BY        one word, from the first letter to the last
    GROUP ␣ /* x */ ␣ IN        GROUP, then the comment, then IN

A name that can open a phrase looks across the **trivia** behind it, white space and comments, for
the name that completes it.  `Trivia` says what a reader passes on that way and which comments are
there, each as a word.  Either the next name completes the phrase and all of it is one word, or the
name stands alone and the reader goes on right behind it, where it meets these comments as words
(`Reader.next?_phraseHead`).
-/

namespace SqlScript

open Computability SqlScript.Text

namespace Lexeme

/-! ## Comments at the front of a text -/

/-- A comment in front of `cs`: a closed block comment, or a line comment up to the end of its
line. -/
def IsComment (text cs : List Char) : Prop :=
  text ∈ blockText ∨ text ∈ lineText ∧ cs.head?.all isLineBreak = true

/-- A text that opens with neither white space nor a comment that ends. -/
structure OpensNoTrivia (cs : List Char) : Prop where
  space : cs.head?.any isSpace = false
  line : ¬ ['-', '-'] <+: cs
  block : ∀ text ∈ blockText, ¬ text <+: cs

theorem exists_of_mem_blockText {text : List Char} (h : text ∈ blockText) :
    ∃ as, text = '/' :: '*' :: as := by
  obtain ⟨⟨body, rfl⟩, -⟩ := h
  exact ⟨_, rfl⟩

theorem any_not_isLineBreak {next : Option Char} :
    next.any (!isLineBreak ·) = false ↔ next.all isLineBreak = true := by
  cases next <;> simp

/-- A line comment is cut off in front of the end of its line. -/
theorem exists_of_mem_lineText {text cs : List Char} (h : text ∈ lineText)
    (hend : cs.head?.all isLineBreak = true) :
    ∃ line, text = '-' :: '-' :: line ∧ splitLine (line ++ cs) = (line, cs) := by
  obtain ⟨dashes, hdashes, line, hline, rfl⟩ := Language.mem_mul.mp h
  obtain rfl : dashes = ['-', '-'] := hdashes
  refine ⟨line, rfl, ?_⟩
  have hwhole : (splitLine line).1 = line :=
    List.takeWhile_eq_self_iff.mpr (mem_kstar_chars.mp hline)
  have hsplit := splitLine_exchange line (any_not_isLineBreak.mpr hend)
  rwa [hwhole] at hsplit

/-- A name is no trivia. -/
theorem opensNoTrivia_of_isNameStart {c : Char} (hc : isNameStart c = true) (cs : List Char) :
    OpensNoTrivia (c :: cs) where
  space := by
    refine Bool.eq_false_iff.mpr fun hspace => ?_
    have hname := isNameChar_of_isSpace c hspace
    rw [isNameChar_of_isNameStart hc] at hname
    cases hname
  line := by
    rintro ⟨ds, hds⟩
    obtain rfl : '-' = c := (List.cons.inj hds).1
    exact absurd hc (by decide)
  block := by
    rintro text htext ⟨ds, hds⟩
    obtain ⟨as, rfl⟩ := exists_of_mem_blockText htext
    obtain rfl : '/' = c := (List.cons.inj hds).1
    exact absurd hc (by decide)

/-- **A comment is passed as trivia.** -/
theorem splitTrivia_comment {text cs : List Char} (h : IsComment text cs) :
    splitTrivia (text ++ cs) = (text ++ (splitTrivia cs).1, (splitTrivia cs).2) := by
  rcases h with hblock | ⟨hline, hend⟩
  · obtain ⟨as, rfl⟩ := exists_of_mem_blockText hblock
    exact splitTrivia_block (closeComment_of_mem hblock cs)
  · obtain ⟨line, rfl, hsplit⟩ := exists_of_mem_lineText hline hend
    rw [List.cons_append, List.cons_append, splitTrivia_line, hsplit]

/-- **A comment is read as a word.** -/
theorem read_comment {text cs : List Char} (h : IsComment text cs) :
    ∃ c ds, text ++ cs = c :: ds ∧ isSpace c = false ∧ read c ds = plain .comment text cs := by
  rcases h with hblock | ⟨hline, hend⟩
  · obtain ⟨as, rfl⟩ := exists_of_mem_blockText hblock
    refine ⟨'/', '*' :: (as ++ cs), rfl, by decide, ?_⟩
    rw [read_block, closed, closeComment_of_mem hblock]
    rfl
  · obtain ⟨line, rfl, hsplit⟩ := exists_of_mem_lineText hline hend
    have hkind : Opening.of '-' ('-' :: (line ++ cs)).head? = .lineComment :=
      opening_eq_lineComment_iff.mpr ⟨rfl, rfl⟩
    have hfront : splitLine ('-' :: (line ++ cs)) = ('-' :: line, cs) := by
      have hdash : splitLine ('-' :: (line ++ cs)) =
          ('-' :: (splitLine (line ++ cs)).1, (splitLine (line ++ cs)).2) := rfl
      rw [hdash, hsplit]
    refine ⟨'-', '-' :: (line ++ cs), rfl, by decide, ?_⟩
    simp only [read, hkind, readLine, hfront]

/-- A text that opens with the mark of a block comment and with no block comment is not closed. -/
theorem closeComment_eq_none {cs : List Char}
    (h : ∀ text ∈ blockText, ¬ text <+: '/' :: '*' :: cs) : closeComment 0 cs = none := by
  cases hclose : closeComment 0 cs with
  | none => rfl
  | some parts =>
    have happ := (append_of_closeComment hclose).2
    refine absurd ⟨parts.2, ?_⟩ (h _ (block_mem hclose))
    rw [List.cons_append, List.cons_append, happ]

/-- No trivia is cut off where there is none, but a block comment that is not closed takes up
everything. -/
theorem splitTrivia_of_opensNoTrivia {cs : List Char} (h : OpensNoTrivia cs) :
    splitTrivia cs = if ['/', '*'] <+: cs then (cs, []) else ([], cs) := by
  split
  · next hblock =>
    obtain ⟨ds, rfl⟩ := hblock
    exact splitTrivia_unclosed (closeComment_eq_none h.block)
  · next hblock =>
    cases cs with
    | nil => exact splitTrivia_nil
    | cons c ds =>
      rw [splitTrivia_cons, if_neg (by simpa using h.space)]
      · rintro ⟨rfl, hdash⟩
        obtain ⟨es, rfl⟩ := List.head?_eq_some_iff.mp hdash
        exact h.line ⟨es, rfl⟩
      · rintro ⟨rfl, hstar⟩
        obtain ⟨es, rfl⟩ := List.head?_eq_some_iff.mp hstar
        exact hblock ⟨es, rfl⟩

end Lexeme

open Lexeme

/-! ## Trivia -/

/-- **What a reader passes in search of a name**: white space and comments, as many as there are.
The comments are listed as the words they are. -/
inductive Trivia : Reader → List Scanned → Reader → Prop
  | stop {r : Reader} (h : OpensNoTrivia r.rest) : Trivia r [] r
  | space {pos : Nat} {c : Char} {cs : List Char} {comments : List Scanned} {r : Reader}
      (hc : isSpace c = true) (h : Trivia ⟨pos + c.utf8Size, cs⟩ comments r) :
      Trivia ⟨pos, c :: cs⟩ comments r
  | comment {pos : Nat} {text cs : List Char} {comments : List Scanned} {r : Reader}
      (htext : IsComment text cs) (h : Trivia ⟨pos + width text, cs⟩ comments r) :
      Trivia ⟨pos, text ++ cs⟩
        (⟨⟨.comment, String.ofList text, ⟨pos, pos + width text⟩⟩, none⟩ :: comments) r

/-- **Every reader passes some trivia**, by induction on what is left to read. -/
theorem exists_trivia (r : Reader) : ∃ comments r', Trivia r comments r' := by
  obtain ⟨pos, cs⟩ := r
  generalize hn : cs.length = n
  induction n using Nat.strongRecOn generalizing pos cs with
  | ind n ih =>
    have hcomment : ∀ {text rest : List Char}, cs = text ++ rest → text ≠ [] →
        IsComment text rest → ∃ comments r', Trivia ⟨pos, cs⟩ comments r' := by
      rintro text rest rfl hne htext
      have hpos := List.length_pos_iff.mpr hne
      rw [List.length_append] at hn
      obtain ⟨comments, r', h⟩ := ih rest.length (by omega) (pos + width text) rest rfl
      exact ⟨_, r', .comment htext h⟩
    by_cases hspace : cs.head?.any isSpace = true
    · obtain ⟨c, ds, rfl⟩ : ∃ c ds, cs = c :: ds := by
        cases cs with
        | nil => simp at hspace
        | cons c ds => exact ⟨c, ds, rfl⟩
      obtain ⟨comments, r', h⟩ := ih ds.length (by simp [← hn]) (pos + c.utf8Size) ds rfl
      exact ⟨comments, r', .space (by simpa using hspace) h⟩
    by_cases hline : ['-', '-'] <+: cs
    · obtain ⟨ds, rfl⟩ := hline
      have hparts : (splitLine ds).1 ++ (splitLine ds).2 = ds := List.takeWhile_append_dropWhile
      have hcut : '-' :: '-' :: ds = ('-' :: '-' :: (splitLine ds).1) ++ (splitLine ds).2 := by
        simp [hparts]
      refine hcomment hcut (List.cons_ne_nil _ _) (.inr ⟨line_mem ds, ?_⟩)
      exact any_not_isLineBreak.mp (any_head?_dropWhile (!isLineBreak ·) ds)
    by_cases hblock : ∃ text ∈ blockText, text <+: cs
    · obtain ⟨text, htext, rest, rfl⟩ := hblock
      obtain ⟨as, rfl⟩ := exists_of_mem_blockText htext
      exact hcomment rfl (List.cons_ne_nil _ _) (.inl htext)
    · exact ⟨[], _, .stop ⟨by simpa using hspace, hline, fun text htext hleads =>
        hblock ⟨text, htext, hleads⟩⟩⟩

/-- A reader passes white space on its own. -/
theorem Reader.words_space {c : Char} (hc : isSpace c = true) (pos : Nat) (cs : List Char) :
    (Reader.mk pos (c :: cs)).words = (Reader.mk (pos + c.utf8Size) cs).words := by
  have hskip : (Reader.mk pos (c :: cs)).skipSpace =
      (Reader.mk (pos + c.utf8Size) cs).skipSpace := by
    simp [skipSpace, hc, Nat.add_assoc]
  have hnext : (Reader.mk pos (c :: cs)).next? = (Reader.mk (pos + c.utf8Size) cs).next? := by
    rw [next?, hskip, next?]
  cases hfound : (Reader.mk (pos + c.utf8Size) cs).next? with
  | none => rw [words_of_next?_eq_none hfound, words_of_next?_eq_none (hnext.trans hfound)]
  | some found => rw [words_of_next?_eq_some hfound, words_of_next?_eq_some (hnext.trans hfound)]

namespace Trivia

variable {r r' : Reader} {comments : List Scanned}

/-- **The comments of trivia are the next words.** -/
theorem words_eq (h : Trivia r comments r') : r.words = comments ++ r'.words := by
  induction h with
  | stop h => rfl
  | @space pos c cs comments r hc h ih => rw [Reader.words_space hc, ih]
  | @comment pos text cs comments r htext h ih =>
    obtain ⟨c, ds, hsplit, hc, hread⟩ := read_comment htext
    have hnext := Reader.next?_eq hc pos ds
    rw [hread, ← hsplit] at hnext
    rw [Reader.words_of_next?_eq_some hnext]
    exact congrArg _ ih

/-- A reader goes forward by the width of the trivia, and that is what is cut off in search of a
name, unless a block comment that is not closed stands behind it. -/
theorem exists_splitTrivia (h : Trivia r comments r') :
    ∃ trivia, r.rest = trivia ++ r'.rest ∧ r'.pos = r.pos + width trivia ∧
      splitTrivia r.rest =
        if ['/', '*'] <+: r'.rest then (r.rest, []) else (trivia, r'.rest) := by
  have hfront : ∀ {text cs trivia : List Char} {pos : Nat} {r : Reader},
      splitTrivia (text ++ cs) = (text ++ (splitTrivia cs).1, (splitTrivia cs).2) →
      cs = trivia ++ r.rest → r.pos = pos + width text + width trivia →
      (splitTrivia cs = if ['/', '*'] <+: r.rest then (cs, []) else (trivia, r.rest)) →
      ∃ trivia, text ++ cs = trivia ++ r.rest ∧ r.pos = pos + width trivia ∧
        splitTrivia (text ++ cs) =
          if ['/', '*'] <+: r.rest then (text ++ cs, []) else (trivia, r.rest) := by
    intro text cs trivia pos r hsplit hcs hpos hrest
    refine ⟨text ++ trivia, by rw [hcs, List.append_assoc], ?_, ?_⟩
    · rw [hpos, width_append, Nat.add_assoc]
    · rw [hsplit, hrest]
      split <;> rfl
  induction h with
  | @stop r h => exact ⟨[], rfl, rfl, splitTrivia_of_opensNoTrivia h⟩
  | @space pos c cs comments r hc h ih =>
    obtain ⟨trivia, hcs, hpos, hrest⟩ := ih
    have hblank : ∀ d ∈ [c], isSpace d = true := by simpa using hc
    have hwidth : pos + c.utf8Size = pos + width [c] := rfl
    rw [hwidth] at hpos
    exact hfront (splitTrivia_append_of_isSpace hblank cs) hcs hpos hrest
  | @comment pos text cs comments r htext h ih =>
    obtain ⟨trivia, hcs, hpos, hrest⟩ := ih
    exact hfront (splitTrivia_comment htext) hcs hpos hrest

theorem opensNoTrivia (h : Trivia r comments r') : OpensNoTrivia r'.rest := by
  induction h with
  | stop h => exact h
  | space _ _ ih | comment _ _ ih => exact ih

end Trivia

/-! ## Phrases -/

/-- **The name at the front of `after` completes the phrase that `head` opens**, with `more` behind
it. -/
structure Completes (head after : List Char) (k : Keyword) (name more : List Char) : Prop where
  after_eq : after = name ++ more
  isName : name ∈ nameText
  ends : more.head?.any isNameChar = false
  phrase : k.isPhrase = true
  spelling : upper (String.ofList (head ++ ' ' :: name)) = k.spelling

theorem Completes.not_block {head after name more : List Char} {k : Keyword}
    (h : Completes head after k name more) : ¬ ['/', '*'] <+: after := by
  obtain ⟨first, ⟨c, hc, rfl⟩, tail, -, hname⟩ := Language.mem_mul.mp h.isName
  rw [h.after_eq, ← hname]
  rintro ⟨cs, hcs⟩
  obtain rfl : '/' = c := (List.cons.inj hcs).1
  exact absurd hc (by decide)

/-- A text of name characters is cut off in front of any other character. -/
theorem Lexeme.splitName_append_of_ends {name more : List Char}
    (hname : ∀ c ∈ name, isNameChar c = true) (hends : more.head?.any isNameChar = false) :
    splitName (name ++ more) = (name, more) := by
  have hwhole : (splitName name).1 = name := List.takeWhile_eq_self_iff.mpr hname
  have hsplit := splitName_exchange name hends
  rwa [hwhole] at hsplit

/-- The word that opens a phrase is no keyword on its own. -/
theorem ofWord_of_mem_phraseHeads {text : String} (h : upper text ∈ Token.phraseHeads) :
    Token.ofWord text = .ident := by
  have hkeyword : ∀ head ∈ Token.phraseHeads, Token.keywordTable.lookup head = none := by
    decide +kernel
  have haggregate : ∀ head ∈ Token.phraseHeads, Token.aggregateTable.lookup head = none := by
    decide +kernel
  rw [Token.ofWord, Token.keyword?, hkeyword _ h, Token.aggregate?, haggregate _ h]

/-- A name that can open a phrase is read as a name. -/
theorem Lexeme.read_phraseHead {head rest : List Char} (hhead : head ∈ nameText)
    (hends : rest.head?.any isNameChar = false)
    (hopens : upper (String.ofList head) ∈ Token.phraseHeads) :
    ∃ c cs, head ++ rest = c :: cs ∧ read c cs = ofName head rest := by
  obtain ⟨first, ⟨c, hc, rfl⟩, name, hname, rfl⟩ := Language.mem_mul.mp hhead
  refine ⟨c, name ++ rest, rfl, ?_⟩
  have hkind : Opening.of c (name ++ rest).head? = .name := by
    rcases opening_of_isNameStart hc (name ++ rest).head? with hkind | ⟨hkind, -⟩
    · exact hkind
    · -- the mark of national text opens no phrase
      have hshows := shows_of c (name ++ rest).head?
      rw [hkind] at hshows
      have hupper : ∀ head ∈ Token.phraseHeads, head.toList.head? ≠ some 'N' := by decide
      refine absurd ?_ (hupper _ hopens)
      rw [toList_upper, String.toList_ofList]
      rcases hshows.1 with rfl | rfl <;> rfl
  simp only [read, hkind, splitName_append_of_ends (mem_kstar_chars.mp hname) hends]
  rfl

/-- **The phrase is made where the name behind the trivia completes it.** -/
theorem Lexeme.ofName_of_completes {head rest trivia after name more : List Char} {k : Keyword}
    (hopens : upper (String.ofList head) ∈ Token.phraseHeads)
    (htrivia : splitTrivia rest = (trivia, after)) (h : Completes head after k name more) :
    ofName head rest = phrase k head trivia name more := by
  have hremainder : (Token.phraseRemainder? (String.ofList head)).isSome = true := by
    simp [Token.phraseRemainder?, hopens]
  have hsplit : splitName after = (name, more) := by
    rw [h.after_eq]
    exact splitName_append_of_ends (forall_isNameChar h.isName) h.ends
  obtain ⟨first, ⟨c, hc, rfl⟩, tail, -, hname⟩ := Language.mem_mul.mp h.isName
  obtain ⟨cs, hcs⟩ : ∃ cs, after = c :: cs := ⟨tail ++ more, by rw [h.after_eq, ← hname]; rfl⟩
  rw [hcs] at hsplit
  have hfuse : fuse? head rest = some (phrase k head trivia name more) := by
    rw [fuse?, if_pos hremainder, htrivia, hcs, fuseAcross?, if_pos hc, hsplit,
      Token.keyword?_eq_some_iff.mpr h.spelling.symm]
    rfl
  rw [ofName, hfuse]
  rfl

/-- **Otherwise the name stands alone.** -/
theorem Lexeme.ofName_of_not_completes {head rest after : List Char}
    (hopens : upper (String.ofList head) ∈ Token.phraseHeads)
    (htrivia : (splitTrivia rest).2 ≠ [] → (splitTrivia rest).2 = after)
    (h : ∀ k name more, ¬ Completes head after k name more) :
    ofName head rest = plain .ident head rest := by
  have hfuse : fuse? head rest = none := by
    cases hfuse : fuse? head rest with
    | none => rfl
    | some l =>
      obtain ⟨c, cs, k, hafter, hc, hk, rfl⟩ := exists_of_fuse? hfuse
      have hcs : c :: cs = after := hafter ▸ htrivia (by simp [hafter])
      have hname : (splitName (c :: cs)).1 = c :: (splitName cs).1 :=
        List.takeWhile_cons_of_pos (isNameChar_of_isNameStart hc)
      refine absurd ⟨?_, ?_, any_head?_dropWhile isNameChar (c :: cs), isPhrase_of_fuse? hfuse,
        (Token.keyword?_eq_some_iff.mp hk).symm⟩
        (h k (splitName (c :: cs)).1 (splitName (c :: cs)).2)
      · rw [splitName_append, hcs]
      · rw [hname]
        exact name_mem hc cs
  rw [ofName, hfuse, Option.getD_none, ofWord_of_mem_phraseHeads hopens]

/-- **A phrase is read as one word exactly where it is completed**, and a failed attempt leaves no
trace: the name is a word of its own, the reader stands right behind it, and each comment passed in
the attempt is read as a word. -/
theorem Reader.next?_phraseHead {r : Reader} {head rest : List Char}
    (hstart : r.skipSpace.rest = head ++ rest) (hhead : head ∈ nameText)
    (hends : rest.head?.any isNameChar = false)
    (hopens : upper (String.ofList head) ∈ ["GROUP", "ORDER", "PARTITION", "FORCE"]) :
    let start := r.skipSpace.pos
    let behind : Reader := ⟨start + width head, rest⟩
    (∃ comments after, Trivia behind comments after) ∧
    ∀ comments after, Trivia behind comments after →
      (∀ k name more, Completes head after.rest k name more →
        r.next? = some (⟨⟨.keyword k, String.ofList (head ++ ' ' :: name),
          ⟨start, after.pos + width name⟩⟩, none⟩, ⟨after.pos + width name, more⟩)) ∧
      ((∀ k name more, ¬ Completes head after.rest k name more) →
        r.next? = some (⟨⟨.ident, String.ofList head, ⟨start, behind.pos⟩⟩, none⟩, behind) ∧
        behind.words = comments ++ after.words ∧
        (['/', '*'] <+: after.rest → after.words =
          [⟨⟨.illegal, String.ofList after.rest, ⟨after.pos, after.pos + width after.rest⟩⟩,
            some .unterminatedComment⟩])) := by
  intro start behind
  have hnext : r.next? = some (⟨wordAt start (ofName head rest), (ofName head rest).fault⟩,
      ⟨start + width (ofName head rest).text, (ofName head rest).rest⟩) := by
    obtain ⟨c, cs, hsplit, hread⟩ := read_phraseHead hhead hends hopens
    rw [next?, hstart, hsplit]
    simp only [hread]
    rfl
  refine ⟨exists_trivia behind, fun comments after htrivia => ?_⟩
  obtain ⟨trivia, hrest, hpos, hsplit⟩ := htrivia.exists_splitTrivia
  refine ⟨fun k name more hcompletes => ?_, fun hnone => ⟨?_, htrivia.words_eq, ?_⟩⟩
  · have hblock : ¬ ['/', '*'] <+: after.rest := hcompletes.not_block
    rw [if_neg hblock] at hsplit
    have hread := ofName_of_completes hopens hsplit hcompletes
    have hend : start + width (head ++ trivia ++ name) = after.pos + width name := by
      rw [hpos, width_append, width_append]
      show start + (width head + width trivia + width name) =
        start + width head + width trivia + width name
      omega
    rw [hnext, hread]
    simp only [phrase, wordAt, hend]
  · have hplain : ofName head rest = plain .ident head rest := by
      refine ofName_of_not_completes hopens ?_ hnone
      rw [hsplit]
      split
      · exact fun hne => absurd rfl hne
      · exact fun _ => rfl
    rw [hnext, hplain]
    rfl
  · rintro ⟨cs, hcs⟩
    have hopen := htrivia.opensNoTrivia.block
    obtain ⟨pos, rest'⟩ := after
    obtain rfl : rest' = '/' :: '*' :: cs := hcs.symm
    exact words_of_closeComment_eq_none (closeComment_eq_none hopen) pos

/-- Two words that can open a phrase: the first stands alone, and the comment behind it is a word;
the second takes the name behind it in. -/
theorem Reader.next?_phraseHead_twice :
    (Reader.mk 0 "order/*a*/ group by".toList).next? =
        some (⟨⟨.ident, "order", ⟨0, 5⟩⟩, none⟩, ⟨5, "/*a*/ group by".toList⟩) ∧
      (Reader.mk 5 "/*a*/ group by".toList).words =
        ⟨⟨.comment, "/*a*/", ⟨5, 10⟩⟩, none⟩ :: (Reader.mk 11 "group by".toList).words ∧
      (Reader.mk 11 "group by".toList).next? =
        some (⟨⟨.keyword .GROUP_BY, "group by", ⟨11, 19⟩⟩, none⟩, ⟨19, []⟩) := by
  have hname : ∀ {c cs}, isNameStart c = true → cs.all isNameChar = true →
      c :: cs ∈ nameText := fun {c cs} hc hcs =>
    Language.mem_mul.mpr ⟨[c], ⟨c, hc, rfl⟩, cs, mem_kstar_chars.mpr (List.all_eq_true.mp hcs), rfl⟩
  have hcomment : IsComment "/*a*/".toList " group by".toList := .inl <| by
    have hclose : closeComment 0 "a*/".toList = some ("a*/".toList, []) := by decide +kernel
    exact block_mem hclose
  have htrivia : Trivia ⟨5, "/*a*/".toList ++ " group by".toList⟩ _ ⟨11, "group by".toList⟩ :=
    .comment hcomment (.space rfl (.stop (opensNoTrivia_of_isNameStart rfl _)))
  have hblank : Trivia ⟨16, " by".toList⟩ [] ⟨17, "by".toList⟩ :=
    .space rfl (.stop (opensNoTrivia_of_isNameStart rfl _))
  have horder : ∀ k name more, ¬ Completes "order".toList "group by".toList k name more := by
    intro k name more h
    have hsplit := splitName_append_of_ends (forall_isNameChar h.isName) h.ends
    obtain rfl : name = "group".toList := by
      rw [← h.after_eq] at hsplit
      exact (congrArg Prod.fst hsplit).symm
    have hno : ∀ k ∈ Keyword.all, "ORDER GROUP" ≠ k.spelling := by decide +kernel
    exact hno k (Keyword.mem_all k) h.spelling
  have hgroup : Completes "group".toList "by".toList .GROUP_BY "by".toList [] :=
    ⟨rfl, hname rfl rfl, rfl, rfl, by decide +kernel⟩
  have halone := (Reader.next?_phraseHead
    (show (Reader.mk 0 "order/*a*/ group by".toList).skipSpace.rest =
      "order".toList ++ "/*a*/ group by".toList from rfl)
    (hname rfl rfl) rfl (by decide +kernel)).2 _ _ htrivia
  have hfused := (Reader.next?_phraseHead
    (show (Reader.mk 11 "group by".toList).skipSpace.rest = "group".toList ++ " by".toList from rfl)
    (hname rfl rfl) rfl (by decide +kernel)).2 _ _ hblank
  exact ⟨(halone.2 horder).1, (halone.2 horder).2.1, hfused.1 _ _ _ hgroup⟩

end SqlScript
