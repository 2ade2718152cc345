import SqlScript.Proofs.Casing.Recase
import SqlScript.Proofs.Casing.Stream
import SqlScript.Proofs.Script.Blanking
import SqlScript.Proofs.Script.Spelling

/-!
# Proofs/Casing/Effect — what printing changes, and what it leaves

    source    group /* By */ by, [order], max  -- end
    print     GROUP /* By */ BY, [order], MAX  -- end

A print has the bytes of the script outside its cased words.  A cased word of one name is made of
letters and underscores, so every character of it is put into the case asked for.  In a phrase the
two names are, and the trivia between them is copied: recasing looks for the end of each comment on
its own, and finds it where the reader did (`commentWidth_of_closeComment`), so it goes on exactly
where the trivia does (`recase_trivia`).  `Effect` puts this together.
-/

namespace SqlScript

open Computability SqlScript.Text

/-! ## Phrases -/

namespace Lexeme

/-- A name alone is no phrase. -/
theorem isPhrase_ofWord {text : List Char} (h : text ∈ nameText) :
    (Token.ofWord (String.ofList text)).isPhrase = false := by
  unfold Token.ofWord
  split
  · next k hk => exact isPhrase_eq_false_of_name h (Token.keyword?_eq_some_iff.mp hk)
  · split <;> rfl

/-- **A word that is a phrase is two names and the trivia between them.** -/
theorem exists_phrase_of_read {c : Char} {cs : List Char}
    (h : (read c cs).token.isPhrase = true) :
    ∃ k head trivia name rest, read c cs = phrase k head trivia name rest ∧ head ∈ nameText ∧
      trivia ∈ triviaText ∧ name ∈ nameText ∧
      upper (String.ofList (head ++ ' ' :: name)) = k.spelling := by
  have hkind : Opening.of c cs.head? = .name := by
    refine eq_name_of_makes (makes_read c cs) ?_
    cases htoken : (read c cs).token with
    | keyword k => rfl
    | _ =>
      rw [htoken] at h
      cases h
  have hhead : isNameStart c = true := by
    have hshows := shows_of c cs.head?
    rwa [hkind] at hshows
  simp only [read, hkind] at h ⊢
  unfold ofName at h ⊢
  cases hfuse : fuse? (c :: (splitName cs).1) (splitName cs).2 with
  | none =>
    rw [hfuse] at h
    simp only [Option.getD_none, plain, isPhrase_ofWord (name_mem hhead cs)] at h
    cases h
  | some l =>
    obtain ⟨k, trivia, name, after, rfl, -, htrivia, hname, -, hspelling⟩ :=
      exists_phrase_of_fuse? hfuse
    exact ⟨k, _, trivia, name, after, rfl, name_mem hhead cs, htrivia, hname, hspelling⟩

end Lexeme

/-- A word takes up the byte at an offset. -/
def Word.TakesUp (offset : Nat) (w : Word) : Prop :=
  w.span.start ≤ offset ∧ offset < w.span.stop

namespace Script.Tiled

variable {s : Script} {front tail : List Char} {ts pre post : List Tile} {t : Tile}

/-- The word of a tile is a word of the script. -/
theorem word_mem (h : s.Tiled front (pre ++ t :: post) tail) :
    t.word (width front + width (pre.flatMap Tile.text)) ∈ s.words := by
  rw [h.words_eq, scannedFrom_append, scannedFrom]
  simp

theorem gapStart_le (h : s.Tiled front (pre ++ post) tail) :
    s.gapStart pre.length ≤ s.gapStop pre.length := by
  by_cases hpre : pre = []
  · rw [hpre]
    exact Nat.zero_le _
  · rw [h.gapStart_eq hpre, h.gapStop_eq]
    exact Nat.le_add_right _ _

end Script.Tiled

namespace Casing

open Lexeme

/-! ## Trivia -/

/-- **A block comment is as wide as the reader found it**, whatever the number of comments open, and
as wide as the text if it is not closed. -/
theorem commentWidth_eq_width (depth : Nat) (cs : List Char) :
    commentWidth (depth + 1) cs = width ((closeComment depth cs).elim cs Prod.fst) := by
  fun_induction closeComment depth cs with
  | case1 depth cs ih =>
    rw [commentWidth, ih]
    cases closeComment (depth + 1) cs <;> exact Nat.add_assoc 1 1 _
  | case2 cs => rfl
  | case3 depth cs ih =>
    rw [commentWidth, if_neg (by omega), Nat.add_sub_cancel, ih]
    cases closeComment depth cs <;> exact Nat.add_assoc 1 1 _
  | case4 depth c cs hopen hzero hsucc ih =>
    rw [commentWidth_cons (not_mark hopen) (not_mark (not_closeMark hzero hsucc)), ih]
    cases closeComment depth cs <;> rfl
  | case5 => rfl

theorem commentWidth_of_closeComment {depth : Nat} {cs as bs : List Char}
    (h : closeComment depth cs = some (as, bs)) : commentWidth (depth + 1) cs = width as := by
  rw [commentWidth_eq_width, h]
  rfl

theorem recase_space (style : KeywordCase) {c : Char} (hc : isSpace c = true) (cs : List Char) :
    recase style (c :: cs) = c :: recase style cs := by
  refine recase_other style ?_ ?_ ?_
  · rcases eq_of_isSpace hc with rfl | rfl | rfl | rfl <;> rfl
  all_goals
    rintro ⟨rfl, -⟩
    exact absurd hc (by decide)

/-- **Trivia is copied**, and recasing goes on behind it. -/
theorem recase_trivia (style : KeywordCase) {trivia : List Char} (h : trivia ∈ triviaText)
    (cs : List Char) : recase style (trivia ++ cs) = trivia ++ recase style cs := by
  obtain ⟨parts, rfl, hparts⟩ := h
  induction parts with
  | nil => rfl
  | cons part parts ih =>
    obtain ⟨hpart, hparts⟩ := List.forall_mem_cons.mp hparts
    rw [List.flatten_cons, List.append_assoc, List.append_assoc, ← ih hparts]
    generalize parts.flatten ++ cs = rest
    rcases hpart with (⟨c, hc, rfl⟩ | ⟨line, hline, last, hlast, rfl⟩) | hblock
    · exact recase_space style hc rest
    · obtain ⟨dashes, hdashes, line, hopen, rfl⟩ := Language.mem_mul.mp hline
      obtain rfl : dashes = ['-', '-'] := hdashes
      obtain ⟨b, hb, rfl⟩ := hlast
      have hline : ∀ c ∈ line, isLineBreak c = false := by
        simpa using mem_kstar_chars.mp hopen
      have hbreak : ∀ c ∈ (b :: rest).head?, isLineBreak c = true := by simpa using hb
      have hcopy := recase_line style hline hbreak
      rw [recase_space style (isSpace_of_isLineBreak hb)] at hcopy
      simpa using hcopy
    · obtain ⟨⟨body, rfl⟩, -⟩ := id hblock
      have hclose := closeComment_of_mem hblock rest
      exact recase_block style (commentWidth_of_closeComment hclose)

/-! ## Words -/

theorem toUpper_mem {cs : List Char} {spelling : String} (h : upper (String.ofList cs) = spelling)
    {c : Char} (hc : c ∈ cs) : c.toUpper ∈ spelling.toList := by
  rw [← h, toList_upper, String.toList_ofList]
  exact List.mem_map_of_mem hc

/-- A text that spells a word of letters and underscores is made of them. -/
theorem forall_isWordChar {cs : List Char} {spelling : String}
    (h : upper (String.ofList cs) = spelling) (hword : spelling.toList.all isWordChar = true) :
    ∀ c ∈ cs, isWordChar c = true := by
  intro c hc
  rw [← isWordChar_apply .upper c]
  exact List.all_eq_true.mp hword _ (toUpper_mem h hc)

theorem isCased_iff {w : Word} {text : List Char} :
    isCased w text = true ↔ w.token.isKeyword = true ∨
      w.token = .ident ∧ isUndelimited text = true ∧
        Token.isReserved (String.ofList text) = true := by
  simp [isCased, and_assoc]

/-- **A cased word that is no phrase is made of letters and underscores.** -/
theorem forall_isWordChar_of_isCased {w : Word} {text : List Char} {next : Option Char}
    (hspells : w.token.Spells text next) (hphrase : w.token.isPhrase = false)
    (hcased : isCased w text = true) : ∀ c ∈ text, isWordChar c = true := by
  have hkeywords : ∀ k ∈ Keyword.all, k.isPhrase = false →
      k.spelling.toList.all isWordChar = true := by decide +kernel
  have haggregates : ∀ a ∈ Aggregate.all, a.spelling.toList.all isWordChar = true := by
    decide +kernel
  have hreserved : ∀ word ∈ Token.reservedWords, word.toList.all isWordChar = true := by
    decide +kernel
  cases htoken : w.token with
  | keyword k =>
    rw [htoken] at hspells hphrase
    have hone : k.isPhrase = false := hphrase
    have hname : text ∈ namesOf k.spelling := by simpa [hone] using hspells.1
    exact forall_isWordChar hname.2 (hkeywords k (Keyword.mem_all k) hone)
  | aggregate a =>
    rw [htoken] at hspells
    exact forall_isWordChar hspells.1.2 (haggregates a (Aggregate.mem_all a))
  | ident =>
    rcases isCased_iff.mp hcased with hkeyword | ⟨-, -, hword⟩
    · rw [htoken] at hkeyword
      cases hkeyword
    · exact forall_isWordChar rfl (hreserved _ (List.contains_iff_mem.mp hword))
  | _ => simp [isCased, htoken, Token.isKeyword] at hcased

theorem recase_of_forall (style : KeywordCase) {word : List Char}
    (h : ∀ c ∈ word, isWordChar c = true) : recase style word = word.map style.apply := by
  have hword := recase_append style h []
  rwa [List.append_nil, recase, List.append_nil] at hword

/-- **In a phrase the two names are recased.** -/
theorem recase_phrase (style : KeywordCase) {k : Keyword} {head trivia name : List Char}
    (hhead : head ∈ nameText) (htrivia : trivia ∈ triviaText) (hname : name ∈ nameText)
    (hspelling : upper (String.ofList (head ++ ' ' :: name)) = k.spelling) :
    recase style (head ++ trivia ++ name) =
      head.map style.apply ++ trivia ++ name.map style.apply := by
  have hall : ∀ k ∈ Keyword.all,
      (k.spelling.toList.all fun c => isWordChar c || c = ' ') = true := by decide +kernel
  -- of the spelling only the space is no word character, and no name has one
  have hword : ∀ text ∈ nameText, text ⊆ head ++ ' ' :: name →
      ∀ c ∈ text, isWordChar c = true := by
    intro text htext hsubset c hc
    have hupper := List.all_eq_true.mp (hall k (Keyword.mem_all k)) _
      (toUpper_mem hspelling (hsubset hc))
    rcases Bool.or_eq_true_iff.mp hupper with hword | hspace
    · rwa [← isWordChar_apply .upper c]
    · have hchar := forall_isNameChar htext c hc
      rw [← isNameChar_toUpper, of_decide_eq_true hspace] at hchar
      exact absurd hchar (by decide)
  have hheadWord := hword head hhead (List.subset_append_left _ _)
  have hnameWord := hword name hname
    (List.Subset.trans (List.subset_cons_self _ _) (List.subset_append_right _ _))
  rw [List.append_assoc, recase_append style hheadWord, recase_trivia style htrivia,
    recase_of_forall style hnameWord, List.append_assoc]

theorem recase_preserve (cs : List Char) : recase .preserve cs = cs := by
  fun_induction recase .preserve cs with
  | case1 => rfl
  | case2 c cs hword ih => rw [ih]; rfl
  | case3 c cs hword hline line ih =>
    have hparts : line.1 ++ line.2 = c :: cs := List.takeWhile_append_dropWhile
    rw [ih, hparts]
  | case4 c cs hword hline hblock comment ih =>
    have hparts : comment.1 ++ comment.2 = c :: cs := splitWidth_append _ _
    rw [ih, hparts]
  | case5 c cs hword hline hblock ih => rw [ih]

theorem printWord_of_isCased {w : Word} {text : List Char} (h : isCased w text = true)
    (style : KeywordCase) : printWord style w text = recase style text := by
  unfold printWord
  split
  · rfl
  · next hpreserve =>
    obtain rfl : style = .preserve := by simpa [h] using hpreserve
    exact (recase_preserve text).symm

/-! ## Rows of tiles -/

theorem width_printTile (style : KeywordCase) (t : Tile) :
    width (printTile style t).text = width t.text := by
  rw [text_printTile, width_append, width_printWord, Tile.width_text]

/-- The words of a row stay where they are. -/
theorem scannedFrom_printTile (style : KeywordCase) (pos : Nat) (ts : List Tile) :
    scannedFrom pos (ts.map (printTile style)) = scannedFrom pos ts := by
  induction ts generalizing pos with
  | nil => rfl
  | cons t ts ih =>
    have hword : (printTile style t).word pos = t.word pos := by
      simp only [Tile.word, Reader.wordAt, printTile, width_printWord]
    rw [List.map_cons, scannedFrom, scannedFrom, width_printTile, ih, hword]
    rfl

/-- **The print of a row of tiles has the bytes of the row outside the cased words.** -/
theorem getElem?_bytes_print (style : KeywordCase) (tail : List Char) (pos n : Nat)
    {ts : List Tile}
    (h : ∀ pre t post, ts = pre ++ t :: post → isCased (t.word 0) t.lexeme.text = true →
      ¬ (t.word (pos + width (pre.flatMap Tile.text))).TakesUp (pos + n)) :
    (bytes ((ts.map (printTile style)).flatMap Tile.text ++ tail))[n]? =
      (bytes (ts.flatMap Tile.text ++ tail))[n]? := by
  induction ts generalizing pos n with
  | nil => rfl
  | cons t ts ih =>
    simp only [List.map_cons, List.flatMap_cons, List.append_assoc]
    rw [bytes_append, bytes_append t.text, List.getElem?_append, List.getElem?_append,
      length_bytes, length_bytes, width_printTile]
    split
    · next hn =>
      cases hcased : isCased (t.word 0) t.lexeme.text with
      | false =>
        rw [text_printTile, printWord_of_isCased_eq_false hcased]
        rfl
      | true =>
        have hgap : n < width t.gap := by
          have hout := h [] t ts rfl hcased
          simp only [Word.TakesUp, Tile.start_word, Tile.stop_word, List.flatMap_nil, width_nil,
            Nat.add_zero] at hout
          omega
        rw [← length_bytes] at hgap
        rw [text_printTile, Tile.text, bytes_append, bytes_append,
          List.getElem?_append_left hgap, List.getElem?_append_left hgap]
    · next hn =>
      refine ih (pos + width t.text) _ fun pre u post hts hcased => ?_
      have hout := h (t :: pre) u post (by rw [hts]; rfl) hcased
      rw [List.flatMap_cons, width_append, ← Nat.add_assoc] at hout
      have hn' : pos + width t.text + (n - width t.text) = pos + n := by omega
      rwa [hn']

/-! ## Scripts -/

/-- **What printing does to a script**: every letter of a cased name takes the case asked for, and
nothing else changes. -/
structure Effect (s : Script) (style : KeywordCase) (print : List Char) : Prop where
  length_eq : (bytes print).length = (bytes s.source).length
  /-- A byte outside the cased words is the byte of the script… -/
  frame : ∀ n, (∀ w ∈ s.words, isCased w (s.text w) = true → ¬ w.TakesUp n) →
    (bytes print)[n]? = (bytes s.source)[n]?
  /-- …so the gaps are those of the script… -/
  gap : ∀ i ≤ s.words.length, slice? print (s.gapStart i) (s.gapStop i) = some (s.gapBefore i)
  /-- …and so are the words that are neither keywords nor plain reserved identifiers. -/
  copied : ∀ w ∈ s.words, w.token.isKeyword = false →
    (w.token = .ident → isUndelimited (s.text w) = true →
      Token.isReserved (String.ofList (s.text w)) = false) →
    slice? print w.span.start w.span.stop = some (s.text w)
  /-- A keyword of one word, or a plain reserved identifier, is in the case asked for. -/
  name : ∀ w ∈ s.words, w.token.isKeyword = true ∧ w.token.isPhrase = false ∨
      w.token = .ident ∧ isUndelimited (s.text w) = true ∧
        Token.isReserved (String.ofList (s.text w)) = true →
    slice? print w.span.start w.span.stop = some ((s.text w).map style.apply)
  /-- In a keyword of two words both are, and what stands between them is copied. -/
  phrase : ∀ w ∈ s.words, w.token.isPhrase = true →
    ∃ head ∈ nameText, ∃ trivia ∈ triviaText, ∃ tail ∈ nameText,
      w.literal = String.ofList (head ++ ' ' :: tail) ∧ s.text w = head ++ trivia ++ tail ∧
      slice? print w.span.start w.span.stop =
        some (head.map style.apply ++ trivia ++ tail.map style.apply)

section Tiled

variable {s : Script} {front tail : List Char} {ts : List Tile}

/-- **A byte outside the cased words is printed as it is.** -/
theorem getElem?_bytes_render (h : s.Tiled front ts tail) (style : KeywordCase) {n : Nat}
    (hout : ∀ w ∈ s.words, isCased w (s.text w) = true → ¬ w.TakesUp n) :
    (bytes (render s style).toList)[n]? = (bytes s.source)[n]? := by
  rw [toList_render style h, h.source_eq, bytes_append, bytes_append front, List.getElem?_append,
    List.getElem?_append, length_bytes]
  split
  · rfl
  · next hn =>
    have hoffset : width front + (n - width front) = n := by omega
    refine getElem?_bytes_print style tail (width front) (n - width front) ?_
    rintro pre t post rfl hcased
    rw [hoffset]
    refine hout _ h.word_mem ?_
    rw [h.text_eq]
    exact hcased

/-- **The print of a script is a row of tiles where the script was one.** -/
theorem tiled_render (h : s.Tiled front ts tail) (style : KeywordCase) :
    ({ s with source := (render s style).toList } : Script).Tiled front (ts.map (printTile style))
      tail where
  source_eq := toList_render style h
  scanned_eq := by
    rw [scannedFrom_printTile]
    exact h.scanned_eq

theorem nextGap_map_printTile (style : KeywordCase) (tail : List Char) (ts : List Tile) :
    nextGap tail (ts.map (printTile style)) = nextGap tail ts := by
  cases ts <;> rfl

/-- **The gaps of a script are printed where they stood.** -/
theorem slice?_gap_render (h : s.Tiled front ts tail) (style : KeywordCase) {i : Nat}
    (hi : i ≤ s.words.length) :
    slice? (render s style).toList (s.gapStart i) (s.gapStop i) = some (s.gapBefore i) := by
  obtain ⟨pre, post, rfl, rfl⟩ : ∃ pre post, ts = pre ++ post ∧ i = pre.length := by
    rw [h.length_words] at hi
    exact ⟨ts.take i, ts.drop i, (List.take_append_drop i ts).symm, by simp [hi]⟩
  have hprint := tiled_render h style
  rw [List.map_append] at hprint
  have hstop := hprint.gapStop_eq
  have hgap := hprint.slice?_gap
  have hnil : pre.map (printTile style) = [] ↔ pre = [] := List.map_eq_nil_iff
  rw [List.length_map, width_flatMap_printTile, nextGap_map_printTile, ← h.gapStop_eq] at hstop
  simp only [List.length_map, hstop, nextGap_map_printTile, hnil] at hgap
  rw [h.gapBefore_eq, ← hgap, ← Nat.min_eq_left h.gapStart_le]
  rfl

end Tiled

/-- **Printing changes the case of the cased words and nothing else.** -/
theorem effect_render (name source : String) (style : KeywordCase) :
    Effect (Script.scan name source) style (render (Script.scan name source) style).toList := by
  obtain ⟨front, body, ts, tail, -, -, -, htiled⟩ := Script.exists_tiled name source
  have hslice : ∀ w ∈ (Script.scan name source).words, _ := fun w =>
    slice?_render style htiled (w := w)
  refine ⟨?_, fun n => getElem?_bytes_render htiled style,
    fun i hi => slice?_gap_render htiled style hi, fun w hw hkeyword hident => ?_,
    fun w hw hname => ?_, fun w hw hphrase => ?_⟩
  · rw [length_bytes, length_bytes, toList_render style htiled, htiled.source_eq]
    simp only [width_append, width_flatMap_printTile]
  · have hcased : isCased w ((Script.scan name source).text w) = false := by
      refine Bool.eq_false_iff.mpr fun hcased => ?_
      rcases isCased_iff.mp hcased with htrue | ⟨htoken, hplain, hreserved⟩
      · rw [hkeyword] at htrue
        cases htrue
      · rw [hident htoken hplain] at hreserved
        cases hreserved
    rw [hslice w hw, printWord_of_isCased_eq_false hcased]
  · obtain ⟨c, cs, htoken, -, htext⟩ := Script.exists_read hw
    have hcased := isCased_iff.mpr (hname.imp_left And.left)
    have hphrase : w.token.isPhrase = false := by
      rcases hname with ⟨-, hphrase⟩ | ⟨hident, -⟩
      · exact hphrase
      · rw [hident]
        rfl
    have hspells : w.token.Spells ((Script.scan name source).text w) (read c cs).rest.head? := by
      rw [htoken, htext]
      exact spelled_read c cs
    rw [hslice w hw, printWord_of_isCased hcased,
      recase_of_forall style (forall_isWordChar_of_isCased hspells hphrase hcased)]
  · obtain ⟨c, cs, htoken, hliteral, htext⟩ := Script.exists_read hw
    obtain ⟨k, head, trivia, tail, rest, hread, hhead, htrivia, htail, hspelling⟩ :=
      exists_phrase_of_read (htoken ▸ hphrase)
    rw [hread] at htoken hliteral htext
    have hcased : isCased w ((Script.scan name source).text w) = true :=
      isCased_iff.mpr (.inl (by rw [htoken]; rfl))
    refine ⟨head, hhead, trivia, htrivia, tail, htail, hliteral, htext, ?_⟩
    rw [hslice w hw, printWord_of_isCased hcased, htext]
    exact congrArg some (recase_phrase style hhead htrivia htail hspelling)

/-- A comment inside a phrase, a delimited name and an aggregate. -/
example : render (Script.scan "q" "group /* By */ by [order], max") .upper =
    "GROUP /* By */ BY [order], MAX" := by decide +kernel

end Casing

end SqlScript
