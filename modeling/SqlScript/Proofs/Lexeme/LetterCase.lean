import SqlScript.Lexeme.Read
import SqlScript.Proofs.Text.LetterCase

/-!
# Proofs/Lexeme/LetterCase — reading a word does not look at the case of letters

Every character class of the language is blind to the case of the Latin letters, and so is every way
of finding the end of a word: each commutes with upper-casing the text.  `read_toUpper` puts them
together — the word that the upper-cased text begins with is the upper-cased word, with the same
token and the same fault.
-/

namespace SqlScript.Lexeme

open SqlScript.Text

/-- A lexeme of the upper-cased text. -/
def toUpper (l : Lexeme) : Lexeme :=
  { l with
    text := l.text.map Char.toUpper
    literal := l.literal.map Char.toUpper
    rest := l.rest.map Char.toUpper }

@[simp] theorem toUpper_plain (t : Token) (as bs : List Char) :
    (plain t as bs).toUpper = plain t (as.map Char.toUpper) (bs.map Char.toUpper) := rfl

@[simp] theorem toUpper_unclosed (f : LexicalFault) (as : List Char) :
    (unclosed f as).toUpper = unclosed f (as.map Char.toUpper) := rfl

/-- Two parts of a text, both upper-cased. -/
abbrev upperParts : List Char × List Char → List Char × List Char :=
  Prod.map (List.map Char.toUpper) (List.map Char.toUpper)

/-! ## Character classes -/

@[simp] theorem isSpace_toUpper (c : Char) : isSpace c.toUpper = isSpace c :=
  congr_toUpper isSpace (by decide) c

@[simp] theorem isLineBreak_toUpper (c : Char) : isLineBreak c.toUpper = isLineBreak c :=
  congr_toUpper isLineBreak (by decide) c

@[simp] theorem isNameStart_toUpper (c : Char) : isNameStart c.toUpper = isNameStart c :=
  congr_toUpper isNameStart (by decide) c

@[simp] theorem isNameChar_toUpper (c : Char) : isNameChar c.toUpper = isNameChar c :=
  congr_toUpper isNameChar (by decide) c

@[simp] theorem isExponentMark_toUpper (c : Char) : isExponentMark c.toUpper = isExponentMark c :=
  congr_toUpper isExponentMark (by decide) c

@[simp] theorem isSign_toUpper (c : Char) : isSign c.toUpper = isSign c :=
  congr_toUpper isSign (by decide) c

/-- A letter opens a name. -/
theorem isNameStart_of_isAlpha {c : Char} (h : c.isAlpha = true) : isNameStart c = true := by
  by_cases hascii : isAscii c = true
  · simp [isNameStart, isAlphabetic_of_isAscii hascii, h]
  · simp only [isAscii, decide_eq_true_eq] at hascii
    have hbound : c.toNat ≤ 122 := by
      rcases Bool.or_eq_true_iff.mp h with hupper | hlower
      · have hcapital : c.toNat ≤ 90 := (of_decide_eq_true hupper).2
        omega
      · exact of_decide_eq_true (Bool.and_eq_true_iff.mp hlower).2
    omega

/-! ## Runs of characters -/

/-- Cutting behind a run of characters of a class that is blind to case. -/
theorem takeWhile_map_toUpper {p : Char → Bool} (hp : ∀ c, p c.toUpper = p c) (cs : List Char) :
    (cs.map Char.toUpper).takeWhile p = (cs.takeWhile p).map Char.toUpper := by
  rw [List.takeWhile_map, show p ∘ Char.toUpper = p from funext hp]

theorem dropWhile_map_toUpper {p : Char → Bool} (hp : ∀ c, p c.toUpper = p c) (cs : List Char) :
    (cs.map Char.toUpper).dropWhile p = (cs.dropWhile p).map Char.toUpper := by
  rw [List.dropWhile_map, show p ∘ Char.toUpper = p from funext hp]

theorem splitName_map_toUpper (cs : List Char) :
    splitName (cs.map Char.toUpper) = upperParts (splitName cs) := by
  simp [splitName, takeWhile_map_toUpper, dropWhile_map_toUpper]

theorem splitLine_map_toUpper (cs : List Char) :
    splitLine (cs.map Char.toUpper) = upperParts (splitLine cs) := by
  simp [splitLine, takeWhile_map_toUpper, dropWhile_map_toUpper]

theorem splitNumber_map_toUpper (signed : Bool) (cs : List Char) :
    splitNumber signed (cs.map Char.toUpper) = upperParts (splitNumber signed cs) := by
  have hpoint : ∀ c : Char, c.toUpper = '.' ↔ c = '.' := fun c => toUpper_eq_iff (by decide)
  fun_induction splitNumber signed cs with
  | case1 => rfl
  | case2 signed c cs hc more ih => simp_all [splitNumber, more]
  | case3 signed c cs hc => simp_all [splitNumber]

/-! ## Closing marks -/

/-- A text that does not open with a mark of two characters does not do so in capitals. -/
theorem not_mark_toUpper {c d e : Char} {cs : List Char} (hd : d.isAlpha = false)
    (he : e.isAlpha = false) (h : ∀ rest, c = d → cs = e :: rest → False) :
    ¬ (c.toUpper = d ∧ (cs.map Char.toUpper).head? = some e) := by
  rw [toUpper_eq_iff hd, head?_map_toUpper he]
  exact not_mark h

theorem closeComment_map_toUpper (depth : Nat) (cs : List Char) :
    closeComment depth (cs.map Char.toUpper) = (closeComment depth cs).map upperParts := by
  fun_induction closeComment depth cs with
  | case1 depth cs ih =>
    show closeComment depth ('/' :: '*' :: cs.map Char.toUpper) = _
    rw [closeComment, ih]
    cases closeComment (depth + 1) cs <;> rfl
  | case2 cs => rfl
  | case3 depth cs ih =>
    show closeComment (depth + 1) ('*' :: '/' :: cs.map Char.toUpper) = _
    rw [closeComment, ih]
    cases closeComment depth cs <;> rfl
  | case4 depth c cs hopen hzero hsucc ih =>
    rw [List.map_cons, closeComment_cons (not_mark_toUpper (by decide) (by decide) hopen)
      (not_mark_toUpper (by decide) (by decide) (not_closeMark hzero hsucc)), ih]
    cases closeComment depth cs <;> rfl
  | case5 => rfl

theorem closeString_map_toUpper (cs : List Char) :
    closeString (cs.map Char.toUpper) = (closeString cs).map upperParts := by
  fun_induction closeString cs with
  | case1 cs ih =>
    show closeString ('\x27' :: '\x27' :: cs.map Char.toUpper) = _
    rw [closeString, ih]
    cases closeString cs <;> rfl
  | case2 cs hsingle =>
    show closeString ('\x27' :: cs.map Char.toUpper) = _
    rw [closeString]
    · rfl
    · intro rest hrest
      have hhead : cs.head? = some '\x27' :=
        (head?_map_toUpper (by decide)).mp (by rw [hrest]; rfl)
      obtain ⟨rest', rfl⟩ := List.head?_eq_some_iff.mp hhead
      exact hsingle rest' rfl
  | case3 c cs hdouble hquote ih =>
    have hc : c ≠ '\x27' := fun h => hquote h
    rw [List.map_cons, closeString, ih]
    · cases closeString cs <;> rfl
    · exact fun rest h _ => hc ((toUpper_eq_iff (by decide)).mp h)
    · exact fun h => hc ((toUpper_eq_iff (by decide)).mp h)
  | case4 => rfl

theorem closeName_map_toUpper {mark : Char} (hmark : mark.isAlpha = false) (cs : List Char) :
    closeName mark (cs.map Char.toUpper) = (closeName mark cs).map upperParts := by
  fun_induction closeName mark cs with
  | case1 => rfl
  | case2 cs => simp [closeName, toUpper_of_isAlpha_eq_false hmark]
  | case3 c cs hc ih =>
    rw [List.map_cons, closeName, if_neg (by rwa [toUpper_eq_iff hmark]), ih]
    cases closeName mark cs <;> rfl

/-! ## Phrases -/

theorem splitTrivia_map_toUpper (cs : List Char) :
    splitTrivia (cs.map Char.toUpper) = upperParts (splitTrivia cs) := by
  fun_induction splitTrivia cs with
  | case1 ds line more ih =>
    show splitTrivia ('-' :: '-' :: ds.map Char.toUpper) = _
    have hline : (splitLine (ds.map Char.toUpper)).2 = line.2.map Char.toUpper := by
      rw [splitLine_map_toUpper]; rfl
    rw [splitTrivia_line, hline, ih, splitLine_map_toUpper]
    simp [more, line]
  | case2 ds comment after hclose more ih =>
    show splitTrivia ('/' :: '*' :: ds.map Char.toUpper) = _
    have hclose' : closeComment 0 (ds.map Char.toUpper) =
        some (comment.map Char.toUpper, after.map Char.toUpper) := by
      rw [closeComment_map_toUpper, hclose]; rfl
    rw [splitTrivia_block hclose', ih]
    simp [more]
  | case3 ds hclose =>
    show splitTrivia ('/' :: '*' :: ds.map Char.toUpper) = _
    rw [splitTrivia_unclosed (by rw [closeComment_map_toUpper, hclose]; rfl)]
    simp
  | case4 c ds hline hblock hspace more ih =>
    rw [List.map_cons, splitTrivia_cons (not_mark_toUpper (by decide) (by decide) hline)
      (not_mark_toUpper (by decide) (by decide) hblock), isSpace_toUpper, if_pos hspace, ih]
    simp [more]
  | case5 c ds hline hblock hspace =>
    rw [List.map_cons, splitTrivia_cons (not_mark_toUpper (by decide) (by decide) hline)
      (not_mark_toUpper (by decide) (by decide) hblock), isSpace_toUpper, if_neg hspace]
    simp
  | case6 => simp

/-- Spelling tables are looked up in capitals. -/
theorem keyword?_map_toUpper (cs : List Char) :
    Token.keyword? (String.ofList (cs.map Char.toUpper)) = Token.keyword? (String.ofList cs) := by
  simp only [Token.keyword?, upper_ofList_map_toUpper]

theorem ofWord_map_toUpper (cs : List Char) :
    Token.ofWord (String.ofList (cs.map Char.toUpper)) = Token.ofWord (String.ofList cs) := by
  simp only [Token.ofWord, Token.keyword?, Token.aggregate?, upper_ofList_map_toUpper]

theorem fuseAcross?_map_toUpper (head trivia cs : List Char) :
    fuseAcross? (head.map Char.toUpper) (trivia.map Char.toUpper) (cs.map Char.toUpper) =
      (fuseAcross? head trivia cs).map toUpper := by
  cases cs with
  | nil => rfl
  | cons c cs =>
    have hspelling : head.map Char.toUpper ++ ' ' :: (splitName (c :: cs)).1.map Char.toUpper =
        (head ++ ' ' :: (splitName (c :: cs)).1).map Char.toUpper := by simp
    simp only [List.map_cons, fuseAcross?, isNameStart_toUpper]
    rw [← List.map_cons, splitName_map_toUpper, Prod.map_fst, Prod.map_snd, hspelling,
      keyword?_map_toUpper]
    split
    · cases Token.keyword? (String.ofList (head ++ ' ' :: (splitName (c :: cs)).1)) with
      | none => rfl
      | some k => simp [phrase, toUpper]
    · rfl

theorem ofName_map_toUpper (head rest : List Char) :
    ofName (head.map Char.toUpper) (rest.map Char.toUpper) = (ofName head rest).toUpper := by
  have hfuse : fuse? (head.map Char.toUpper) (rest.map Char.toUpper) =
      (fuse? head rest).map toUpper := by
    simp only [fuse?, Token.phraseRemainder?, upper_ofList_map_toUpper, splitTrivia_map_toUpper,
      Prod.map_fst, Prod.map_snd, fuseAcross?_map_toUpper]
    split <;> rfl
  rw [ofName, hfuse, ofWord_map_toUpper, ofName]
  cases fuse? head rest <;> rfl

/-! ## The word a text begins with -/

/-- What a text opens with does not depend on the case of its first two characters. -/
theorem opening_toUpper (c : Char) (next : Option Char) :
    Opening.of c.toUpper (next.map Char.toUpper) = Opening.of c next := by
  have hmark : ∀ {d : Char}, d.isAlpha = false → (c.toUpper = d ↔ c = d) := toUpper_eq_iff
  have hnext : ∀ {d : Char}, d.isAlpha = false →
      (next.map Char.toUpper = some d ↔ next = some d) := by
    intro d hd
    cases next with
    | none => simp
    | some n => simpa using toUpper_eq_iff hd
  have hnational : (c.toUpper = 'N' ∨ c.toUpper = 'n') = (c = 'N' ∨ c = 'n') :=
    congr_toUpper (fun c => c = 'N' ∨ c = 'n') (by decide) c
  have hdigit : (next.map Char.toUpper).any Char.isDigit = next.any Char.isDigit := by
    cases next <;> simp
  unfold Opening.of
  simp only [hnational, hdigit, isNameStart_toUpper, isDigit_toUpper, isSign_toUpper,
    hmark (d := '[') (by decide), hmark (d := '.') (by decide), hmark (d := '-') (by decide),
    hmark (d := '/') (by decide), hmark (d := singleQuote) (by decide),
    hmark (d := doubleQuote) (by decide), hnext (d := singleQuote) (by decide),
    hnext (d := '-') (by decide), hnext (d := '*') (by decide)]

theorem closed_map_toUpper {close : List Char → Option (List Char × List Char)} {cs : List Char}
    (token : Token) (fault : LexicalFault) (front : List Char)
    (h : close (cs.map Char.toUpper) = (close cs).map upperParts) :
    closed token fault (front.map Char.toUpper) (cs.map Char.toUpper) close =
      (closed token fault front cs close).toUpper := by
  unfold closed
  rw [h]
  cases close cs with
  | none => simp
  | some parts => simp

theorem readNumber_toUpper (c : Char) (cs : List Char) :
    readNumber c.toUpper (cs.map Char.toUpper) = (readNumber c cs).toUpper := by
  have hpoint : ∀ text : List Char, numberToken (text.map Char.toUpper) = numberToken text := by
    intro text
    have hmem : '.' ∈ text.map Char.toUpper ↔ '.' ∈ text := by
      simp [toUpper_eq_iff (d := '.') (by decide)]
    simp only [numberToken, List.contains_iff_mem, hmem]
  simp only [readNumber, splitNumber_map_toUpper, Prod.map_fst, Prod.map_snd, toUpper_plain,
    ← List.map_cons, hpoint]

/-- A letter completes no symbol of two characters. -/
theorem ofPair?_eq_none_of_isAlpha {c d : Char} (hd : d.isAlpha = true) :
    Symbol.ofPair? c d = none := by
  unfold Symbol.ofPair?
  split
  case h_5 => rfl
  all_goals exact absurd hd (by decide)

/-- No symbol is made with a letter, so symbols do not see the case of their neighbours. -/
theorem readOperator_map_toUpper {c : Char} (hc : c.isAlpha = false) (cs : List Char) :
    readOperator c (cs.map Char.toUpper) = (readOperator c cs).toUpper := by
  have hchar : ∀ ds : List Char, readChar c (ds.map Char.toUpper) = (readChar c ds).toUpper := by
    intro ds
    unfold readChar
    cases Symbol.ofChar? c <;> simp [toUpper, plain, toUpper_of_isAlpha_eq_false hc]
  cases cs with
  | nil => exact hchar []
  | cons d ds =>
    have hpair : Symbol.ofPair? c d.toUpper = Symbol.ofPair? c d := by
      cases hd : d.isAlpha with
      | false => rw [toUpper_of_isAlpha_eq_false hd]
      | true => rw [ofPair?_eq_none_of_isAlpha hd,
          ofPair?_eq_none_of_isAlpha ((isAlpha_toUpper d).trans hd)]
    simp only [List.map_cons, readOperator, hpair]
    cases Symbol.ofPair? c d with
    | none => exact hchar (d :: ds)
    | some s => simp [toUpper_of_isAlpha_eq_false hc]

/-- Only what is no letter is read as a symbol. -/
theorem isAlpha_of_opening_operator {c : Char} {next : Option Char}
    (h : Opening.of c next = .operator) : c.isAlpha = false := by
  cases hc : c.isAlpha with
  | false => rfl
  | true =>
    unfold Opening.of at h
    simp only [isNameStart_of_isAlpha hc, if_true] at h
    split at h
    · cases h
    · split at h
      · cases h
      · split at h <;> cases h

/-- The marks that close a name are no letters. -/
theorem isAlpha_of_opening_delimited {c mark : Char} {next : Option Char}
    (h : Opening.of c next = .delimited mark) : mark.isAlpha = false := by
  unfold Opening.of at h
  split at h
  · cases h
  split at h
  · cases h
    rfl
  split at h
  · cases h
    rfl
  -- Behind the two opening marks no kind of word is a name with marks around it.
  iterate 6
    split at h
    · cases h
  cases h

/-- **Reading commutes with upper-casing**: the same word is read, in capitals. -/
theorem read_toUpper (c : Char) (cs : List Char) :
    read c.toUpper (cs.map Char.toUpper) = (read c cs).toUpper := by
  have hopening := opening_toUpper c cs.head?
  rw [← List.head?_map] at hopening
  have hfront : c.toUpper :: (cs.map Char.toUpper).take 1 = (c :: cs.take 1).map Char.toUpper := by
    rw [List.map_cons, List.map_take]
  unfold read
  rw [hopening]
  cases ho : Opening.of c cs.head? with
  | nationalString =>
    simp only [hfront, ← List.map_drop]
    exact closed_map_toUpper _ _ _ (closeString_map_toUpper _)
  | string => exact closed_map_toUpper _ _ [c] (closeString_map_toUpper cs)
  | delimited mark =>
    exact closed_map_toUpper _ _ [c]
      (closeName_map_toUpper (isAlpha_of_opening_delimited ho) cs)
  | name =>
    simp only [splitName_map_toUpper, Prod.map_fst, Prod.map_snd, ← List.map_cons,
      ofName_map_toUpper]
  | number => exact readNumber_toUpper c cs
  | lineComment => simp [readLine, splitLine_map_toUpper]
  | blockComment =>
    simp only [hfront, ← List.map_drop]
    exact closed_map_toUpper _ _ _ (closeComment_map_toUpper 0 _)
  | operator =>
    have hc := isAlpha_of_opening_operator ho
    simp only [toUpper_of_isAlpha_eq_false hc, readOperator_map_toUpper hc]

end SqlScript.Lexeme
