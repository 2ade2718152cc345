import SqlScript.Proofs.Lexeme.Literal

/-!
# Proofs/Lexeme/Ending — a word ends where it ends, whatever stands behind it

    word ++ rest   ──rest exchanged for rest'──▸   word ++ rest'

A word is read up to its end and at most one character further, except that a name which can open a
phrase looks across white space and comments for the name that completes it (`nameBehind`).  So the
text behind a word can be exchanged for another one (`Lexeme.Allows`): it must show the same
character in front, or white space, and the same name behind its trivia.  The word read is then the
same word (`read_exchange`).
-/

namespace SqlScript

/-- The end of the text came before the end of the word. -/
def LexicalFault.isUnterminated : LexicalFault → Bool
  | unterminatedString | unterminatedComment | unterminatedIdentifier => true
  | illegalCharacter _ => false

namespace Lexeme

/-! ## The character behind a word -/

/-- `rest'` opens as `rest` does, or with white space. -/
def Opens (rest rest' : List Char) : Prop :=
  rest'.head? = rest.head? ∨ ∃ b, rest'.head? = some b ∧ isSpace b = true

/-- What `rest` does not open with, `rest'` does not open with either, white space apart. -/
theorem Opens.any_eq_false {rest rest' : List Char} (h : Opens rest rest') {p : Char → Bool}
    (hspace : ∀ b, isSpace b = true → p b = false) (hrest : rest.head?.any p = false) :
    rest'.head?.any p = false := by
  rcases h with h | ⟨b, h, hb⟩
  · rw [h, hrest]
  · rw [h]
    exact hspace b hb

/-- White space is one of four characters. -/
theorem eq_of_isSpace {b : Char} (h : isSpace b = true) :
    b = ' ' ∨ b = '\t' ∨ b = '\n' ∨ b = '\r' := by
  simpa [isSpace, or_assoc] using h

theorem isNameChar_of_isSpace (b : Char) (h : isSpace b = true) : isNameChar b = false := by
  rcases eq_of_isSpace h with rfl | rfl | rfl | rfl <;> decide

theorem takeWhile_of_any_eq_false {p : Char → Bool} {cs : List Char}
    (h : cs.head?.any p = false) : cs.takeWhile p = [] := by
  cases cs with
  | nil => rfl
  | cons c cs => exact List.takeWhile_cons_of_neg (by simpa using h)

theorem dropWhile_of_any_eq_false {p : Char → Bool} {cs : List Char}
    (h : cs.head?.any p = false) : cs.dropWhile p = cs := by
  cases cs with
  | nil => rfl
  | cons c cs => exact List.dropWhile_cons_of_neg (by simpa using h)

theorem any_head?_dropWhile (p : Char → Bool) (cs : List Char) :
    (cs.dropWhile p).head?.any p = false := by
  have h := List.head?_dropWhile_not p cs
  cases hd : (cs.dropWhile p).head? with
  | none => rfl
  | some d => simpa [hd] using h

/-- **A stretch cut at the first character that fails `p` is cut there again**, whatever else fails
`p` behind it. -/
theorem takeWhile_exchange {p : Char → Bool} (cs : List Char) {rest' : List Char}
    (h : rest'.head?.any p = false) : (cs.takeWhile p ++ rest').takeWhile p = cs.takeWhile p := by
  rw [List.takeWhile_append_of_pos fun c hc => List.all_eq_true.mp List.all_takeWhile c hc,
    takeWhile_of_any_eq_false h, List.append_nil]

theorem dropWhile_exchange {p : Char → Bool} (cs : List Char) {rest' : List Char}
    (h : rest'.head?.any p = false) : (cs.takeWhile p ++ rest').dropWhile p = rest' := by
  rw [List.dropWhile_append_of_pos fun c hc => List.all_eq_true.mp List.all_takeWhile c hc,
    dropWhile_of_any_eq_false h]

/-! ## Parts of words -/

theorem splitName_exchange (cs : List Char) {rest' : List Char}
    (h : rest'.head?.any isNameChar = false) :
    splitName ((splitName cs).1 ++ rest') = ((splitName cs).1, rest') := by
  rw [splitName, splitName, takeWhile_exchange cs h, dropWhile_exchange cs h]

theorem splitLine_exchange (cs : List Char) {rest' : List Char}
    (h : rest'.head?.any (!isLineBreak ·) = false) :
    splitLine ((splitLine cs).1 ++ rest') = ((splitLine cs).1, rest') := by
  rw [splitLine, splitLine, takeWhile_exchange cs h, dropWhile_exchange cs h]

/-- A number goes on through digits, points, exponent marks and, where `signed` says so, a sign. -/
def continuesNumber (signed : Bool) (c : Char) : Bool :=
  c.isDigit || c = '.' || isExponentMark c || (signed && isSign c)

theorem splitNumber_of_any_eq_false {signed : Bool} {cs : List Char}
    (h : cs.head?.any (continuesNumber signed) = false) : splitNumber signed cs = ([], cs) := by
  cases cs with
  | nil => rfl
  | cons c cs =>
    rw [splitNumber, if_neg]
    simpa [continuesNumber] using h

theorem splitNumber_exchange {signed : Bool} {cs rest' : List Char}
    (h : Opens (splitNumber signed cs).2 rest') :
    splitNumber signed ((splitNumber signed cs).1 ++ rest') =
      ((splitNumber signed cs).1, rest') := by
  -- what does not continue the number does not continue it in `rest'`
  have hstop : ∀ {signed} {ds : List Char}, ds.head?.any (continuesNumber signed) = false →
      Opens ds rest' → splitNumber signed ([] ++ rest') = ([], rest') := by
    intro signed ds hds hopens
    refine splitNumber_of_any_eq_false (hopens.any_eq_false (fun b hb => ?_) hds)
    rcases eq_of_isSpace hb with rfl | rfl | rfl | rfl <;> cases signed <;> decide
  fun_induction splitNumber signed cs with
  | case1 signed => exact hstop (by rfl) h
  | case2 signed c cs hc more ih =>
    rw [List.cons_append, splitNumber, if_pos hc, ih h]
  | case3 signed c cs hc => exact hstop (by simpa [continuesNumber] using hc) h

/-- **A string that is closed is closed there again** if no quote stands behind it. -/
theorem closeString_exchange {cs as bs rest' : List Char} (h : closeString cs = some (as, bs))
    (hopens : Opens bs rest') : closeString (as ++ rest') = some (as, rest') := by
  fun_induction closeString cs generalizing as bs with
  | case1 cs ih =>
    obtain ⟨⟨as', bs'⟩, hclose, heq⟩ := Option.map_eq_some_iff.mp h
    cases heq
    rw [List.cons_append, List.cons_append, closeString, ih hclose hopens]
    rfl
  | case2 cs hquote =>
    cases h
    have hcs : cs.head?.any (· = '\x27') = false := by
      cases cs with
      | nil => rfl
      | cons d ds => simpa using fun hd : d = '\x27' => hquote ds (by rw [hd])
    have hbehind : rest'.head?.any (· = '\x27') = false := by
      refine hopens.any_eq_false (fun b hb => ?_) hcs
      rcases eq_of_isSpace hb with rfl | rfl | rfl | rfl <;> rfl
    rw [List.singleton_append, closeString]
    rintro ds rfl
    simp at hbehind
  | case3 c cs _ hc ih =>
    obtain ⟨⟨as', bs'⟩, hclose, heq⟩ := Option.map_eq_some_iff.mp h
    cases heq
    rw [List.cons_append, closeString, ih hclose hopens]
    · rfl
    · exact fun _ hquote _ => hc hquote
    · exact hc
  | case4 => exact absurd h (by simp)

theorem closeName_exchange {mark : Char} {cs as bs : List Char}
    (h : closeName mark cs = some (as, bs)) (rest' : List Char) :
    closeName mark (as ++ rest') = some (as, rest') := by
  fun_induction closeName mark cs generalizing as bs with
  | case1 => exact absurd h (by simp)
  | case2 cs =>
    cases h
    rw [List.singleton_append, closeName, if_pos rfl]
  | case3 c cs hmark ih =>
    obtain ⟨⟨as', bs'⟩, hclose, heq⟩ := Option.map_eq_some_iff.mp h
    cases heq
    rw [List.cons_append, closeName, if_neg hmark, ih hclose]
    rfl

theorem closeComment_exchange {depth : Nat} {cs as bs : List Char}
    (h : closeComment depth cs = some (as, bs)) (rest' : List Char) :
    closeComment depth (as ++ rest') = some (as, rest') := by
  fun_induction closeComment depth cs generalizing as bs with
  | case1 depth cs ih | case3 depth cs ih =>
    obtain ⟨⟨as', bs'⟩, hclose, heq⟩ := Option.map_eq_some_iff.mp h
    cases heq
    rw [List.cons_append, List.cons_append, closeComment, ih hclose]
    rfl
  | case2 cs =>
    cases h
    rfl
  | case4 depth c cs hopen hzero hsucc ih =>
    obtain ⟨⟨as', bs'⟩, hclose, heq⟩ := Option.map_eq_some_iff.mp h
    cases heq
    -- the character next to `c` is part of the comment
    obtain ⟨hne, rfl⟩ := append_of_closeComment hclose
    have hhead : (as' ++ rest').head? = (as' ++ bs').head? := by
      cases as' with
      | nil => exact absurd rfl hne
      | cons a as' => rfl
    rw [List.cons_append, closeComment_cons, ih hclose]
    · rfl
    · rw [hhead]
      exact not_mark hopen
    · rw [hhead]
      exact not_mark (not_closeMark hzero hsucc)
  | case5 => exact absurd h (by simp)

/-- **Trivia in front of a name is cut off there again**, whatever follows the first character of
the name. -/
theorem splitTrivia_exchange {cs ds : List Char} {d : Char} (h : (splitTrivia cs).2 = d :: ds)
    (hd : isNameStart d = true) (ds' : List Char) :
    splitTrivia ((splitTrivia cs).1 ++ d :: ds') = ((splitTrivia cs).1, d :: ds') := by
  fun_induction splitTrivia cs with
  | case1 cs line more ih =>
    -- behind the line the trivia goes on with the character it went on with
    have hhead : (more.1 ++ d :: ds').head? = line.2.head? := by
      rw [← splitTrivia_append line.2, show (splitTrivia line.2).2 = d :: ds from h]
      simp [more]
    have hline : splitLine (line.1 ++ (more.1 ++ d :: ds')) = (line.1, more.1 ++ d :: ds') :=
      splitLine_exchange cs (by rw [hhead]; exact any_head?_dropWhile _ cs)
    simp only [List.cons_append, List.append_assoc, splitTrivia_line, hline]
    rw [ih h]
  | case2 cs comment after hclose more ih =>
    simp only [List.cons_append, List.append_assoc]
    rw [splitTrivia_block (closeComment_exchange hclose _), ih h]
    rfl
  | case3 cs hclose => exact absurd h (by simp)
  | case4 c cs hline hblock hspace more ih =>
    rw [List.cons_append, splitTrivia_cons, if_pos hspace, ih h]
    · rintro ⟨rfl, -⟩
      exact absurd hspace (by decide)
    · rintro ⟨rfl, -⟩
      exact absurd hspace (by decide)
  | case5 c cs hline hblock hspace =>
    cases h
    rw [List.nil_append, splitTrivia_cons, if_neg hspace]
    · rintro ⟨rfl, -⟩
      exact absurd hd (by decide)
    · rintro ⟨rfl, -⟩
      exact absurd hd (by decide)
  | case6 => exact absurd h (by simp)

/-! ## The name behind the trivia -/

/-- The name a text opens with; nothing if it does not open with one. -/
def frontName (cs : List Char) : List Char :=
  if cs.head?.any isNameStart then (splitName cs).1 else []

/-- The name behind the white space and the comments in front of a text. -/
def nameBehind (cs : List Char) : List Char := frontName (splitTrivia cs).2

/-- The keyword that `head` and the name behind it spell. -/
def phrase? (head name : List Char) : Option Keyword :=
  if (Token.phraseRemainder? (String.ofList head)).isSome ∧ name ≠ [] then
    Token.keyword? (String.ofList (head ++ ' ' :: name))
  else none

/-- **Whether a phrase is made is up to its head and the name behind the trivia.** -/
theorem fuse?_eq (head rest : List Char) :
    fuse? head rest = (phrase? head (nameBehind rest)).map fun k =>
      phrase k head (splitTrivia rest).1 (nameBehind rest) (splitName (splitTrivia rest).2).2 := by
  rw [fuse?, phrase?, nameBehind]
  cases (splitTrivia rest).2 with
  | nil => simp [fuseAcross?, frontName]
  | cons c cs =>
    by_cases hc : isNameStart c = true
    · have hname : (splitName (c :: cs)).1 ≠ [] := by
        rw [splitName, List.takeWhile_cons_of_pos (isNameChar_of_isNameStart hc)]
        exact List.cons_ne_nil _ _
      by_cases hhead : (Token.phraseRemainder? (String.ofList head)).isSome = true
      · simp [fuseAcross?, frontName, hc, hhead, hname]
      · simp [hhead]
    · simp [fuseAcross?, frontName, hc]

/-- A text that opens with no letter opens with no name. -/
theorem frontName_eq_nil {cs : List Char} (h : cs.head?.any isNameStart = false) :
    frontName cs = [] := by
  rw [frontName, h]
  rfl

/-! ## Exchanging what stands behind a word -/

/-- A word that takes up all of the text because its end was not found. -/
def isUnclosed (l : Lexeme) : Bool := l.fault.any LexicalFault.isUnterminated

/-- The word with another text behind it. -/
def followedBy (l : Lexeme) (rest : List Char) : Lexeme := { l with rest }

/-- **`rest'` can stand behind a word in place of what stands there.** -/
structure Allows (l : Lexeme) (rest' : List Char) : Prop where
  /-- It opens as the rest does, or with white space, which must end the line behind a comment. -/
  opens : rest'.head? = l.rest.head? ∨
    ∃ b, rest'.head? = some b ∧ isSpace b = true ∧ (l.token = .comment → isLineBreak b = true)
  /-- The same name follows its trivia. -/
  name : nameBehind rest' = nameBehind l.rest
  /-- Behind a word that is not closed there is nothing to exchange. -/
  unclosed : l.isUnclosed = true → rest' = l.rest

theorem Allows.opens_rest {l : Lexeme} {rest' : List Char} (h : l.Allows rest') :
    Opens l.rest rest' :=
  h.opens.imp_right fun ⟨b, hb, hspace, _⟩ => ⟨b, hb, hspace⟩

/-! ### The kind of word -/

/-- What a character opens when white space stands behind it, it opens alone. -/
theorem opening_of_isSpace {b : Char} (hb : isSpace b = true) (c : Char) :
    Opening.of c (some b) = Opening.of c none := by
  rcases eq_of_isSpace hb with rfl | rfl | rfl | rfl <;> simp [Opening.of, Text.singleQuote]

/-- The character behind the first matters for four kinds of words only, and is part of them. -/
theorem opening_eq_none_or (c : Char) (next : Option Char) :
    Opening.of c next = Opening.of c none ∨
      Opening.of c next = .nationalString ∧ next = some Text.singleQuote ∨
      Opening.of c next = .number ∧ next.any Char.isDigit = true ∨
      Opening.of c next = .lineComment ∧ next = some '-' ∨
      Opening.of c next = .blockComment ∧ next = some '*' := by
  grind [Opening.of]

/-- A word that opens with two marks has the second of them. -/
theorem exists_cons_of_opening {c : Char} {cs : List Char}
    (h : Opening.of c cs.head? = .nationalString ∨ Opening.of c cs.head? = .blockComment) :
    ∃ d ds, cs = d :: ds := by
  cases cs with
  | nil => grind [Opening.of]
  | cons d ds => exact ⟨d, ds, rfl⟩

theorem exists_text_closed (token : Token) (fault : LexicalFault) (front cs : List Char)
    (close : List Char → Option (List Char × List Char)) :
    ∃ body, (closed token fault front cs close).text = front ++ body := by
  unfold closed
  split
  · next body rest _ => exact ⟨body, rfl⟩
  · exact ⟨cs, rfl⟩

/-- A word of one character is of the kind that its character opens alone. -/
theorem opening_of_text_eq_singleton {c : Char} {cs : List Char} (h : (read c cs).text = [c]) :
    Opening.of c cs.head? = Opening.of c none := by
  have hclosed : ∀ {d ds token fault close}, (closed token fault [c, d] ds close).text ≠ [c] := by
    intro d ds token fault close
    obtain ⟨body, hbody⟩ := exists_text_closed token fault [c, d] ds close
    simp [hbody]
  rcases opening_eq_none_or c cs.head? with hnone | hkind
  · exact hnone
  -- for the other kinds the second character is part of the word
  cases cs with
  | nil => simp at hkind
  | cons d ds =>
    simp only [List.head?_cons, Option.some.injEq, Option.any_some] at hkind
    simp only [read, List.head?_cons] at h
    rcases hkind with ⟨hkind, -⟩ | ⟨hkind, hdigit⟩ | ⟨hkind, hdash⟩ | ⟨hkind, -⟩ <;>
      simp only [hkind] at h
    · exact absurd h hclosed
    · simp [readNumber, splitNumber, hdigit] at h
    · simp [readLine, splitLine, hdash, isLineBreak] at h
    · exact absurd h hclosed

theorem text_read_eq_cons (c : Char) (cs : List Char) :
    ∃ front, (read c cs).text = c :: front ∧ front ++ (read c cs).rest = cs := by
  obtain ⟨hne, happ⟩ := read_divides c cs
  cases htext : (read c cs).text with
  | nil => exact absurd htext hne
  | cons d front =>
    rw [htext, List.cons_append] at happ
    obtain ⟨rfl, hrest⟩ := List.cons.inj happ
    exact ⟨front, rfl, hrest⟩

/-- **The kind of a word does not depend on what stands behind it.** -/
theorem opening_exchange {c : Char} {cs rest' : List Char} (h : Opens (read c cs).rest rest') :
    Opening.of c ((read c cs).text.tail ++ rest').head? = Opening.of c cs.head? := by
  obtain ⟨front, htext, happ⟩ := text_read_eq_cons c cs
  rw [htext, List.tail_cons]
  cases front with
  | cons d front =>
    rw [← happ, List.cons_append, List.head?_cons, List.cons_append, List.head?_cons]
  | nil =>
    rw [List.nil_append] at happ ⊢
    rw [happ] at h
    rcases h with hsame | ⟨b, hb, hspace⟩
    · rw [hsame]
    · rw [hb, opening_of_isSpace hspace, opening_of_text_eq_singleton htext]

/-! ### The word -/

theorem closed_exchange {token : Token} {fault : LexicalFault} {front cs rest' : List Char}
    {close : List Char → Option (List Char × List Char)}
    (hfault : (unclosed fault (front ++ cs)).isUnclosed = true)
    (hclosed : (closed token fault front cs close).isUnclosed = false)
    (hopens : Opens (closed token fault front cs close).rest rest')
    (hclose : ∀ {as bs}, close cs = some (as, bs) → Opens bs rest' →
      close (as ++ rest') = some (as, rest')) :
    ∃ body, (closed token fault front cs close).text = front ++ body ∧
      closed token fault front (body ++ rest') close =
        (closed token fault front cs close).followedBy rest' := by
  cases hcs : close cs with
  | none =>
    simp only [closed, hcs, hfault] at hclosed
    cases hclosed
  | some parts =>
    obtain ⟨body, rest⟩ := parts
    simp only [closed, hcs, rest_plain] at hopens
    exact ⟨body, by simp [closed, hcs], by simp only [closed, hcs, hclose hcs hopens]; rfl⟩

/-- **A phrase is made again** in front of another text. -/
theorem fuse?_exchange {head rest rest' : List Char} {l : Lexeme} (h : fuse? head rest = some l)
    (hopens : Opens l.rest rest') :
    ∃ more, l.text = head ++ more ∧ more ≠ [] ∧ more ++ l.rest = rest ∧
      fuse? head (more ++ rest') = some (l.followedBy rest') := by
  obtain ⟨c, cs, k, htrivia, hc, hk, rfl⟩ := exists_of_fuse? h
  have hhead : (Token.phraseRemainder? (String.ofList head)).isSome = true := by
    refine Decidable.byContradiction fun hhead => ?_
    rw [fuse?, if_neg hhead] at h
    cases h
  -- the name behind the trivia opens with `c` and ends in front of `rest'`
  have hname : (splitName (c :: cs)).1 = c :: (splitName cs).1 :=
    List.takeWhile_cons_of_pos (isNameChar_of_isNameStart hc)
  have hbehind : rest'.head?.any isNameChar = false :=
    hopens.any_eq_false isNameChar_of_isSpace (any_head?_dropWhile _ _)
  have hagain := splitTrivia_exchange htrivia hc ((splitName cs).1 ++ rest')
  rw [← List.cons_append, ← hname] at hagain
  refine ⟨(splitTrivia rest).1 ++ (splitName (c :: cs)).1, List.append_assoc _ _ _,
    by simp [hname], ?_, ?_⟩
  · rw [List.append_assoc]
    show _ ++ ((splitName (c :: cs)).1 ++ (splitName (c :: cs)).2) = rest
    rw [splitName_append, ← htrivia, splitTrivia_append]
  · rw [List.append_assoc, fuse?, if_pos hhead, hagain]
    rw [hname, List.cons_append, fuseAcross?, if_pos hc, ← List.cons_append, ← hname,
      splitName_exchange (c :: cs) hbehind, hk]
    rfl

/-- **A name, or the phrase it opens, is read again** in front of another text. -/
theorem ofName_exchange {head rest rest' : List Char} (hend : rest.head?.any isNameChar = false)
    (hopens : Opens (ofName head rest).rest rest')
    (hname : nameBehind rest' = nameBehind (ofName head rest).rest) :
    ∃ more, (ofName head rest).text = head ++ more ∧
      (more ++ rest').head?.any isNameChar = false ∧
      ofName head (more ++ rest') = (ofName head rest).followedBy rest' := by
  cases hfuse : fuse? head rest with
  | none =>
    have hword : ofName head rest = plain (Token.ofWord (String.ofList head)) head rest := by
      rw [ofName, hfuse]
      rfl
    rw [hword, rest_plain] at hopens hname
    have hfuse' : fuse? head rest' = none := by
      rw [fuse?_eq, Option.map_eq_none_iff] at hfuse ⊢
      rw [hname]
      exact hfuse
    refine ⟨[], by simp [hword], hopens.any_eq_false isNameChar_of_isSpace hend, ?_⟩
    rw [List.nil_append, ofName, hfuse', hword]
    rfl
  | some l =>
    have hword : ofName head rest = l := by rw [ofName, hfuse]; rfl
    rw [hword] at hopens ⊢
    obtain ⟨more, htext, hne, happ, hfuse'⟩ := fuse?_exchange hfuse hopens
    refine ⟨more, htext, ?_, by rw [ofName, hfuse']; rfl⟩
    cases more with
    | nil => exact absurd rfl hne
    | cons d more =>
      rw [← happ] at hend
      exact hend

theorem readChar_eq (c : Char) (cs : List Char) :
    (readChar c cs).text = [c] ∧ (readChar c cs).rest = cs ∧
      ∀ rest', readChar c rest' = (readChar c cs).followedBy rest' := by
  unfold readChar
  split <;> exact ⟨rfl, rfl, fun _ => rfl⟩

theorem ofPair?_of_isSpace (c b : Char) (h : isSpace b = true) : Symbol.ofPair? c b = none := by
  rcases eq_of_isSpace h with rfl | rfl | rfl | rfl <;> simp [Symbol.ofPair?]

/-- A character that makes no pair with the next one stands alone. -/
theorem readOperator_eq_readChar {c : Char} {cs : List Char}
    (h : cs.head?.any (fun d => (Symbol.ofPair? c d).isSome) = false) :
    readOperator c cs = readChar c cs := by
  cases cs with
  | nil => rfl
  | cons d ds =>
    have hnone : Symbol.ofPair? c d = none := by simpa using h
    rw [readOperator, hnone]

theorem readOperator_exchange {c : Char} {cs rest' : List Char}
    (hopens : Opens (readOperator c cs).rest rest') :
    ∃ more, (readOperator c cs).text = c :: more ∧
      readOperator c (more ++ rest') = (readOperator c cs).followedBy rest' := by
  cases hpair : cs.head?.any fun d => (Symbol.ofPair? c d).isSome with
  | false =>
    obtain ⟨htext, hrest, hfollowed⟩ := readChar_eq c cs
    rw [readOperator_eq_readChar hpair] at hopens ⊢
    rw [hrest] at hopens
    have hpair' := hopens.any_eq_false (fun b hb => by rw [ofPair?_of_isSpace c b hb]; rfl) hpair
    exact ⟨[], htext, by rw [List.nil_append, readOperator_eq_readChar hpair', hfollowed]⟩
  | true =>
    cases cs with
    | nil => cases hpair
    | cons d ds =>
      have hsome : (Symbol.ofPair? c d).isSome = true := hpair
      obtain ⟨s, hs⟩ := Option.isSome_iff_exists.mp hsome
      refine ⟨[d], by rw [readOperator, hs]; rfl, ?_⟩
      rw [List.singleton_append, readOperator, hs, readOperator, hs]
      rfl

/-- Behind its first character a closed word is read again as its kind says. -/
theorem exists_read_exchange {c : Char} {cs rest' : List Char} (h : (read c cs).Allows rest')
    (hclosed : (read c cs).isUnclosed = false) :
    ∃ more, (read c cs).text = c :: more ∧
      (Opening.of c (more ++ rest').head? = Opening.of c cs.head? →
        read c (more ++ rest') = (read c cs).followedBy rest') := by
  have hopens := h.opens_rest
  obtain ⟨hline, hname, -⟩ := h
  cases hopen : Opening.of c cs.head? with
  | nationalString =>
    obtain ⟨d, ds, rfl⟩ := exists_cons_of_opening (.inl hopen)
    simp only [read, hopen] at hopens hclosed ⊢
    obtain ⟨body, htext, hword⟩ := closed_exchange rfl hclosed hopens closeString_exchange
    exact ⟨d :: body, htext, fun hkind => by rw [hkind]; exact hword⟩
  | string =>
    simp only [read, hopen] at hopens hclosed ⊢
    obtain ⟨body, htext, hword⟩ := closed_exchange rfl hclosed hopens closeString_exchange
    exact ⟨body, htext, fun hkind => by rw [hkind]; exact hword⟩
  | delimited mark =>
    simp only [read, hopen] at hopens hclosed ⊢
    obtain ⟨body, htext, hword⟩ :=
      closed_exchange rfl hclosed hopens fun h _ => closeName_exchange h rest'
    exact ⟨body, htext, fun hkind => by rw [hkind]; exact hword⟩
  | name =>
    simp only [read, hopen] at hopens hname ⊢
    have hend : (splitName cs).2.head?.any isNameChar = false := any_head?_dropWhile _ cs
    obtain ⟨more, htext, hend', hword⟩ := ofName_exchange hend hopens hname
    refine ⟨(splitName cs).1 ++ more, htext, fun hkind => ?_⟩
    rw [hkind, List.append_assoc, splitName_exchange cs hend']
    exact hword
  | number =>
    simp only [read, hopen] at hopens ⊢
    refine ⟨(splitNumber false cs).1, rfl, fun hkind => ?_⟩
    rw [hkind]
    simp only [readNumber]
    rw [splitNumber_exchange hopens]
    rfl
  | lineComment =>
    simp only [read, hopen] at hline ⊢
    refine ⟨(splitLine cs).1, rfl, fun hkind => ?_⟩
    have hbreak : rest'.head?.any (!isLineBreak ·) = false := by
      rcases hline with hsame | ⟨b, hb, -, hbreak⟩
      · rw [hsame]
        exact any_head?_dropWhile _ cs
      · simp [hb, hbreak rfl]
    rw [hkind]
    simp only [readLine]
    rw [splitLine_exchange cs hbreak]
    rfl
  | blockComment =>
    obtain ⟨d, ds, rfl⟩ := exists_cons_of_opening (.inr hopen)
    simp only [read, hopen] at hopens hclosed ⊢
    obtain ⟨body, htext, hword⟩ :=
      closed_exchange rfl hclosed hopens fun h _ => closeComment_exchange h rest'
    exact ⟨d :: body, htext, fun hkind => by rw [hkind]; exact hword⟩
  | operator =>
    simp only [read, hopen] at hopens ⊢
    obtain ⟨more, htext, hword⟩ := readOperator_exchange hopens
    exact ⟨more, htext, fun hkind => by rw [hkind]; exact hword⟩

/-- **A word does not depend on the text behind it**: in front of any text that it allows the same
word is read. -/
theorem read_exchange {c : Char} {cs rest' : List Char} (h : (read c cs).Allows rest') :
    read c ((read c cs).text.tail ++ rest') = (read c cs).followedBy rest' := by
  cases hclosed : (read c cs).isUnclosed with
  | true =>
    obtain ⟨front, htext, happ⟩ := text_read_eq_cons c cs
    rw [h.unclosed hclosed, htext, List.tail_cons, happ]
    rfl
  | false =>
    have hkind := opening_exchange h.opens_rest
    obtain ⟨more, htext, hagain⟩ := exists_read_exchange h hclosed
    rw [htext, List.tail_cons] at hkind ⊢
    exact hagain hkind

end Lexeme

end SqlScript
