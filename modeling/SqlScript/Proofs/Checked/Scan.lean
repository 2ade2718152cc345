import SqlScript.Proofs.Checked.Cursor
import SqlScript.Script.Basic

/-!
# Proofs/Checked/Scan — reading words by byte offsets

    pos ── white space ──▸ start ── read? ──▸ stop

The reader of words as it moves over bytes: from the offset where a word starts it finds the offset
where the word stops, and cuts the literal out of the text between the two.  As for the loops below
it, `none` stands for a bad cut or a loop without end.

There is no such failure: the reader gives the words that reading characters gives (`read?_eq`,
`step?_eq`), to the end of the text (`scan?_eq`), and each word but the end moves it on
(`lt_of_step?`).
-/

namespace SqlScript.Checked

open SqlScript.Text SqlScript.Lexeme

/-! ## Words between two offsets -/

/-- A lexeme at byte `start` as a word, with the offset behind it. -/
def placed (start : Nat) (l : Lexeme) : Scanned × Nat :=
  (⟨Reader.wordAt start l, l.fault⟩, start + width l.text)

/-- The word between two offsets, spelled as its text. -/
def word? (source : List Char) (token : Token) (fault : Option LexicalFault)
    (start stop : Nat) : Option (Scanned × Nat) := do
  let text ← slice? source start stop
  return (⟨⟨token, String.ofList text, ⟨start, stop⟩⟩, fault⟩, stop)

/-- The word that stops where it is closed, or takes up the text because it is not. -/
def closed? (source : List Char) (token : Token) (fault : LexicalFault) (start : Nat) :
    (stop : Option Nat) → Option (Scanned × Nat)
  | some stop => word? source token none start stop
  | none => word? source .illegal (some fault) start (width source)

section

variable {source cs text rest : List Char} {start : Nat} {c : Char}

theorem word?_eq (h : At source start (text ++ rest)) (token : Token)
    (fault : Option LexicalFault) :
    word? source token fault start (start + width text) =
      some (placed start ⟨token, text, text, rest, fault⟩) := by
  rw [word?, h.slice?_eq]
  rfl

theorem closed?_eq {front : List Char} (h : At source start (front ++ cs)) (token : Token)
    (fault : LexicalFault) {close : List Char → Option (List Char × List Char)}
    (happ : ∀ {as bs}, close cs = some (as, bs) → as ++ bs = cs) :
    closed? source token fault start ((close cs).map fun p => start + width front + width p.1) =
      some (placed start (closed token fault front cs close)) := by
  unfold closed
  cases hclose : close cs with
  | none =>
    have hall : At source start ((front ++ cs) ++ []) := by rwa [List.append_nil]
    have hstop := word?_eq hall .illegal (some fault)
    rwa [h.add_width] at hstop
  | some parts =>
    obtain ⟨body, rest⟩ := parts
    have hbody : At source start ((front ++ body) ++ rest) := by
      rwa [List.append_assoc, happ hclose]
    refine Eq.trans ?_ (word?_eq hbody token none)
    rw [width_append, ← Nat.add_assoc]
    rfl

/-! ## Names and phrases -/

/-- The phrase that `head` makes with the name behind the trivia at `pos`, if the two spell a
keyword. -/
def phrase? (source head : List Char) (start pos : Nat) : Option (Option (Scanned × Nat)) := do
  let first ← passTrivia? source pos
  match ← peek? source first with
  | some c =>
    if isNameStart c then
      let stop ← passWhile? source isNameChar first
      let name ← slice? source first stop
      let literal := String.ofList (head ++ ' ' :: name)
      return (Token.keyword? literal).map fun k =>
        (⟨⟨.keyword k, literal, ⟨start, stop⟩⟩, none⟩, stop)
    else return none
  | none => return none

/-- The keyword or name at an offset. -/
def name? (source : List Char) (start : Nat) : Option (Scanned × Nat) := do
  let stop ← passWhile? source isNameChar start
  let head ← slice? source start stop
  let fused ← if (Token.phraseRemainder? (String.ofList head)).isSome
    then phrase? source head start stop else some none
  match fused with
  | some found => return found
  | none => word? source (Token.ofWord (String.ofList head)) none start stop

theorem phrase?_eq {head rest : List Char} (h : At source start (head ++ rest)) :
    phrase? source head start (start + width head) =
      some ((fuseAcross? head (splitTrivia rest).1 (splitTrivia rest).2).map (placed start)) := by
  have htrivia : At source (start + width head + width (splitTrivia rest).1)
      (splitTrivia rest).2 := by
    refine At.append ?_
    rw [splitTrivia_append]
    exact h.append
  rw [phrase?, passTrivia?_eq h.append]
  simp only [Option.bind_eq_bind, Option.bind_some, htrivia.peek?_eq]
  generalize (splitTrivia rest).1 = trivia at htrivia ⊢
  cases hafter : (splitTrivia rest).2 with
  | nil => rfl
  | cons c cs =>
    rw [hafter] at htrivia
    rw [fuseAcross?]
    by_cases hc : isNameStart c = true
    · have hname : At source (start + width head + width trivia)
          ((splitName (c :: cs)).1 ++ (splitName (c :: cs)).2) := by rwa [splitName_append]
      have hpass : passWhile? source isNameChar (start + width head + width trivia) =
          some (start + width head + width trivia + width (splitName (c :: cs)).1) :=
        passWhile?_eq htrivia isNameChar
      simp only [List.head?_cons, if_pos hc, hpass, Option.bind_some, hname.slice?_eq,
        Option.map_map, Option.pure_def, Function.comp_def, placed, Reader.wordAt, phrase,
        width_append, ← Nat.add_assoc]
    · rw [if_neg hc]
      exact if_neg hc

theorem name?_eq (h : At source start (c :: cs)) (hc : isNameStart c = true) :
    name? source start = some (placed start (ofName (c :: (splitName cs).1) (splitName cs).2)) := by
  have hhead : At source start ((c :: (splitName cs).1) ++ (splitName cs).2) := by
    rwa [List.cons_append, splitName_append]
  have hpass : passWhile? source isNameChar start =
      some (start + width (c :: (splitName cs).1)) := by
    rw [passWhile?_eq h, List.takeWhile_cons_of_pos (isNameChar_of_isNameStart hc)]
    rfl
  rw [name?, hpass]
  simp only [Option.bind_eq_bind, Option.bind_some, hhead.slice?_eq]
  generalize c :: (splitName cs).1 = head at hhead ⊢
  rw [ofName, fuse?]
  by_cases hphrase : (Token.phraseRemainder? (String.ofList head)).isSome = true
  · rw [if_pos hphrase, if_pos hphrase, phrase?_eq hhead, Option.bind_some]
    cases fuseAcross? head (splitTrivia (splitName cs).2).1 (splitTrivia (splitName cs).2).2 with
    | none => exact word?_eq hhead _ none
    | some l => rfl
  · rw [if_neg hphrase, if_neg hphrase]
    exact word?_eq hhead _ none

/-! ## Numbers and symbols -/

/-- The number that `c` opens; a sign or a point in front of the digits is passed first. -/
def number? (source : List Char) (c : Char) (start : Nat) : Option (Scanned × Nat) := do
  let stop ← passNumber? source (if c = '.' ∨ isSign c then start + c.utf8Size else start)
  let text ← slice? source start stop
  word? source (numberToken text) none start stop

/-- The single character `c` as a word, or as none. -/
def char? (source : List Char) (c : Char) (start : Nat) : Option (Scanned × Nat) :=
  match Symbol.ofChar? c with
  | some s => word? source (.symbol s) none start (start + c.utf8Size)
  | none => word? source .illegal (some (.illegalCharacter c)) start (start + c.utf8Size)

/-- The symbol that `c` opens, of two characters if the next one fits. -/
def operator? (source : List Char) (c : Char) (start : Nat) : Option (Scanned × Nat) := do
  match ← peek? source (start + c.utf8Size) with
  | some d =>
    match Symbol.ofPair? c d with
    | some s => word? source (.symbol s) none start (start + c.utf8Size + d.utf8Size)
    | none => char? source c start
  | none => char? source c start

theorem number?_eq (h : At source start (c :: cs))
    (hc : c.isDigit = true ∨ c = '.' ∨ isSign c = true) :
    number? source c start = some (placed start (readNumber c cs)) := by
  have htext : At source start ((c :: (splitNumber false cs).1) ++ (splitNumber false cs).2) := by
    rwa [List.cons_append, splitNumber_append]
  have hpass : passNumber? source (if c = '.' ∨ isSign c then start + c.utf8Size else start) =
      some (start + width (c :: (splitNumber false cs).1)) := by
    split
    · rw [passNumber?_eq h.cons, width_cons, Nat.add_assoc]
    · next hsign =>
      -- a digit goes on as a number itself
      have hdigit : c.isDigit = true := hc.resolve_right hsign
      have hmark : isExponentMark c = false := by
        refine Bool.eq_false_iff.mpr fun hmark => ?_
        rcases Bool.or_eq_true_iff.mp hmark with he | he <;>
          rw [of_decide_eq_true he] at hdigit <;> cases hdigit
      rw [passNumber?_eq h, splitNumber, if_pos (by rw [hdigit]; rfl), hmark]
  rw [number?, hpass]
  simp only [Option.bind_eq_bind, Option.bind_some, htext.slice?_eq]
  exact word?_eq htext _ none

theorem char?_eq (h : At source start (c :: cs)) :
    char? source c start = some (placed start (readChar c cs)) := by
  have hchar : At source start ([c] ++ cs) := h
  rw [char?, readChar]
  cases Symbol.ofChar? c with
  | none => exact word?_eq hchar .illegal _
  | some s => exact word?_eq hchar (.symbol s) none

theorem operator?_eq (h : At source start (c :: cs)) :
    operator? source c start = some (placed start (readOperator c cs)) := by
  rw [operator?, h.cons.peek?_eq]
  cases cs with
  | nil => exact char?_eq h
  | cons d ds =>
    simp only [readOperator, List.head?_cons, Option.bind_eq_bind, Option.bind_some]
    cases Symbol.ofPair? c d with
    | none => exact char?_eq h
    | some s =>
      have htwo : At source start ([c, d] ++ ds) := h
      refine Eq.trans ?_ (word?_eq htwo (.symbol s) none)
      rw [width_cons, width_cons, width_nil, Nat.add_zero, Nat.add_assoc]

/-! ## Reading -/

/-- The word that `c` opens at an offset. -/
def read? (source : List Char) (c : Char) (start : Nat) : Option (Scanned × Nat) := do
  match Opening.of c (← peekNext? source start) with
  | .nationalString =>
    closed? source .string .unterminatedString start
      (← passString? source (start + c.utf8Size + singleQuote.utf8Size))
  | .string =>
    closed? source .string .unterminatedString start (← passString? source (start + c.utf8Size))
  | .delimited mark =>
    closed? source .ident .unterminatedIdentifier start
      (← passDelimited? source mark (start + c.utf8Size))
  | .name => name? source start
  | .number => number? source c start
  | .lineComment =>
    word? source .comment none start (← passWhile? source (!isLineBreak ·) start)
  | .blockComment =>
    closed? source .comment .unterminatedComment start (← passComment? source 1 (start + 2))
  | .operator => operator? source c start

/-- **A word is read by offsets as by characters.** -/
theorem read?_eq (h : At source start (c :: cs)) :
    read? source c start = some (placed start (Lexeme.read c cs)) := by
  have hshows := shows_of c cs.head?
  rw [read?, h.peekNext?_eq, Lexeme.read, List.tail_cons]
  simp only [Option.bind_eq_bind, Option.bind_some]
  cases hkind : Opening.of c cs.head? with
  | nationalString =>
    rw [hkind] at hshows
    obtain ⟨ds, rfl⟩ := List.head?_eq_some_iff.mp hshows.2
    have hopen : At source start ([c, singleQuote] ++ ds) := h
    dsimp only
    rw [passString?_eq h.cons.cons, Option.bind_some]
    exact closed?_eq hopen .string .unterminatedString append_of_closeString
  | string =>
    have hopen : At source start ([c] ++ cs) := h
    dsimp only
    rw [passString?_eq h.cons, Option.bind_some]
    exact closed?_eq hopen .string .unterminatedString append_of_closeString
  | delimited mark =>
    have hopen : At source start ([c] ++ cs) := h
    dsimp only
    rw [passDelimited?_eq h.cons, Option.bind_some]
    exact closed?_eq hopen .ident .unterminatedIdentifier append_of_closeName
  | name =>
    rw [hkind] at hshows
    exact name?_eq h hshows
  | number =>
    rw [hkind] at hshows
    exact number?_eq h (hshows.imp_right And.left)
  | lineComment =>
    rw [hkind] at hshows
    obtain ⟨rfl, -⟩ := hshows
    have hline : At source start (('-' :: (splitLine cs).1) ++ (splitLine cs).2) := by
      simpa [splitLine] using h
    dsimp only
    rw [passWhile?_eq h, Option.bind_some]
    exact word?_eq hline .comment none
  | blockComment =>
    rw [hkind] at hshows
    obtain ⟨rfl, hstar⟩ := hshows
    obtain ⟨ds, rfl⟩ := List.head?_eq_some_iff.mp hstar
    have hopen : At source start (['/', '*'] ++ ds) := h
    have hbody : At source (start + 2) ds := h.cons.cons
    dsimp only
    rw [passComment?_eq hbody, Option.bind_some]
    exact closed?_eq hopen .comment .unterminatedComment fun hclose =>
      (append_of_closeComment hclose).2
  | operator => exact operator?_eq h

end

/-! ## Word after word -/

/-- The next word from a cursor on, with the cursor behind it; at the end of the text the word that
stands for it. -/
def step? (source : List Char) (pos : Nat) : Option (Scanned × Nat) := do
  let start ← passWhile? source isSpace pos
  match ← peek? source start with
  | some c => read? source c start
  | none => word? source .eof none start start

/-- The words from a cursor to the end of the text. -/
def words? (source : Checked Char) (pos : Nat) : Option (List Scanned) := do
  let (entry, pos) ← step? source pos
  if entry.word.isEof then return [] else return entry :: (← source |>.words? pos)
partial_fixpoint

/-- The words of a text; a byte-order mark in front is passed first. -/
def scan? (source : List Char) : Option (List Scanned) := do
  let marked ← startsWith? source 0 [byteOrderMark]
  words? source (if marked then byteOrderMark.utf8Size else 0)

section

variable {source : List Char} {r : Reader}

theorem at_skipSpace (h : At source r.pos r.rest) : At source r.skipSpace.pos r.skipSpace.rest := by
  have hsplit : r.rest.takeWhile isSpace ++ r.skipSpace.rest = r.rest :=
    List.takeWhile_append_dropWhile
  refine At.append ?_
  rwa [hsplit]

/-- **One step by offsets is one step of the reader.** -/
theorem step?_eq (h : At source r.pos r.rest) :
    step? source r.pos = some (r.step.1, r.step.2.pos) := by
  have hskip := at_skipSpace h
  have hpass : passWhile? source isSpace r.pos = some r.skipSpace.pos := passWhile?_eq h isSpace
  rw [step?, hpass]
  simp only [Option.bind_eq_bind, Option.bind_some, hskip.peek?_eq, Reader.step, Reader.next?]
  cases hrest : r.skipSpace.rest with
  | nil =>
    have hend : At source r.skipSpace.pos ([] ++ r.skipSpace.rest) := hskip
    exact word?_eq hend .eof none
  | cons c cs =>
    rw [hrest] at hskip
    exact read?_eq hskip

/-- The reader stays in front of the text it has not read. -/
theorem at_of_next? {r' : Reader} {entry : Scanned} (h : At source r.pos r.rest)
    (hnext : r.next? = some (entry, r')) : At source r'.pos r'.rest := by
  have hskip := at_skipSpace h
  unfold Reader.next? at hnext
  split at hnext
  · cases hnext
  · next c cs hrest =>
    cases hnext
    refine At.append ?_
    rwa [(read_divides c cs).2, ← hrest]

theorem isEof_of_next? {r' : Reader} {entry : Scanned} (hnext : r.next? = some (entry, r')) :
    entry.word.isEof = false := by
  unfold Reader.next? at hnext
  split at hnext
  · cases hnext
  · next c cs hrest =>
    cases hnext
    exact beq_eq_false_iff_ne.mpr (token_read_ne_eof c cs)

/-- **The words of a text are read to its end.** -/
theorem words?_eq (h : At source r.pos r.rest) : words? source r.pos = some r.words := by
  -- every word read leaves less text
  generalize hn : r.rest.length = n
  induction n using Nat.strongRecOn generalizing r with
  | ind n ih =>
    rw [words?, step?_eq h, Option.bind_eq_bind, Option.bind_some, Reader.step]
    cases hnext : r.next? with
    | none =>
      rw [Reader.words_of_next?_eq_none hnext]
      rfl
    | some found =>
      obtain ⟨entry, r'⟩ := found
      rw [Reader.words_of_next?_eq_some hnext]
      have hless := Reader.next?_length_lt hnext
      simp only [isEof_of_next? hnext, Bool.false_eq_true, if_false,
        ih _ (hn ▸ hless) (at_of_next? h hnext) rfl]
      rfl

/-- **Reading a text never fails.** -/
theorem scan?_eq (source : List Char) : scan? source = some (Reader.ofText source).words := by
  rw [scan?, (at_zero source).startsWith?_eq]
  simp only [Option.bind_eq_bind, Option.bind_some, isPrefixOf_singleton]
  cases source with
  | nil => exact words?_eq (r := ⟨0, []⟩) (at_zero _)
  | cons c cs =>
    rw [Reader.ofText, List.head?_cons]
    by_cases hmark : c = byteOrderMark
    · subst hmark
      have hbehind := (at_zero (byteOrderMark :: cs)).cons
      rw [Nat.zero_add] at hbehind
      rw [if_pos rfl, if_pos rfl]
      exact words?_eq (r := ⟨_, cs⟩) hbehind
    · rw [if_neg fun hhead => hmark (Option.some.inj hhead), if_neg hmark]
      exact words?_eq (r := ⟨0, c :: cs⟩) (at_zero _)

/-! ## Moving on -/

theorem pos_lt_of_next? {r' : Reader} {entry : Scanned} (hnext : r.next? = some (entry, r')) :
    r.pos < r'.pos := by
  unfold Reader.next? at hnext
  split at hnext
  · cases hnext
  · next c cs hrest =>
    cases hnext
    have hskip : r.pos ≤ r.skipSpace.pos := Nat.le_add_right _ _
    have hword := width_pos_of_ne_nil (read_divides c cs).1
    dsimp only
    omega

/-- Only a cursor in front of a text gives a word. -/
theorem exists_at_of_step? {pos : Nat} {found : Scanned × Nat}
    (h : step? source pos = some found) :
    ∃ cs, At source pos cs := by
  cases hcut : dropBytes? pos source with
  | some cs => exact ⟨cs, hcut⟩
  | none =>
    rw [step?, passWhile?, peek?, hcut] at h
    cases h

/-- **Every word but the end moves the cursor on.** -/
theorem lt_of_step? {pos pos' : Nat} {entry : Scanned} (h : step? source pos = some (entry, pos'))
    (hword : entry.word.isEof = false) : pos < pos' := by
  obtain ⟨cs, hat⟩ := exists_at_of_step? h
  have hstep : step? source pos = some _ := step?_eq (r := ⟨pos, cs⟩) hat
  cases h.symm.trans hstep
  unfold Reader.step at hword ⊢
  split at hword
  · next found hnext => exact pos_lt_of_next? hnext
  · cases hword

end

end SqlScript.Checked
