import SqlScript.Proofs.Lexeme.Ending

/-!
# Proofs/Lexeme/Lookahead — what a name sees of the words behind it

A name that can open a phrase looks for the next name across white space and comments.  In terms of
words: it passes white space (`nameBehind_append`) and the words that are comments
(`nameBehind_of_comment`), and finds what the next word opens with (`nameBehind_of_word`).

Which words are comments is told by the kind of word a text opens with (`Opening.makes`).
-/

namespace SqlScript.Lexeme

/-! ## Kinds of words and their tokens -/

/-- The tokens that words of a kind can have. -/
def Opening.makes : Opening → Token → Bool
  | nationalString, t | string, t => t == .string || t == .illegal
  | delimited _, t => t == .ident || t == .illegal
  | name, t => t == .ident || t.isKeyword
  | number, t => t == .int || t == .float
  | lineComment, t => t == .comment
  | blockComment, t => t == .comment || t == .illegal
  | operator, t => t.isOperator || t == .illegal

/-- What words of a kind say of their first character and the one behind it. -/
def Opening.Shows (c : Char) (next : Option Char) : Opening → Prop
  | nationalString => (c = 'N' ∨ c = 'n') ∧ next = some Text.singleQuote
  | string => c = Text.singleQuote
  | delimited mark => c = '[' ∧ mark = ']' ∨ c = Text.doubleQuote ∧ mark = Text.doubleQuote
  | name => isNameStart c = true
  | number => c.isDigit = true ∨ (c = '.' ∨ isSign c = true) ∧ next.any Char.isDigit = true
  | lineComment => c = '-' ∧ next = some '-'
  | blockComment => c = '/' ∧ next = some '*'
  | operator => c ≠ '[' ∧ c ≠ Text.doubleQuote ∧ c ≠ Text.singleQuote ∧ isNameStart c = false ∧
      c.isDigit = false ∧ ((c = '.' ∨ isSign c = true) → next.any Char.isDigit = false) ∧
      (c = '-' → next ≠ some '-') ∧ (c = '/' → next ≠ some '*')

/-- **The first two characters of a word are as its kind says.** -/
theorem shows_of (c : Char) (next : Option Char) : (Opening.of c next).Shows c next := by
  unfold Opening.of
  split
  case isTrue h => exact h
  split
  case isTrue h => exact .inl ⟨h, rfl⟩
  split
  case isTrue h => exact .inr ⟨h, rfl⟩
  split
  case isTrue h => exact h
  split
  case isTrue h => exact .inl h
  split
  case isTrue h => exact .inr h
  split
  case isTrue h => exact h
  split
  case isTrue h => exact h
  split
  case isTrue h => exact h
  next _ hbracket hquote hname hdigit hnumber hline hblock hstring =>
    exact ⟨hbracket, hquote, hstring, by simpa using hname, by simpa using hdigit,
      by simpa using hnumber, by simpa using hline, by simpa using hblock⟩

theorem closed_cases (token : Token) (fault : LexicalFault) (front cs : List Char)
    (close : List Char → Option (List Char × List Char)) :
    (∃ text rest, closed token fault front cs close = plain token text rest) ∨
      closed token fault front cs close = unclosed fault (front ++ cs) := by
  unfold closed
  split
  · exact .inl ⟨_, _, rfl⟩
  · exact .inr rfl

theorem ofName_cases (head rest : List Char) :
    ofName head rest = plain (Token.ofWord (String.ofList head)) head rest ∨
      ∃ k trivia name after, ofName head rest = phrase k head trivia name after := by
  unfold ofName
  cases hfuse : fuse? head rest with
  | none => exact .inl rfl
  | some l =>
    obtain ⟨k, after, rfl, -⟩ := eq_phrase_of_fuse? hfuse
    exact .inr ⟨k, _, _, _, rfl⟩

theorem readOperator_cases (c : Char) (cs : List Char) :
    (∃ s text rest, readOperator c cs = plain (.symbol s) text rest) ∨
      ∃ rest, readOperator c cs = ⟨.illegal, [c], [c], rest, some (.illegalCharacter c)⟩ := by
  have hchar : ∀ ds, (∃ s text rest, readChar c ds = plain (.symbol s) text rest) ∨
      ∃ rest, readChar c ds = ⟨.illegal, [c], [c], rest, some (.illegalCharacter c)⟩ := by
    intro ds
    unfold readChar
    split
    · exact .inl ⟨_, _, _, rfl⟩
    · exact .inr ⟨_, rfl⟩
  unfold readOperator
  split
  · exact hchar []
  · split
    · exact .inl ⟨_, _, _, rfl⟩
    · exact hchar _

/-- A plain name is a keyword or an identifier. -/
theorem makes_ofWord (text : String) : Opening.name.makes (Token.ofWord text) = true := by
  unfold Token.ofWord
  split
  · rfl
  · split <;> rfl

/-- **A word has a token of its kind.** -/
theorem makes_read (c : Char) (cs : List Char) :
    (Opening.of c cs.head?).makes (read c cs).token = true := by
  unfold read
  cases Opening.of c cs.head? with
  | nationalString | string | delimited _ | blockComment =>
    dsimp only
    rcases closed_cases _ _ _ _ _ with ⟨text, rest, hword⟩ | hword <;> rw [hword] <;> rfl
  | name =>
    dsimp only
    rcases ofName_cases (c :: (splitName cs).1) (splitName cs).2 with hword | ⟨_, _, _, _, hword⟩
    · rw [hword]
      dsimp only [plain]
      exact makes_ofWord _
    · rw [hword]
      rfl
  | number =>
    show (numberToken _ == .int || numberToken _ == .float) = true
    unfold numberToken
    split <;> rfl
  | lineComment => rfl
  | operator =>
    dsimp only
    rcases readOperator_cases c cs with ⟨_, _, _, hword⟩ | ⟨_, hword⟩ <;> rw [hword] <;> rfl

/-- Only names make keywords. -/
theorem eq_name_of_makes {kind : Opening} {t : Token} (h : kind.makes t = true)
    (ht : t.isKeyword = true) : kind = .name := by
  cases t with
  | keyword k | aggregate a =>
    cases kind with
    | name => rfl
    | _ => cases h
  | _ => cases ht

/-- No word stands for the end of the script. -/
theorem token_read_ne_eof (c : Char) (cs : List Char) : (read c cs).token ≠ .eof := by
  intro h
  have hmakes := makes_read c cs
  rw [h] at hmakes
  cases hkind : Opening.of c cs.head? <;> rw [hkind] at hmakes <;> cases hmakes

/-- **A word that is not closed takes up all of the text.** -/
theorem rest_of_isUnclosed {c : Char} {cs : List Char} (h : (read c cs).isUnclosed = true) :
    (read c cs).rest = [] := by
  unfold read at h ⊢
  cases hkind : Opening.of c cs.head? with
  | nationalString | string | delimited _ | blockComment =>
    simp only [hkind] at h ⊢
    rcases closed_cases _ _ _ _ _ with ⟨text, rest, hword⟩ | hword
    · rw [hword] at h
      cases h
    · rw [hword]
      rfl
  | name =>
    simp only [hkind] at h
    rcases ofName_cases (c :: (splitName cs).1) (splitName cs).2
        with hword | ⟨_, _, _, _, hword⟩ <;>
      rw [hword] at h <;> cases h
  | number | lineComment =>
    simp only [hkind] at h
    cases h
  | operator =>
    simp only [hkind] at h
    rcases readOperator_cases c cs with ⟨_, _, _, hword⟩ | ⟨_, hword⟩ <;>
      rw [hword] at h <;> cases h

/-! ## Looking across words -/

theorem opening_eq_lineComment_iff {c : Char} {next : Option Char} :
    Opening.of c next = .lineComment ↔ c = '-' ∧ next = some '-' := by
  constructor
  · grind [Opening.of]
  · rintro ⟨rfl, rfl⟩
    decide

theorem opening_eq_blockComment_iff {c : Char} {next : Option Char} :
    Opening.of c next = .blockComment ↔ c = '/' ∧ next = some '*' := by
  constructor
  · grind [Opening.of]
  · rintro ⟨rfl, rfl⟩
    decide

/-- A letter opens a name, or a string behind the mark of national text. -/
theorem opening_of_isNameStart {c : Char} (h : isNameStart c = true) (next : Option Char) :
    Opening.of c next = .name ∨
      Opening.of c next = .nationalString ∧ next = some Text.singleQuote := by
  have hbracket : c ≠ '[' := by
    rintro rfl
    exact absurd h (by decide)
  have hquote : c ≠ Text.doubleQuote := by
    rintro rfl
    exact absurd h (by decide)
  grind [Opening.of]

theorem exists_text_ofName (head rest : List Char) :
    ∃ more, (ofName head rest).text = head ++ more ∧ more ++ (ofName head rest).rest = rest := by
  cases hfuse : fuse? head rest with
  | none => exact ⟨[], by simp [ofName, hfuse], by simp [ofName, hfuse]⟩
  | some l =>
    have hopens : Opens l.rest l.rest := .inl rfl
    obtain ⟨more, htext, -, happ, -⟩ := fuse?_exchange hfuse hopens
    exact ⟨more, by simp [ofName, hfuse, htext], by simp [ofName, hfuse, happ]⟩

theorem splitTrivia_append_of_isSpace {gap : List Char} (h : ∀ c ∈ gap, isSpace c = true)
    (cs : List Char) :
    splitTrivia (gap ++ cs) = (gap ++ (splitTrivia cs).1, (splitTrivia cs).2) := by
  induction gap with
  | nil => rfl
  | cons c gap ih =>
    have hc : isSpace c = true := h c List.mem_cons_self
    rw [List.cons_append, splitTrivia_cons, if_pos hc,
      ih fun d hd => h d (List.mem_cons_of_mem c hd)]
    · rfl
    · rintro ⟨rfl, -⟩
      exact absurd hc (by decide)
    · rintro ⟨rfl, -⟩
      exact absurd hc (by decide)

/-- White space in front of a text hides no name. -/
theorem nameBehind_append {gap : List Char} (h : ∀ c ∈ gap, isSpace c = true) (cs : List Char) :
    nameBehind (gap ++ cs) = nameBehind cs := by
  rw [nameBehind, splitTrivia_append_of_isSpace h, nameBehind]

/-- **A comment hides no name.** -/
theorem nameBehind_of_comment {c : Char} {cs : List Char} (h : (read c cs).token = .comment) :
    nameBehind (c :: cs) = nameBehind (read c cs).rest := by
  have hmakes := makes_read c cs
  rw [h] at hmakes
  cases hkind : Opening.of c cs.head? <;> rw [hkind] at hmakes <;> try cases hmakes
  case lineComment =>
    obtain ⟨rfl, hdash⟩ := opening_eq_lineComment_iff.mp hkind
    obtain ⟨ds, rfl⟩ := List.head?_eq_some_iff.mp hdash
    simp only [read, hkind, nameBehind, splitTrivia_line]
    rfl
  case blockComment =>
    obtain ⟨rfl, hstar⟩ := opening_eq_blockComment_iff.mp hkind
    obtain ⟨ds, rfl⟩ := List.head?_eq_some_iff.mp hstar
    simp only [read, hkind, List.drop_one, List.tail_cons] at h ⊢
    cases hclose : closeComment 0 ds with
    | none => simp [closed, hclose, unclosed] at h
    | some parts => simp only [closed, hclose, rest_plain, nameBehind, splitTrivia_block hclose]

/-- The name a word opens with is the name the text opens with. -/
theorem frontName_text (c : Char) (cs : List Char) :
    frontName (read c cs).text = frontName (c :: cs) := by
  obtain ⟨front, htext, happ⟩ := text_read_eq_cons c cs
  cases hc : isNameStart c with
  | false => rw [htext, frontName_eq_nil (by simpa using hc), frontName_eq_nil (by simpa using hc)]
  | true =>
    -- What follows the name in the word, or behind it, does not continue the name.
    suffices hmore : ∃ more, (read c cs).text = (splitName (c :: cs)).1 ++ more ∧
        more.head?.any isNameChar = false by
      obtain ⟨more, hmore, hend⟩ := hmore
      rw [frontName, frontName, htext, List.head?_cons, ← htext, hmore, splitName_exchange _ hend]
      rfl
    have hname : (splitName (c :: cs)).1 = c :: (splitName cs).1 :=
      List.takeWhile_cons_of_pos (isNameChar_of_isNameStart hc)
    rcases opening_of_isNameStart hc cs.head? with hkind | ⟨hkind, hquote⟩
    · simp only [read, hkind, hname]
      obtain ⟨more, hmore, happ⟩ := exists_text_ofName (c :: (splitName cs).1) (splitName cs).2
      refine ⟨more, hmore, ?_⟩
      have hend : (splitName cs).2.head?.any isNameChar = false := any_head?_dropWhile _ cs
      cases more with
      | nil => rfl
      | cons d more =>
        rw [← happ] at hend
        exact hend
    · obtain ⟨ds, rfl⟩ := List.head?_eq_some_iff.mp hquote
      have hend : isNameChar Text.singleQuote = false := by decide
      have hsingle : (splitName (Text.singleQuote :: ds)).1 = [] := by simp [splitName, hend]
      simp only [read, hkind, hname, hsingle]
      obtain ⟨body, hbody⟩ := exists_text_closed .string .unterminatedString [c, Text.singleQuote]
        ds closeString
      exact ⟨Text.singleQuote :: body, hbody, hend⟩

/-- **Any other word shows the name it opens with.** -/
theorem nameBehind_of_word {c : Char} {cs : List Char} (hc : isSpace c = false)
    (h : (read c cs).token ≠ .comment) : nameBehind (c :: cs) = frontName (read c cs).text := by
  by_cases hblock : c = '/' ∧ cs.head? = some '*'
  · -- a block comment that is not closed
    obtain ⟨rfl, hstar⟩ := hblock
    obtain ⟨ds, rfl⟩ := List.head?_eq_some_iff.mp hstar
    have hslash : frontName ('/' :: '*' :: ds) = [] :=
      frontName_eq_nil (show isNameStart '/' = false by decide)
    rw [frontName_text, hslash]
    have hkind : Opening.of '/' ('*' :: ds).head? = .blockComment :=
      opening_eq_blockComment_iff.mpr ⟨rfl, rfl⟩
    have hclose : closeComment 0 ds = none := by
      simp only [read, hkind, List.drop_one, List.tail_cons] at h
      cases hclose : closeComment 0 ds with
      | none => rfl
      | some parts => simp [closed, hclose, plain] at h
    rw [nameBehind, splitTrivia_unclosed hclose]
    rfl
  · have hline : ¬ (c = '-' ∧ cs.head? = some '-') := by
      intro hline
      have hkind := opening_eq_lineComment_iff.mpr hline
      simp only [read, hkind] at h
      exact h rfl
    rw [nameBehind, splitTrivia_cons hline hblock, if_neg (by simp [hc]), frontName_text]

end SqlScript.Lexeme
