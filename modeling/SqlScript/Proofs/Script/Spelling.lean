import SqlScript.Proofs.Lexeme.Language
import SqlScript.Proofs.Lexeme.LetterCase
import SqlScript.Proofs.Lexeme.Lookahead
import SqlScript.Proofs.Script.Tiling

/-!
# Proofs/Script/Spelling — every word is spelled as its token says, and could not be longer

`Token.Spells` gives for each token the texts it may have and the character that must not stand
behind them.  Every word of a script has such a text, cut out of the script at its span
(`Script.spells_scan`); the end of the script, an assignment and an opening bracket are tokens that
no word has.
-/

namespace SqlScript

open Computability SqlScript.Text SqlScript.Lexeme

/-! ## What tokens are spelled like -/

/-- The characters that would have made a longer word, or another one, of a symbol. -/
def Symbol.goesOnWith : Symbol → Char → Bool
  | lt, c => c = '=' || c = '>'
  | gt, c => c = '='
  | slash, c => c = '*'
  | minus, c => c = '-' || c.isDigit
  | plus, c | period, c => c.isDigit
  | _, _ => false

/-- The texts of a symbol: its spelling, and the second one of inequality. -/
def Symbol.texts (s : Symbol) : Language Char :=
  {text | text = s.spelling.toList ∨ s = .notEq ∧ text = ['<', '>']}

/-- A name that spells `spelling` in any case. -/
def namesOf (spelling : String) : Language Char :=
  {text | text ∈ nameText ∧ upper (String.ofList text) = spelling}

/-- Two names with trivia between them that spell `spelling` in any case. -/
def phrasesOf (spelling : String) : Language Char :=
  {text | ∃ head ∈ nameText, ∃ trivia ∈ triviaText, ∃ name ∈ nameText,
    text = head ++ trivia ++ name ∧ upper (String.ofList (head ++ ' ' :: name)) = spelling}

/-- A character that opens no word. -/
def strayText : Language Char :=
  {text | ∃ c, text = [c] ∧ isNameStart c = false ∧ c.isDigit = false ∧
    ∀ s : Symbol, s.spelling.toList ≠ [c]}

/-- A construct whose end is missing. -/
def unterminatedText : Language Char :=
  stringOpening * stringBody + chars (· = '[') * delimitedBody ']' +
    chars (· = doubleQuote) * delimitedBody doubleQuote + unclosedBlock

/-- **The texts a token may have**, where `next` is the character behind the text. -/
def Token.Spells (text : List Char) (next : Option Char) : Token → Prop
  | eof => False
  | illegal => text ∈ strayText ∨ text ∈ unterminatedText ∧ next = none
  | comment => text ∈ lineText ∧ next.all isLineBreak = true ∨ text ∈ blockText
  | ident => text ∈ nameText ∧ next.any isNameChar = false ∨ text ∈ delimitedText '[' ']' ∨
      text ∈ delimitedText doubleQuote doubleQuote
  | int => text ∈ numberText ∧ '.' ∉ text ∧
      next.any (continuesNumber (text.getLast?.any isExponentMark)) = false
  | float => text ∈ numberText ∧ '.' ∈ text ∧
      next.any (continuesNumber (text.getLast?.any isExponentMark)) = false
  | string => text ∈ stringText ∧ next ≠ some singleQuote
  | keyword k => (if k.isPhrase then text ∈ phrasesOf k.spelling else text ∈ namesOf k.spelling) ∧
      next.any isNameChar = false
  | aggregate a => text ∈ namesOf a.spelling ∧ next.any isNameChar = false
  | symbol s => text ∈ s.texts ∧ next.any s.goesOnWith = false ∧ s ≠ .assign ∧ s ≠ .lbracket

namespace Lexeme

/-- A lexeme has a text of its token, and what follows cannot go on with it. -/
def Spelled (l : Lexeme) : Prop := l.token.Spells l.text l.rest.head?

theorem spelled_plain {t : Token} {as bs : List Char} :
    (plain t as bs).Spelled ↔ t.Spells as bs.head? := Iff.rfl

/-! ## Words that are closed by a mark -/

/-- A construct is spelled as it should be if it is so when it is closed and when it is not. -/
theorem spelled_closed {token : Token} {fault : LexicalFault} {front cs : List Char}
    {close : List Char → Option (List Char × List Char)}
    (hclosed : ∀ {as bs}, close cs = some (as, bs) → token.Spells (front ++ as) bs.head?)
    (hunclosed : close cs = none → front ++ cs ∈ unterminatedText) :
    (closed token fault front cs close).Spelled := by
  unfold closed
  split
  · next body rest h => exact hclosed h
  · next h => exact .inr ⟨hunclosed h, rfl⟩

theorem spelled_string {front : List Char} (h : front ∈ stringOpening) (cs : List Char) :
    (closed .string .unterminatedString front cs closeString).Spelled := by
  refine spelled_closed (fun hclose => ?_) fun hclose => ?_
  · obtain ⟨hbody, hnext⟩ := closeString_mem hclose
    refine ⟨?_, hnext⟩
    rw [stringText, mul_assoc]
    exact Language.append_mem_mul h hbody
  · exact .inl (.inl (.inl (Language.append_mem_mul h (closeString_eq_none hclose))))

theorem spelled_delimited {mark close : Char}
    (h : mark = '[' ∧ close = ']' ∨ mark = doubleQuote ∧ close = doubleQuote) (cs : List Char) :
    (closed .ident .unterminatedIdentifier [mark] cs (closeName close)).Spelled := by
  have hmark : [mark] ∈ chars (· = mark) := singleton_mem_chars.mpr (by simp)
  refine spelled_closed (fun {as bs} hclose => ?_) fun hclose => ?_
  · have htext : [mark] ++ as ∈ delimitedText mark close := by
      rw [delimitedText, mul_assoc]
      exact Language.append_mem_mul hmark (closeName_mem hclose)
    rcases h with ⟨rfl, rfl⟩ | ⟨rfl, rfl⟩
    · exact .inr (.inl htext)
    · exact .inr (.inr htext)
  · have htext := Language.append_mem_mul hmark (closeName_eq_none hclose)
    rcases h with ⟨rfl, rfl⟩ | ⟨rfl, rfl⟩
    · exact .inl (.inl (.inr htext))
    · exact .inl (.inr htext)

theorem spelled_block (cs : List Char) :
    (closed .comment .unterminatedComment ['/', '*'] cs (closeComment 0)).Spelled :=
  spelled_closed (fun hclose => .inr (block_mem hclose)) fun hclose =>
    .inr (unclosedBlock_mem hclose)

/-! ## Names and phrases -/

theorem forall_isNameChar {text : List Char} (h : text ∈ nameText) :
    ∀ c ∈ text, isNameChar c = true := by
  obtain ⟨first, ⟨c, hc, rfl⟩, rest, hrest, rfl⟩ := Language.mem_mul.mp h
  exact List.forall_mem_cons.mpr ⟨isNameChar_of_isNameStart hc, mem_kstar_chars.mp hrest⟩

/-- A keyword that a name spells is no phrase, since a phrase has a space in it. -/
theorem isPhrase_eq_false_of_name {text : List Char} {k : Keyword} (htext : text ∈ nameText)
    (hk : k.spelling = upper (String.ofList text)) : k.isPhrase = false := by
  have hall : ∀ k ∈ Keyword.all, k.isPhrase = true → ' ' ∈ k.spelling.toList := by decide
  refine Bool.eq_false_iff.mpr fun hphrase => ?_
  have hspace := hall k (Keyword.mem_all k) hphrase
  rw [hk, toList_upper, String.toList_ofList] at hspace
  obtain ⟨c, hc, hupper⟩ := List.mem_map.mp hspace
  have hname := forall_isNameChar htext c hc
  rw [← isNameChar_toUpper, hupper] at hname
  exact absurd hname (by decide)

/-- A name is an identifier, or the keyword or the aggregate it spells. -/
theorem spells_ofWord {text : List Char} {next : Option Char} (htext : text ∈ nameText)
    (hnext : next.any isNameChar = false) :
    (Token.ofWord (String.ofList text)).Spells text next := by
  unfold Token.ofWord
  split
  · next k hk =>
    have hspelling := Token.keyword?_eq_some_iff.mp hk
    refine ⟨?_, hnext⟩
    rw [if_neg (by simp [isPhrase_eq_false_of_name htext hspelling])]
    exact ⟨htext, hspelling.symm⟩
  · split
    · next a ha => exact ⟨⟨htext, (Token.aggregate?_eq_some_iff.mp ha).symm⟩, hnext⟩
    · exact .inl ⟨htext, hnext⟩

/-- **A fused keyword is a phrase of two names**, with trivia between them, that spell it. -/
theorem exists_phrase_of_fuse? {head rest : List Char} {l : Lexeme}
    (h : fuse? head rest = some l) :
    ∃ k trivia name after, l = phrase k head trivia name after ∧ k.isPhrase = true ∧
      trivia ∈ triviaText ∧ name ∈ nameText ∧ after.head?.any isNameChar = false ∧
      upper (String.ofList (head ++ ' ' :: name)) = k.spelling := by
  have hphrase := isPhrase_of_fuse? h
  obtain ⟨c, cs, k, htrivia, hc, hk, rfl⟩ := exists_of_fuse? h
  have hname : (splitName (c :: cs)).1 = c :: (splitName cs).1 :=
    List.takeWhile_cons_of_pos (isNameChar_of_isNameStart hc)
  exact ⟨k, _, _, _, rfl, hphrase, splitTrivia_mem htrivia, hname ▸ name_mem hc cs,
    any_head?_dropWhile isNameChar (c :: cs), (Token.keyword?_eq_some_iff.mp hk).symm⟩

/-- **A name, or the phrase it opens, is spelled as its token says.** -/
theorem spelled_ofName {head rest : List Char} (hhead : head ∈ nameText)
    (hrest : rest.head?.any isNameChar = false) : (ofName head rest).Spelled := by
  cases hfuse : fuse? head rest with
  | none =>
    have hword : ofName head rest = plain (Token.ofWord (String.ofList head)) head rest := by
      rw [ofName, hfuse]
      rfl
    rw [hword, spelled_plain]
    exact spells_ofWord hhead hrest
  | some l =>
    obtain ⟨k, trivia, name, after, rfl, hphrase, htrivia, hname, hafter, hspelling⟩ :=
      exists_phrase_of_fuse? hfuse
    rw [ofName, hfuse, Option.getD_some]
    refine ⟨?_, hafter⟩
    rw [if_pos hphrase]
    exact ⟨head, hhead, trivia, htrivia, name, hname, rfl, hspelling⟩

/-! ## Numbers and line comments -/

theorem isExponentMark_of_isDigit {c : Char} (h : c.isDigit = true) : isExponentMark c = false := by
  refine Bool.eq_false_iff.mpr fun hmark => ?_
  rcases Bool.or_eq_true_iff.mp hmark with hc | hc <;> rw [of_decide_eq_true hc] at h <;>
    exact absurd h (by decide)

/-- What opens a number is part of its text. -/
theorem number_mem {c : Char} {cs : List Char}
    (h : c.isDigit = true ∨ (c = '.' ∨ isSign c = true) ∧ cs.head?.any Char.isDigit = true) :
    c :: (splitNumber false cs).1 ∈ numberText := by
  have htail : ∀ ds, (splitNumber false ds).1 ∈ numberPart∗ := fun ds => by
    have hmem := splitNumber_mem false ds
    rwa [if_neg (by simp), one_mul] at hmem
  rcases h with hdigit | ⟨hlead, hdigit⟩
  · have hfirst : [c] ∈ (1 + chars fun c => isSign c || c = '.') * chars Char.isDigit :=
      ⟨[], .inl Language.nil_mem_one, [c], singleton_mem_chars.mpr hdigit, rfl⟩
    exact Language.append_mem_mul hfirst (htail cs)
  · cases cs with
    | nil => cases hdigit
    | cons d ds =>
      have hd : d.isDigit = true := hdigit
      rw [splitNumber, if_pos (by simp [hd]), isExponentMark_of_isDigit hd]
      have hfirst : [c, d] ∈ (1 + chars fun c => isSign c || c = '.') * chars Char.isDigit :=
        ⟨[c], .inr (singleton_mem_chars.mpr (by simpa [or_comm] using hlead)), [d],
          singleton_mem_chars.mpr hd, rfl⟩
      exact Language.append_mem_mul hfirst (htail ds)

theorem spelled_number {c : Char} {cs : List Char}
    (h : c.isDigit = true ∨ (c = '.' ∨ isSign c = true) ∧ cs.head?.any Char.isDigit = true) :
    (readNumber c cs).Spelled := by
  have hmark : isExponentMark c = false := by
    rcases h with hdigit | ⟨rfl | hsign, -⟩
    · exact isExponentMark_of_isDigit hdigit
    · rfl
    · rcases Bool.or_eq_true_iff.mp hsign with hc | hc <;> rw [of_decide_eq_true hc] <;> rfl
  have hend := any_continuesNumber c cs
  rw [hmark] at hend
  unfold readNumber numberToken
  split
  · next hpoint => exact ⟨number_mem h, List.contains_iff_mem.mp hpoint, hend⟩
  · next hpoint => exact ⟨number_mem h, fun hmem => hpoint (List.contains_iff_mem.mpr hmem), hend⟩

theorem spelled_line {cs : List Char} (h : cs.head? = some '-') : (readLine '-' cs).Spelled := by
  obtain ⟨ds, rfl⟩ := List.head?_eq_some_iff.mp h
  have hline : splitLine ('-' :: ds) = ('-' :: (splitLine ds).1, (splitLine ds).2) := rfl
  have hbreak := any_head?_dropWhile (!isLineBreak ·) ds
  rw [readLine, hline]
  refine .inl ⟨line_mem ds, ?_⟩
  show ((ds.dropWhile (!isLineBreak ·)).head?).all isLineBreak = true
  cases hnext : (ds.dropWhile (!isLineBreak ·)).head? with
  | none => rfl
  | some b => simpa [hnext] using hbreak

/-! ## Symbols -/

/-- A symbol of two characters is spelled by them, and nothing goes on with it. -/
theorem spells_pair {c d : Char} {s : Symbol} (h : Symbol.ofPair? c d = some s)
    (next : Option Char) : (Token.symbol s).Spells [c, d] next := by
  have hnone : next.any (fun _ => false) = false := by cases next <;> rfl
  unfold Symbol.ofPair? at h
  split at h
  case h_5 => cases h
  all_goals cases h
  · exact ⟨.inl (by decide), hnone, by decide, by decide⟩
  · exact ⟨.inr ⟨rfl, rfl⟩, hnone, by decide, by decide⟩
  · exact ⟨.inl (by decide), hnone, by decide, by decide⟩
  · exact ⟨.inl (by decide), hnone, by decide, by decide⟩

/-- What follows a symbol of one character makes no longer word of it. -/
theorem goesOnWith_eq_false {c d : Char} {s : Symbol} (hs : Symbol.ofChar? c = some s)
    (hpair : Symbol.ofPair? c d = none) (hshows : Opening.operator.Shows c (some d)) :
    s.goesOnWith d = false := by
  obtain ⟨-, -, -, -, -, hnumber, hline, hblock⟩ := hshows
  simp only [Option.any_some, ne_eq, Option.some.injEq] at hnumber hline hblock
  unfold Symbol.ofChar? at hs
  split at hs <;> cases hs
  case h_1 => exact hnumber (by decide)
  case h_2 => simp [Symbol.goesOnWith, hline, hnumber (by decide)]
  case h_4 => simp [Symbol.goesOnWith, hblock]
  case h_17 => exact hnumber (by decide)
  case h_19 =>
    have hne : d ≠ '=' ∧ d ≠ '>' := by
      constructor <;> rintro rfl <;> cases hpair
    simp [Symbol.goesOnWith, hne]
  case h_20 =>
    have hne : d ≠ '=' := by rintro rfl; cases hpair
    simp [Symbol.goesOnWith, hne]
  all_goals rfl

theorem spells_char {c : Char} {s : Symbol} (h : Symbol.ofChar? c = some s) {next : Option Char}
    (hnext : next.any s.goesOnWith = false) : (Token.symbol s).Spells [c] next := by
  have hspelling : [c] = s.spelling.toList ∧ s ≠ .assign ∧ s ≠ .lbracket := by
    unfold Symbol.ofChar? at h
    split at h <;> cases h
    all_goals decide
  exact ⟨.inl hspelling.1, hnext, hspelling.2⟩

/-- A character that makes no symbol alone spells none. -/
theorem stray_mem {c : Char} {next : Option Char} (h : Symbol.ofChar? c = none)
    (hshows : Opening.operator.Shows c next) : [c] ∈ strayText := by
  have hall : ∀ s ∈ Symbol.all, (s.spelling.toList.all fun c =>
      s.spelling.toList ≠ [c] || (Symbol.ofChar? c).isSome || c = '[') = true := by decide
  obtain ⟨hbracket, -, -, hname, hdigit, -⟩ := hshows
  refine ⟨c, rfl, hname, hdigit, fun s hs => ?_⟩
  have hc := hall s (Symbol.mem_all s)
  rw [hs] at hc
  simp [h, hbracket] at hc

/-- A single character is a symbol that does not go on, or stray. -/
theorem spelled_char {c : Char} {cs : List Char} (hshows : Opening.operator.Shows c cs.head?)
    (hpair : cs.head?.any (fun d => (Symbol.ofPair? c d).isSome) = false) :
    (readChar c cs).Spelled := by
  unfold readChar
  split
  · next s hs =>
    refine spells_char hs ?_
    cases cs with
    | nil => rfl
    | cons d ds => exact goesOnWith_eq_false hs (by simpa using hpair) hshows
  · next hs => exact .inl (stray_mem hs hshows)

theorem spelled_operator {c : Char} {cs : List Char} (hshows : Opening.operator.Shows c cs.head?) :
    (readOperator c cs).Spelled := by
  cases hpair : cs.head?.any fun d => (Symbol.ofPair? c d).isSome with
  | false =>
    rw [readOperator_eq_readChar hpair]
    exact spelled_char hshows hpair
  | true =>
    cases cs with
    | nil => cases hpair
    | cons d ds =>
      obtain ⟨s, hs⟩ := Option.isSome_iff_exists.mp hpair
      rw [readOperator, hs]
      exact spells_pair hs ds.head?

/-- **Every word is spelled as its token says, and could not be longer.** -/
theorem spelled_read (c : Char) (cs : List Char) : (read c cs).Spelled := by
  have hshows := shows_of c cs.head?
  unfold read
  cases hkind : Opening.of c cs.head? with
  | nationalString =>
    rw [hkind] at hshows
    obtain ⟨hc, hquote⟩ := hshows
    obtain ⟨ds, rfl⟩ := List.head?_eq_some_iff.mp hquote
    refine spelled_string (Language.append_mem_mul (a := [c]) (b := [singleQuote]) ?_ ?_) ds
    · exact .inr (singleton_mem_chars.mpr (by simpa using hc))
    · exact singleton_mem_chars.mpr rfl
  | string =>
    rw [hkind] at hshows
    obtain rfl : c = singleQuote := hshows
    have hquote : [singleQuote] ∈ chars (· = singleQuote) := singleton_mem_chars.mpr rfl
    exact spelled_string (Language.append_mem_mul (.inl Language.nil_mem_one) hquote) cs
  | delimited mark =>
    rw [hkind] at hshows
    exact spelled_delimited hshows cs
  | name =>
    rw [hkind] at hshows
    exact spelled_ofName (name_mem hshows cs) (any_head?_dropWhile isNameChar cs)
  | number =>
    rw [hkind] at hshows
    exact spelled_number hshows
  | lineComment =>
    rw [hkind] at hshows
    obtain ⟨rfl, hdash⟩ := hshows
    exact spelled_line hdash
  | blockComment =>
    rw [hkind] at hshows
    obtain ⟨rfl, hstar⟩ := hshows
    obtain ⟨ds, rfl⟩ := List.head?_eq_some_iff.mp hstar
    exact spelled_block ds
  | operator =>
    rw [hkind] at hshows
    exact spelled_operator hshows

end Lexeme

/-! ## The words of a script -/

namespace Script

/-- Behind a word stands the rest of its row. -/
theorem Tiled.slice?_behind {s : Script} {front tail : List Char} {pre post : List Tile} {t : Tile}
    (h : s.Tiled front (pre ++ t :: post) tail) :
    s.slice? (t.word (width front + width (pre.flatMap Tile.text))).span.stop s.size =
      some (post.flatMap Tile.text ++ tail) := by
  have hsource : s.source = (front ++ pre.flatMap Tile.text ++ t.text) ++
      (post.flatMap Tile.text ++ tail ++ []) := by
    rw [h.source_eq]
    simp
  have hcut := slice?_append (front ++ pre.flatMap Tile.text ++ t.text)
    (post.flatMap Tile.text ++ tail) []
  rw [← hsource, ← width_append, width_append _ t.text, width_append front] at hcut
  rw [slice?, size, Tile.stop_word, ← hcut, hsource, List.append_nil]

/-- A symbol with one text has its spelling for a literal. -/
theorem literal_of_symbol {name source : String} {w : Word} (hw : w ∈ (scan name source).words)
    {s : Symbol} (hs : w.token = .symbol s) (hne : s ≠ .notEq) : w.literal = s.spelling := by
  obtain ⟨c, cs, htoken, hliteral, -⟩ := exists_read hw
  have hread : (read c cs).token = .symbol s := htoken.symm.trans hs
  have hspelled := spelled_read c cs
  rw [Spelled, hread] at hspelled
  obtain ⟨htext | ⟨heq, -⟩, -⟩ := hspelled
  · have hsame : (read c cs).literal = (read c cs).text := literal_read c cs (by rw [hread]; rfl)
    rw [hliteral, hsame, htext, String.ofList_toList]
  · exact absurd heq hne

/-- **Every word of a script is spelled as its token says, and could not be longer.** -/
theorem spells_scan (name source : String) {w : Word} (hw : w ∈ (scan name source).words) :
    ∃ text behind, (scan name source).slice? w.span.start w.span.stop = some text ∧
      (scan name source).slice? w.span.stop (scan name source).size = some behind ∧
      w.token.Spells text behind.head? := by
  obtain ⟨front, body, ts, tail, -, -, htiling, htiled⟩ := exists_tiled name source
  rw [htiled.words_eq] at hw
  obtain ⟨pre, t, post, rfl, rfl⟩ := exists_tile_of_mem hw
  obtain ⟨-, -, -, -, hbehind⟩ := htiling.exists_read
  have hspelled := htiling.forall_lexeme Lexeme.spelled_read t (by simp)
  rw [Lexeme.Spelled, ← hbehind.flatMap_text] at hspelled
  exact ⟨_, _, htiled.slice?_eq, htiled.slice?_behind, hspelled⟩

/-- A phrase with a nested comment inside. -/
theorem spells_scan_phrase :
    let s := scan "q" "GROUP /* /* 1 */ */ by x"
    ∃ w ∈ s.words, w.token = .keyword .GROUP_BY ∧ w.span = ⟨0, 22⟩ ∧
      ∃ text behind, s.slice? 0 22 = some text ∧ s.slice? 22 s.size = some behind ∧
        (Token.keyword .GROUP_BY).Spells text behind.head? := by
  intro s
  have hfound : ∃ w ∈ s.words, w.token = .keyword .GROUP_BY ∧ w.span = ⟨0, 22⟩ := by
    decide +kernel
  obtain ⟨w, hw, htoken, hspan⟩ := hfound
  have hspells := spells_scan "q" "GROUP /* /* 1 */ */ by x" hw
  rw [htoken, hspan] at hspells
  exact ⟨w, hw, htoken, hspan, hspells⟩

end Script

end SqlScript
