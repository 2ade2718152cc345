import SqlScript.Lexeme.Delimited
import SqlScript.Lexeme.Number
import SqlScript.Lexeme.Operator
import SqlScript.Lexeme.Phrase

/-!
# Lexeme/Read — the word a text begins with

The first character and the one behind it settle what kind of word comes (`Opening.of`); each kind
has its own way to find its end.  Reading is total: `read_divides` says that the word read is not
empty and that it and the rest make up the text.
-/

namespace SqlScript.Lexeme

/-! ## What a text opens with -/

/-- The kinds of words that the first two characters of a text tell apart. -/
inductive Opening where
  /-- A string literal behind the mark `N` of national text. -/
  | nationalString
  /-- A string literal. -/
  | string
  /-- A name that ends at the given mark. -/
  | delimited (close : Char)
  /-- A plain name or a keyword. -/
  | name
  | number
  | lineComment
  | blockComment
  /-- A symbol, or no word at all. -/
  | operator
  deriving DecidableEq

/-- The kind of word that `c` opens when `next` is the character behind it. -/
def Opening.of (c : Char) (next : Option Char) : Opening :=
  if (c = 'N' ∨ c = 'n') ∧ next = some Text.singleQuote then nationalString
  else if c = '[' then delimited ']'
  else if c = Text.doubleQuote then delimited Text.doubleQuote
  else if isNameStart c then name
  else if c.isDigit then number
  else if (c = '.' ∨ isSign c) ∧ next.any Char.isDigit then number
  else if c = '-' ∧ next = some '-' then lineComment
  else if c = '/' ∧ next = some '*' then blockComment
  else if c = Text.singleQuote then string
  else operator

/-! ## The kinds of words -/

/-- A text behind `front` that ends where `close` says, or does not end. -/
def closed (token : Token) (fault : LexicalFault) (front cs : List Char)
    (close : List Char → Option (List Char × List Char)) : Lexeme :=
  match close cs with
  | some (body, rest) => plain token (front ++ body) rest
  | none => unclosed fault (front ++ cs)

theorem closed_divides (token : Token) (fault : LexicalFault) {front cs : List Char}
    {close : List Char → Option (List Char × List Char)} (hne : front ≠ [])
    (happ : ∀ {as bs}, close cs = some (as, bs) → as ++ bs = cs) :
    (closed token fault front cs close).Divides (front ++ cs) := by
  unfold closed
  split
  · next body rest h => exact ⟨by simp [hne], by simp [happ h]⟩
  · exact ⟨by simp [hne], by simp⟩

/-- A number is an integer unless there is a point in it. -/
def numberToken (text : List Char) : Token := if text.contains '.' then .float else .int

/-- The number that `c` opens. -/
def readNumber (c : Char) (cs : List Char) : Lexeme :=
  plain (numberToken (c :: (splitNumber false cs).1)) (c :: (splitNumber false cs).1)
    (splitNumber false cs).2

/-- The line comment that `c` opens. -/
def readLine (c : Char) (cs : List Char) : Lexeme :=
  plain .comment (c :: (splitLine cs).1) (splitLine cs).2

/-- A single character that makes a word, or none. -/
def readChar (c : Char) (cs : List Char) : Lexeme :=
  match Symbol.ofChar? c with
  | some s => plain (.symbol s) [c] cs
  | none => ⟨.illegal, [c], [c], cs, some (.illegalCharacter c)⟩

/-- The symbol that `c` opens, of two characters if the next one fits. -/
def readOperator (c : Char) : List Char → Lexeme
  | [] => readChar c []
  | d :: ds =>
    match Symbol.ofPair? c d with
    | some s => plain (.symbol s) [c, d] ds
    | none => readChar c (d :: ds)

/-! ## Reading -/

/-- **The word that a text begins with**, where the text opens with `c` and `c` is no white
space. -/
def read (c : Char) (cs : List Char) : Lexeme :=
  match Opening.of c cs.head? with
  | .nationalString => closed .string .unterminatedString (c :: cs.take 1) (cs.drop 1) closeString
  | .string => closed .string .unterminatedString [c] cs closeString
  | .delimited mark => closed .ident .unterminatedIdentifier [c] cs (closeName mark)
  | .name => ofName (c :: (splitName cs).1) (splitName cs).2
  | .number => readNumber c cs
  | .lineComment => readLine c cs
  | .blockComment =>
    closed .comment .unterminatedComment (c :: cs.take 1) (cs.drop 1) (closeComment 0)
  | .operator => readOperator c cs

theorem readChar_divides (c : Char) (cs : List Char) : (readChar c cs).Divides (c :: cs) := by
  unfold readChar
  split <;> exact ⟨by simp, by simp⟩

theorem readOperator_divides (c : Char) (cs : List Char) :
    (readOperator c cs).Divides (c :: cs) := by
  unfold readOperator
  split
  · exact readChar_divides c []
  · split
    · exact ⟨by simp, by simp⟩
    · exact readChar_divides c _

/-- **Reading divides the text**: the word is not empty, and nothing is lost. -/
theorem read_divides (c : Char) (cs : List Char) : (read c cs).Divides (c :: cs) := by
  have hopen : (c :: cs.take 1) ++ cs.drop 1 = c :: cs := by
    rw [List.cons_append, List.take_append_drop]
  unfold read
  split
  · rw [← hopen]
    exact closed_divides _ _ (by simp) append_of_closeString
  · exact closed_divides _ _ (List.cons_ne_nil c []) append_of_closeString
  · exact closed_divides _ _ (List.cons_ne_nil c []) append_of_closeName
  · have := ofName_divides (List.cons_ne_nil c (splitName cs).1) (splitName cs).2
    rwa [List.cons_append, splitName_append] at this
  · exact ⟨by simp [readNumber], by simp [readNumber, splitNumber_append]⟩
  · exact ⟨by simp [readLine], by simp [readLine, splitLine, List.takeWhile_append_dropWhile]⟩
  · rw [← hopen]
    exact closed_divides _ _ (by simp) fun h => (append_of_closeComment h).2
  · exact readOperator_divides c cs

end SqlScript.Lexeme
