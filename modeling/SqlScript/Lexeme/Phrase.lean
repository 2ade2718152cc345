import SqlScript.Lexeme.Basic
import SqlScript.Lexeme.Comment
import SqlScript.Token.Reserved

/-!
# Lexeme/Phrase — names, keywords and keywords of two words

A run of name characters is a keyword, an aggregate or an identifier.  A run that can open a phrase
is fused with the next run if the two spell a keyword, with white space and comments between them;
otherwise it stands for itself and the text behind it is read as if nothing had been tried.
-/

namespace SqlScript.Lexeme

/-- The name characters at the front of a text, and what follows. -/
def splitName (cs : List Char) : List Char × List Char :=
  (cs.takeWhile isNameChar, cs.dropWhile isNameChar)

theorem splitName_append (cs : List Char) : (splitName cs).1 ++ (splitName cs).2 = cs :=
  List.takeWhile_append_dropWhile

/-- The lexeme of a keyword of two words, with the trivia between them. -/
def phrase (k : Keyword) (head trivia name rest : List Char) : Lexeme :=
  ⟨.keyword k, head ++ trivia ++ name, head ++ ' ' :: name, rest, none⟩

/-- The phrase that `head` makes with a name behind `trivia`, if the two spell a keyword. -/
def fuseAcross? (head trivia : List Char) : List Char → Option Lexeme
  | [] => none
  | c :: cs =>
    if isNameStart c then
      (Token.keyword? (String.ofList (head ++ ' ' :: (splitName (c :: cs)).1))).map fun k =>
        phrase k head trivia (splitName (c :: cs)).1 (splitName (c :: cs)).2
    else none

/-- The keyword of two words that `head` opens, if the text behind it completes one. -/
def fuse? (head rest : List Char) : Option Lexeme :=
  if (Token.phraseRemainder? (String.ofList head)).isSome then
    fuseAcross? head (splitTrivia rest).1 (splitTrivia rest).2
  else none

/-- The word that the name `head` and the text behind it begin with. -/
def ofName (head rest : List Char) : Lexeme :=
  (fuse? head rest).getD (plain (Token.ofWord (String.ofList head)) head rest)

/-- **A fused keyword is its head, the trivia behind it and the next name.** -/
theorem eq_phrase_of_fuse? {head rest : List Char} {l : Lexeme} (h : fuse? head rest = some l) :
    ∃ k after, l = phrase k head (splitTrivia rest).1 (splitName after).1 (splitName after).2 ∧
      after = (splitTrivia rest).2 := by
  unfold fuse? at h
  split at h
  · unfold fuseAcross? at h
    split at h
    · exact absurd h (by simp)
    · next c cs hrest =>
      split at h
      · obtain ⟨k, _, rfl⟩ := Option.map_eq_some_iff.mp h
        exact ⟨k, c :: cs, rfl, hrest.symm⟩
      · exact absurd h (by simp)
  · exact absurd h (by simp)

theorem ofName_divides {head : List Char} (hne : head ≠ []) (rest : List Char) :
    (ofName head rest).Divides (head ++ rest) := by
  unfold ofName
  cases hfuse : fuse? head rest with
  | none => exact ⟨hne, rfl⟩
  | some l =>
    obtain ⟨k, after, rfl, hafter⟩ := eq_phrase_of_fuse? hfuse
    refine ⟨by simp [phrase, hne], ?_⟩
    simp only [phrase, Option.getD_some, List.append_assoc, splitName_append, hafter,
      splitTrivia_append]

end SqlScript.Lexeme
