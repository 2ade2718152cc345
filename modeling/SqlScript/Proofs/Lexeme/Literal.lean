import SqlScript.Lexeme.Read

/-!
# Proofs/Lexeme/Literal — the literal of a word is its text, phrases apart

Only a keyword of two words is spelled otherwise than it stands in the text: its literal has a
single space where the text has trivia.  A keyword that is found is spelled like the text it was
looked up for, so one with a space in it is one of the four phrases, and every other word read has
its text as its literal (`literal_read`).
-/

namespace SqlScript

namespace Keyword

/-- The keywords of two words. -/
def isPhrase : Keyword → Bool
  | GROUP_BY | ORDER_BY | PARTITION_BY | FORCE_ORDER => true
  | _ => false

/-- Only phrases are spelled with a space. -/
theorem isPhrase_of_space_mem {k : Keyword} (h : ' ' ∈ k.spelling.toList) : k.isPhrase = true := by
  have hall : ∀ k ∈ all, ' ' ∈ k.spelling.toList → k.isPhrase = true := by decide
  exact hall k (mem_all k) h

end Keyword

namespace Token

/-- The token of a keyword of two words. -/
def isPhrase : Token → Bool
  | keyword k => k.isPhrase
  | _ => false

end Token

namespace Lexeme

/-- **What a fused keyword is**: a name behind the trivia completes the spelling of a keyword. -/
theorem exists_of_fuse? {head rest : List Char} {l : Lexeme} (h : fuse? head rest = some l) :
    ∃ c cs k, (splitTrivia rest).2 = c :: cs ∧ isNameStart c = true ∧
      Token.keyword? (String.ofList (head ++ ' ' :: (splitName (c :: cs)).1)) = some k ∧
      l = phrase k head (splitTrivia rest).1 (splitName (c :: cs)).1 (splitName (c :: cs)).2 := by
  unfold fuse? at h
  split at h
  · unfold fuseAcross? at h
    split at h
    · exact absurd h (by simp)
    · next c cs hrest =>
      split at h
      · next hstart =>
        obtain ⟨k, hk, rfl⟩ := Option.map_eq_some_iff.mp h
        exact ⟨c, cs, k, hrest, hstart, hk, rfl⟩
      · exact absurd h (by simp)
  · exact absurd h (by simp)

/-- A fused keyword is a phrase. -/
theorem isPhrase_of_fuse? {head rest : List Char} {l : Lexeme} (h : fuse? head rest = some l) :
    l.token.isPhrase = true := by
  obtain ⟨c, cs, k, -, -, hk, rfl⟩ := exists_of_fuse? h
  refine Keyword.isPhrase_of_space_mem ?_
  rw [Token.keyword?_eq_some_iff.mp hk, Text.toList_upper, String.toList_ofList]
  exact List.mem_map.mpr ⟨' ', by simp, rfl⟩

/-- A lexeme spelled as its text, or a phrase. -/
def Literal (l : Lexeme) : Prop := l.token.isPhrase = false → l.literal = l.text

theorem literal_plain (t : Token) (as bs : List Char) : (plain t as bs).Literal := fun _ => rfl

theorem literal_closed (token : Token) (fault : LexicalFault) (front cs : List Char)
    (close : List Char → Option (List Char × List Char)) :
    (closed token fault front cs close).Literal := by
  unfold closed
  split <;> exact fun _ => rfl

theorem literal_ofName (head rest : List Char) : (ofName head rest).Literal := by
  intro h
  unfold ofName at h ⊢
  cases hfuse : fuse? head rest with
  | none => rfl
  | some l =>
    rw [hfuse, Option.getD_some, isPhrase_of_fuse? hfuse] at h
    cases h

theorem literal_readChar (c : Char) (cs : List Char) : (readChar c cs).Literal := by
  unfold readChar
  split <;> exact fun _ => rfl

theorem literal_readOperator (c : Char) (cs : List Char) : (readOperator c cs).Literal := by
  unfold readOperator
  split
  · exact literal_readChar c []
  · split
    · exact literal_plain _ _ _
    · exact literal_readChar c _

/-- **A word is spelled as its text unless it is a phrase.** -/
theorem literal_read (c : Char) (cs : List Char) : (read c cs).Literal := by
  unfold read
  split
  case h_4 => exact literal_ofName _ _
  case h_5 | h_6 => exact literal_plain _ _ _
  case h_8 => exact literal_readOperator c cs
  all_goals exact literal_closed _ _ _ _ _

end Lexeme

end SqlScript
