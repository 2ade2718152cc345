import SqlScript.Casing
import SqlScript.Proofs.Lexeme.Lookahead
import SqlScript.Proofs.Lexeme.Literal
import SqlScript.Proofs.Script.Tiling

/-!
# Proofs/Script/Keywords — a name is a keyword exactly if it is spelled like one

    text                 literal         capitals        token
    group /* 1 */ By ──▸ group By   ──▸  GROUP BY   ◂──▸ GROUP_BY

The two tables, the spellings and the listing of tokens are written one apart from the other.  They
say the same: a table gives a token exactly if the token lies in the band of the table and is
spelled like the text in capitals (`asKeyword_eq_iff`, `asAggregate_eq_iff`).  No aggregate is
spelled like a keyword, so looking in one table and then in the other loses nothing
(`ofWord_eq_iff`).

In a script a plain name is looked up alone, or with the name behind it as a phrase; either way its
literal spells the token it gets, and a name that stays an identifier spells none (`told_read`).  A
name of one character is too short for any keyword, looked up or not (`ofName_of_length_le_one`).
-/

namespace SqlScript

open SqlScript.Text

namespace Token

/-! ## Bands -/

/-- A token that stands from `first` to `last` in the listing of tokens. -/
def InBand (t first last : Token) : Prop :=
  first.ordinal ≤ t.ordinal ∧ t.ordinal ≤ last.ordinal

instance (t first last : Token) : Decidable (t.InBand first last) :=
  inferInstanceAs (Decidable (_ ∧ _))

/-- The band of keywords, which takes in the aggregates. -/
def InKeywords (t : Token) : Prop := t.InBand (keyword .SELECT) (keyword .SOME)

/-- The band of aggregates. -/
def InAggregates (t : Token) : Prop := t.InBand (aggregate .SUM) (aggregate .RECOMPILE)

instance (t : Token) : Decidable t.InKeywords := inferInstanceAs (Decidable (t.InBand _ _))

instance (t : Token) : Decidable t.InAggregates := inferInstanceAs (Decidable (t.InBand _ _))

/-- **The keywords and the aggregates make up the band of keywords.** -/
theorem inKeywords_iff {t : Token} : t.InKeywords ↔ t.isKeyword = true := by
  have hall : ∀ t ∈ all, t.InKeywords ↔ t.isKeyword = true := by decide +kernel
  exact hall t (mem_all t)

theorem inAggregates_iff {t : Token} : t.InAggregates ↔ t.isAggregate = true := by
  have hall : ∀ t ∈ all, t.InAggregates ↔ t.isAggregate = true := by decide +kernel
  exact hall t (mem_all t)

/-! ## Tables -/

/-- What the table of keywords makes of a text: an identifier if it has no keyword for it. -/
def asKeyword (text : String) : Token := ((keyword? text).map keyword).getD ident

/-- What the table of aggregates makes of a text: an identifier if it has none for it. -/
def asAggregate (text : String) : Token := ((aggregate? text).map aggregate).getD ident

/-- A plain word is looked up among the keywords, and then among the aggregates. -/
theorem ofWord_eq_ite (text : String) :
    ofWord text = if asKeyword text = ident then asAggregate text else asKeyword text := by
  unfold ofWord asKeyword asAggregate
  cases keyword? text with
  | some k => rfl
  | none => cases aggregate? text <;> rfl

/-- What is no identifier was found in a table. -/
theorem getD_map_eq_iff {α : Type} {found : Option α} {make : α → Token} {t : Token}
    (ht : t ≠ ident) : (found.map make).getD ident = t ↔ ∃ a, found = some a ∧ make a = t := by
  cases found with
  | none => simpa using ht.symm
  | some a => simp

/-- **Among keywords a text is found where it is spelled.** -/
theorem asKeyword_eq_iff {text : String} {t : Token} (ht : t ≠ ident) :
    asKeyword text = t ↔ t.InKeywords ∧ ¬ t.InAggregates ∧ upper text = t.spelling := by
  rw [asKeyword, getD_map_eq_iff ht, inKeywords_iff, inAggregates_iff]
  constructor
  · rintro ⟨k, hk, rfl⟩
    exact ⟨rfl, Bool.false_ne_true, (keyword?_eq_some_iff.mp hk).symm⟩
  · rintro ⟨hkeyword, haggregate, hspelling⟩
    cases t with
    | keyword k => exact ⟨k, keyword?_eq_some_iff.mpr hspelling.symm, rfl⟩
    | aggregate a => exact absurd rfl haggregate
    | _ => cases hkeyword

/-- **Among aggregates a text is found where it is spelled.** -/
theorem asAggregate_eq_iff {text : String} {t : Token} (ht : t ≠ ident) :
    asAggregate text = t ↔ t.InAggregates ∧ upper text = t.spelling := by
  rw [asAggregate, getD_map_eq_iff ht, inAggregates_iff]
  constructor
  · rintro ⟨a, ha, rfl⟩
    exact ⟨rfl, (aggregate?_eq_some_iff.mp ha).symm⟩
  · rintro ⟨haggregate, hspelling⟩
    cases t with
    | aggregate a => exact ⟨a, aggregate?_eq_some_iff.mpr hspelling.symm, rfl⟩
    | _ => cases haggregate

/-- No aggregate is spelled like a keyword. -/
theorem asKeyword_of_inAggregates {text : String} {t : Token} (ht : t.InAggregates)
    (h : upper text = t.spelling) : asKeyword text = ident := by
  have hall : ∀ a ∈ Aggregate.all, keywordTable.lookup a.spelling = none := by decide +kernel
  rw [inAggregates_iff] at ht
  cases t with
  | aggregate a =>
    have hnone : keywordTable.lookup (aggregate a).spelling = none := hall a (Aggregate.mem_all a)
    rw [asKeyword, keyword?, h, hnone]
    rfl
  | _ => cases ht

/-- **A plain word is the keyword or the aggregate that it spells.** -/
theorem ofWord_eq_iff {text : String} {t : Token} (ht : t.InKeywords) :
    ofWord text = t ↔ upper text = t.spelling := by
  have hne : t ≠ ident := by
    rintro rfl
    exact absurd (inKeywords_iff.mp ht) Bool.false_ne_true
  rw [ofWord_eq_ite]
  split
  · next hnone =>
    rw [asAggregate_eq_iff hne, and_iff_right_iff_imp]
    intro hspelling
    -- otherwise the first table would have had it
    refine Decidable.byContradiction fun haggregate => hne ?_
    exact ((asKeyword_eq_iff hne).mpr ⟨ht, haggregate, hspelling⟩).symm.trans hnone
  · next hsome =>
    rw [asKeyword_eq_iff hne]
    exact ⟨fun h => h.2.2,
      fun h => ⟨ht, fun haggregate => hsome (asKeyword_of_inAggregates haggregate h), h⟩⟩

/-- A text of one character spells no keyword. -/
theorem ofWord_of_length_le_one {text : String} (h : text.toList.length ≤ 1) :
    ofWord text = ident := by
  have hall : ∀ t ∈ all, t.isKeyword = true → 1 < t.spelling.toList.length := by decide +kernel
  have hmakes := Lexeme.makes_ofWord text
  rcases Bool.or_eq_true_iff.mp hmakes with hident | hkeyword
  · exact beq_iff_eq.mp hident
  · have hlength := hall _ (mem_all _) hkeyword
    rw [← (ofWord_eq_iff (inKeywords_iff.mpr hkeyword)).mp rfl, toList_upper,
      List.length_map] at hlength
    exact absurd h (Nat.not_le_of_lt hlength)

end Token

/-! ## Words -/

namespace Lexeme

/-- **A word is told by its literal**: a keyword is spelled by it, and a plain identifier is what no
keyword is spelled like. -/
structure Told (token : Token) (literal : String) : Prop where
  spelled : token.InKeywords → upper literal = token.spelling
  other : token = .ident → Casing.isUndelimited literal.toList = true →
    ∀ t : Token, t.InKeywords → upper literal ≠ t.spelling

/-- A name on its own is told. -/
theorem told_ofWord (text : String) : Told (Token.ofWord text) text where
  spelled h := (Token.ofWord_eq_iff h).mp rfl
  other hident _ t ht hspelling := by
    rw [(Token.ofWord_eq_iff ht).mpr hspelling] at hident
    rw [hident, Token.inKeywords_iff] at ht
    cases ht

/-- A name is told, alone or with the name behind it. -/
theorem told_ofName (head rest : List Char) :
    Told (ofName head rest).token (String.ofList (ofName head rest).literal) := by
  unfold ofName
  cases hfuse : fuse? head rest with
  | none => exact told_ofWord (String.ofList head)
  | some l =>
    obtain ⟨c, cs, k, -, -, hk, rfl⟩ := exists_of_fuse? hfuse
    exact ⟨fun _ => (Token.keyword?_eq_some_iff.mp hk).symm, fun h => nomatch h⟩

/-- A name of one character is an identifier, whatever follows. -/
theorem ofName_of_length_le_one {head : List Char} (h : head.length ≤ 1) (rest : List Char) :
    ofName head rest = plain .ident head rest := by
  have hheads : ∀ head ∈ Token.phraseHeads, 1 < head.toList.length := by decide
  have hopens : upper (String.ofList head) ∉ Token.phraseHeads := by
    intro hmem
    have hlength := hheads _ hmem
    rw [toList_upper, List.length_map, String.toList_ofList] at hlength
    exact absurd h (Nat.not_le_of_lt hlength)
  have hfuse : fuse? head rest = none := by
    simp [fuse?, Token.phraseRemainder?, hopens]
  rw [ofName, hfuse, Option.getD_none, Token.ofWord_of_length_le_one]
  rwa [String.toList_ofList]

/-- **Keywords and plain identifiers are names.** -/
theorem opening_eq_name {c : Char} {cs : List Char}
    (h : (read c cs).token.isKeyword = true ∨
      (read c cs).token = .ident ∧ Casing.isUndelimited (read c cs).literal = true) :
    Opening.of c cs.head? = .name := by
  have hmakes := makes_read c cs
  rcases h with hkeyword | ⟨hident, hplain⟩
  · exact eq_name_of_makes hmakes hkeyword
  · rw [hident] at hmakes
    have hshows := shows_of c cs.head?
    cases hkind : Opening.of c cs.head? with
    | name => rfl
    | delimited mark =>
      -- the literal would open with a bracket or a quote
      obtain ⟨front, htext, -⟩ := text_read_eq_cons c cs
      rw [literal_read c cs (by rw [hident]; rfl), htext] at hplain
      rw [hkind] at hshows
      rcases hshows with ⟨rfl, -⟩ | ⟨rfl, -⟩ <;> cases hplain
    | _ =>
      rw [hkind] at hmakes
      cases hmakes

/-- **Every word read is told by its literal.** -/
theorem told_read (c : Char) (cs : List Char) :
    Told (read c cs).token (String.ofList (read c cs).literal) := by
  have hname : Opening.of c cs.head? = .name →
      Told (read c cs).token (String.ofList (read c cs).literal) := by
    intro hkind
    simp only [read, hkind]
    exact told_ofName _ _
  refine ⟨fun h => ?_, fun hident hplain => ?_⟩
  · exact (hname (opening_eq_name (.inl (Token.inKeywords_iff.mp h)))).spelled h
  · rw [String.toList_ofList] at hplain
    exact (hname (opening_eq_name (.inr ⟨hident, hplain⟩))).other hident
      (by rwa [String.toList_ofList])

end Lexeme

/-! ## Scripts -/

namespace Script

/-- **The tables and the spellings are inverse to each other, and words are told by them.** -/
theorem keywords_scan :
    (∀ (text : String) (t : Token), t ≠ .ident →
      (Token.asKeyword text = t ↔
        t.InKeywords ∧ ¬ t.InAggregates ∧ upper text = t.spelling)) ∧
    (∀ (text : String) (t : Token), t ≠ .ident →
      (Token.asAggregate text = t ↔ t.InAggregates ∧ upper text = t.spelling)) ∧
    ∀ (name source : String), ∀ w ∈ (scan name source).words,
      (w.token.InKeywords → upper w.literal = w.token.spelling) ∧
      (w.token = .ident → Casing.isUndelimited w.literal.toList = true →
        ∀ t : Token, t.InKeywords → upper w.literal ≠ t.spelling) := by
  refine ⟨fun _ _ => Token.asKeyword_eq_iff, fun _ _ => Token.asAggregate_eq_iff,
    fun name source w hw => ?_⟩
  obtain ⟨c, cs, htoken, hliteral, -⟩ := exists_read hw
  have htold := Lexeme.told_read c cs
  rw [← htoken, ← hliteral] at htold
  exact ⟨htold.spelled, htold.other⟩

/-- A phrase around a comment, and a name that goes on behind a keyword. -/
theorem keywords_scan_mixed :
    let s := scan "q" "seLect [from], froms group /* 1 */ By"
    (∃ w ∈ s.words, w.token = .keyword .GROUP_BY ∧ upper w.literal = "GROUP BY") ∧
      ∃ w ∈ s.words, w.literal = "froms" ∧ w.token = .ident ∧
        ∀ t : Token, t.InKeywords → upper w.literal ≠ t.spelling := by
  intro s
  have hwords := keywords_scan.2.2 "q" "seLect [from], froms group /* 1 */ By"
  have hphrase : ∃ w ∈ s.words, w.token = .keyword .GROUP_BY := by decide +kernel
  have hname : ∃ w ∈ s.words, w.literal = "froms" ∧ w.token = .ident := by decide +kernel
  obtain ⟨w, hw, htoken⟩ := hphrase
  obtain ⟨v, hv, hliteral, hident⟩ := hname
  have hspelled := (hwords w hw).1
  have hplain : Casing.isUndelimited v.literal.toList = true := by
    rw [hliteral]
    decide
  rw [htoken] at hspelled
  exact ⟨⟨w, hw, htoken, hspelled (by decide +kernel)⟩, v, hv, hliteral, hident,
    (hwords v hv).2 hident hplain⟩

end Script

end SqlScript
