import SqlScript.Proofs.Lexeme.Lookahead
import SqlScript.Proofs.Script.Tiling

/-!
# Proofs/Script/Retiling — tiles laid again in front of another text

The words of a text stay where they are when the text behind them is exchanged, as long as each of
them allows what then stands behind it.  So a row of tiles can be laid again from its end: in front
of a row that is laid already, one more tile is laid (`Tiling.exchange`).  What a name sees of the
row behind it is the first word that is no comment (`Tiling.nameBehind_eq`).
-/

namespace SqlScript

open SqlScript.Text

/-- The name that the first word of a row opens with, comments not counted. -/
def leadingName : List Tile → List Char
  | [] => []
  | t :: ts =>
    if t.lexeme.token = .comment then leadingName ts else Lexeme.frontName t.lexeme.text

/-- **A name in front of a row of tiles sees the first word that is no comment.** -/
theorem Tiling.nameBehind_eq {cs tail : List Char} {ts : List Tile} (h : Tiling cs ts tail) :
    Lexeme.nameBehind cs = leadingName ts := by
  induction h with
  | @tail cs h =>
    rw [← List.append_nil cs, Lexeme.nameBehind_append h]
    simp [Lexeme.nameBehind, Lexeme.frontName, leadingName]
  | @tile gap cs tail c ts hgap hc h ih =>
    rw [Lexeme.nameBehind_append hgap, leadingName]
    split
    · next hcomment => rw [Lexeme.nameBehind_of_comment hcomment, ih]
    · next hword => exact Lexeme.nameBehind_of_word hc hword

/-! ## Laying one more tile -/

/-- **A word is laid in front of a row that it allows.** -/
theorem Tiling.exchange {gap cs rest' tail' : List Char} {c : Char} {ts' : List Tile}
    (hgap : Blank gap) (hc : Lexeme.isSpace c = false)
    (hallows : (Lexeme.read c cs).Allows rest') (h : Tiling rest' ts' tail') :
    Tiling (gap ++ ((Lexeme.read c cs).text ++ rest'))
      (⟨gap, (Lexeme.read c cs).followedBy rest'⟩ :: ts') tail' := by
  obtain ⟨front, htext, -⟩ := Lexeme.text_read_eq_cons c cs
  have hread := Lexeme.read_exchange hallows
  rw [htext, List.tail_cons] at hread
  rw [htext, List.cons_append, ← hread]
  refine .tile hgap hc ?_
  rw [hread]
  exact h

/-- White space is laid in front of a row by widening its first gap. -/
theorem Tiling.exists_prepend {cs tail : List Char} {ts : List Tile} (h : Tiling cs ts tail)
    {blank : List Char} (hblank : Blank blank) :
    ∃ ts' tail', Tiling (blank ++ cs) ts' tail' ∧
      (∀ pos, scannedFrom pos ts' = scannedFrom (pos + width blank) ts) ∧
      leadingName ts' = leadingName ts := by
  cases h with
  | tail h =>
    exact ⟨[], blank ++ cs, .tail (List.forall_mem_append.mpr ⟨hblank, h⟩), fun _ => rfl, rfl⟩
  | @tile gap cs _ c ts hgap hc h =>
    refine ⟨⟨blank ++ gap, Lexeme.read c cs⟩ :: ts, tail, ?_, fun pos => ?_, rfl⟩
    · rw [← List.append_assoc]
      exact .tile (List.forall_mem_append.mpr ⟨hblank, hgap⟩) hc h
    · simp [scannedFrom, Tile.word, Tile.text, Nat.add_assoc]

/-! ## Laying one row behind another -/

/-- **Two rows of tiles are one**, with a line break between them, when every word of the first is
closed and the second does not open with a name, which a word of the first could look for. -/
theorem Tiling.exists_append {cs tail more tail' : List Char} {ts us : List Tile}
    (h : Tiling cs ts tail) (hclosed : ∀ t ∈ ts, t.lexeme.isUnclosed = false)
    (hmore : Tiling more us tail') (hname : leadingName us = []) :
    ∃ vs tail'', Tiling (cs ++ '\n' :: more) vs tail'' ∧ leadingName vs = leadingName ts ∧
      ∀ pos, scannedFrom pos vs = scannedFrom pos ts ++ scannedFrom (pos + width cs + 1) us := by
  induction h with
  | @tail cs h =>
    have hblank : Blank (cs ++ ['\n']) := List.forall_mem_append.mpr ⟨h, by simp; decide⟩
    obtain ⟨vs, tail'', htiling, hscan, hlead⟩ := hmore.exists_prepend hblank
    rw [List.append_assoc, List.singleton_append] at htiling
    refine ⟨vs, tail'', htiling, hlead.trans hname, fun pos => ?_⟩
    rw [hscan, width_append, ← Nat.add_assoc]
    rfl
  | @tile gap cs tail c ts hgap hc h ih =>
    rw [List.forall_mem_cons] at hclosed
    obtain ⟨vs, tail'', htiling, hlead, hscan⟩ := ih hclosed.2
    have hopens : ∀ rest : List Char, (rest ++ '\n' :: more).head? = rest.head? ∨
        (rest ++ '\n' :: more).head? = some '\n' := by
      rintro (_ | ⟨d, rest⟩)
      · exact .inr rfl
      · exact .inl rfl
    have hallows : (Lexeme.read c cs).Allows ((Lexeme.read c cs).rest ++ '\n' :: more) :=
      { opens := (hopens _).imp_right fun hbreak => ⟨_, hbreak, by decide, fun _ => by decide⟩
        name := by rw [htiling.nameBehind_eq, hlead, h.nameBehind_eq]
        unclosed := fun hunclosed => absurd hunclosed (by simp [hclosed.1]) }
    have htile := Tiling.exchange hgap hc hallows htiling
    rw [← List.append_assoc (Lexeme.read c cs).text, (Lexeme.read_divides c cs).2,
      ← List.append_assoc] at htile
    refine ⟨_, tail'', htile, ?_, fun pos => ?_⟩
    · simp only [leadingName, Lexeme.followedBy, hlead]
    · have hwidth : width (gap ++ c :: cs) =
          width (gap ++ (Lexeme.read c cs).text) + width (Lexeme.read c cs).rest := by
        rw [← width_append, List.append_assoc, (Lexeme.read_divides c cs).2]
      rw [scannedFrom, hscan, scannedFrom, hwidth, ← Nat.add_assoc]
      rfl

end SqlScript
