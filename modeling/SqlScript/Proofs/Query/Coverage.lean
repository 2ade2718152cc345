import SqlScript.Proofs.Query.Carried
import SqlScript.Proofs.Query.Level
import SqlScript.Proofs.Query.Visible
import SqlScript.Script.Outline

/-!
# Query/Coverage — the ranges of queries cover every `SELECT` of a script, once

The search for statements lays the words of a script out in stretches: words that are passed over,
none of them `SELECT`, and queries, each from its `SELECT` up to where it stopped reading, with no
end of a statement inside (`Search`).  A query does not read past such an end since it could not
tell it from the end of the script (`query_confined`).  Everything about the ranges of queries is
read off that layout: they are in order and apart from each other, and between them there is no
`SELECT` (`Outline.covers_parse`).
-/

namespace SqlScript

/-- **A range of the words of a script that holds one statement.** -/
structure WordRange.HoldsStatement (words : List Word) (r : WordRange) : Prop where
  /-- It has a word and lies within the script. -/
  nonempty : r.start < r.stop
  bounded : r.stop ≤ words.length
  /-- It starts at the keyword… -/
  opens : ∃ w, words[r.start]? = some w ∧ w.token = .keyword .SELECT
  /-- …contains no terminator… -/
  confined : ∀ i w, r.start ≤ i → i < r.stop → words[i]? = some w →
    w.token ≠ .symbol .semicolon ∧ w.token ≠ .keyword .GO
  /-- …and stops at the end of the script or at a word that is no comment. -/
  stops : r.stop = words.length ∨ ∃ w, words[r.stop]? = some w ∧ w.isComment = false

/-- **Queries that cover every `SELECT` of a script, once.** -/
structure Covers (words : List Word) (queries : List Query) : Prop where
  statement : ∀ q ∈ queries, q.range.HoldsStatement words
  /-- Ranges are in order and do not overlap. -/
  ordered : queries.Pairwise fun q q' => q.range.stop ≤ q'.range.start
  /-- Every `SELECT` lies in the range of exactly one query. -/
  covered : ∀ i w, words[i]? = some w → w.token = .keyword .SELECT →
    ∃ q, queries.filter (fun q => q.range.start ≤ i ∧ i < q.range.stop) = [q]

namespace Grammar

/-! ## A query stays inside its statement -/

/-- Behind the words in front of the first end there is an end. -/
theorem endsStatement_dropWhile (ws : List Placed) :
    (frontToken (ws.dropWhile (!·.token.endsStatement))).endsStatement = true := by
  induction ws with
  | nil => rfl
  | cons p ps ih =>
    rw [List.dropWhile_cons]
    split
    · exact ih
    · next h =>
      show p.token.endsStatement = true
      simpa using h

/-- **A query reads no end of a statement.**  Up to the first of them the words could be the whole
script: what follows is a setting, into which the reading is carried. -/
theorem query_confined (size start : Nat) (ws : List Placed) :
    ∃ front, ws = front ++ (query size start ws).rest ∧
      ∀ p ∈ front, p.token.endsStatement = false := by
  let inside := ws.takeWhile (!·.token.endsStatement)
  let s : Setting :=
    { tail := ws.dropWhile (!·.token.endsStatement), ends := endsStatement_dropWhile ws }
  have hplace : s.place inside = ws := by
    rw [s.place_of_id rfl, List.takeWhile_append_dropWhile]
  have hsize : offset size s.tail = s.index (offset size s.tail) := rfl
  have hcarried : query size start (s.place inside) = _ := carries_query hsize start inside
  rw [hplace] at hcarried
  obtain ⟨front, hfront⟩ := forward_query (offset size s.tail) start inside
  refine ⟨front, ?_, fun p hp => ?_⟩
  · rw [hcarried]
    show ws = front ++ s.place (query (offset size s.tail) start inside).rest
    rw [s.place_of_id rfl, ← List.append_assoc, hfront, List.takeWhile_append_dropWhile]
  · have hmem : p ∈ inside := hfront ▸ List.mem_append_left _ hp
    simpa using List.all_eq_true.mp List.all_takeWhile p hmem

/-- The range of a query runs from `start` to where a parser stops. -/
def RangesFrom (size start : Nat) (p : Parse Query) : Prop :=
  ∀ ws, (p ws).value.range = ⟨start, offset size (p ws).rest⟩

theorem rangesFrom_bind {α : Type} {size start : Nat} {p : Parse α} {f : α → Parse Query}
    (hf : ∀ a, RangesFrom size start (f a)) : RangesFrom size start (p >>= f) :=
  fun ws => hf (p ws).value (p ws).rest

/-- **A query ranges over the words it reads.** -/
theorem rangesFrom_query (size start : Nat) : RangesFrom size start (query size start) :=
  rangesFrom_bind fun _ => rangesFrom_bind fun _ => rangesFrom_bind fun _ =>
    rangesFrom_bind fun _ => rangesFrom_bind fun _ => rangesFrom_bind fun _ =>
      rangesFrom_bind fun _ => rangesFrom_bind fun _ => rangesFrom_bind fun _ =>
        rangesFrom_bind fun _ _ => rfl

/-! ## The layout of a search -/

/-- **How a search goes through words and which queries it finds.**  It passes a word that is not
`SELECT`, or it finds a query, which reads no end of a statement and closes the parentheses it opens
unless it stops at one, and goes on behind it. -/
inductive Search (size : Nat) : List Placed → List Query → Prop
  | nil : Search size [] []
  | pass {p : Placed} {ps : List Placed} {qs : List Query} (hp : p.token ≠ .keyword .SELECT)
      (h : Search size ps qs) : Search size (p :: ps) qs
  | find {p : Placed} {front rest : List Placed} {q : Query} {qs : List Query}
      (hp : p.token = .keyword .SELECT) (hfront : ∀ x ∈ front, x.token.endsStatement = false)
      (hlevel : Level front ∨ (frontToken rest).endsStatement = true)
      (hq : q.range = ⟨p.index, offset size rest⟩) (h : Search size rest qs) :
      Search size (p :: (front ++ rest)) (q :: qs)

/-- **The statements of a script are found by such a search.** -/
theorem search_statements (size : Nat) (ws : List Placed) :
    Search size ws (statements size ws).value := by
  fun_induction statements size ws with
  | case1 => exact .nil
  | case2 p ps hselect found more ih =>
    obtain ⟨front, hfront, hconfined⟩ := query_confined size p.index ps
    obtain ⟨front', hfront', hlevel⟩ := levels_query size p.index ps
    obtain rfl : front' = front := List.append_cancel_right (hfront'.trans hfront)
    have hrange := rangesFrom_query size p.index ps
    have hsearch := Search.find hselect hconfined hlevel hrange ih
    rwa [← hfront] at hsearch
  | case3 p ps hselect ih => exact .pass hselect ih

namespace Search

variable {size : Nat} {ws : List Placed} {qs : List Query}

/-- The words of a query that was found, and what is left behind it. -/
theorem exists_of_mem (h : Search size ws qs) {q : Query} (hq : q ∈ qs) :
    ∃ p front rest, p :: (front ++ rest) <:+ ws ∧ p.token = .keyword .SELECT ∧
      (∀ x ∈ front, x.token.endsStatement = false) ∧ q.range = ⟨p.index, offset size rest⟩ := by
  induction h with
  | nil => exact absurd hq List.not_mem_nil
  | pass hp _ ih =>
    obtain ⟨p, front, rest, hsuffix, hfound⟩ := ih hq
    exact ⟨p, front, rest, hsuffix.trans (List.suffix_cons _ _), hfound⟩
  | @find p front rest q' qs hp hfront _ hrange _ ih =>
    rcases List.mem_cons.mp hq with rfl | hmem
    · exact ⟨p, front, rest, List.suffix_refl _, hp, hfront, hrange⟩
    · obtain ⟨p', front', rest', hsuffix, hfound⟩ := ih hmem
      have hrest : rest <:+ p :: (front ++ rest) :=
        (List.suffix_append front rest).trans (List.suffix_cons p _)
      exact ⟨p', front', rest', hsuffix.trans hrest, hfound⟩

section Sorted

variable (h : Search size ws qs) (hsorted : ws.Pairwise fun p q => p.index < q.index)
  (hsize : ∀ p ∈ ws, p.index < size)

include h hsorted

/-- Queries start no earlier than the words they are found in. -/
theorem offset_le_start : ∀ q ∈ qs, offset size ws ≤ q.range.start := by
  intro q hq
  obtain ⟨p, front, rest, hsuffix, -, -, hrange⟩ := h.exists_of_mem hq
  rw [hrange]
  exact offset_le_index hsorted (hsuffix.subset List.mem_cons_self)

/-- **Queries are found in order.** -/
theorem pairwise_range : qs.Pairwise fun q q' => q.range.stop ≤ q'.range.start := by
  induction h with
  | nil => exact .nil
  | pass hp _ ih => exact ih (List.pairwise_cons.mp hsorted).2
  | @find p front rest q qs hp hfront _ hrange h ih =>
    have hrest := (List.pairwise_append.mp (List.pairwise_cons.mp hsorted).2).2.1
    refine List.pairwise_cons.mpr ⟨fun q' hq' => ?_, ih hrest⟩
    rw [hrange]
    exact h.offset_le_start hrest q' hq'

include hsize

/-- **Every `SELECT` that was searched is in exactly one range.** -/
theorem exists_filter_eq {x : Placed} (hx : x ∈ ws) (hselect : x.token = .keyword .SELECT) :
    ∃ q, qs.filter (fun q => q.range.start ≤ x.index ∧ x.index < q.range.stop) = [q] := by
  induction h with
  | nil => exact absurd hx List.not_mem_nil
  | pass hp _ ih =>
    have hps : x ∈ _ := (List.mem_cons.mp hx).resolve_left fun h => hp (h ▸ hselect)
    exact ih (List.pairwise_cons.mp hsorted).2 (fun p hp => hsize p (List.mem_cons_of_mem _ hp)) hps
  | @find p front rest q qs hp hfront _ hrange h ih =>
    have hrest := (List.pairwise_append.mp (List.pairwise_cons.mp hsorted).2).2.1
    rcases List.mem_append.mp (show x ∈ (p :: front) ++ rest from hx) with hmem | hmem
    · -- Inside the query: later ones start behind it.
      have hstart : offset size (p :: (front ++ rest)) ≤ x.index := offset_le_index hsorted hx
      have hstop : x.index < offset size rest := by
        rw [← List.cons_append] at hsorted hsize
        exact index_lt_offset hsorted hsize hmem
      refine ⟨q, ?_⟩
      rw [List.filter_cons_of_pos (by simpa [hrange] using ⟨hstart, hstop⟩)]
      refine congrArg (q :: ·) (List.filter_eq_nil_iff.mpr fun q' hq' => ?_)
      have hlater := h.offset_le_start hrest q' hq'
      simp only [decide_eq_true_eq, not_and]
      omega
    · -- Behind the query: its range ends in front of what is left.
      have hstop : offset size rest ≤ x.index := offset_le_index hrest hmem
      rw [List.filter_cons_of_neg (by simp [hrange, hstop])]
      exact ih hrest (fun p hp => hsize p (List.mem_append_right (_ :: _) hp)) hmem

end Sorted

end Search

/-! ## The script as a whole -/

/-- The range of a query among the visible words of a script holds one statement. -/
theorem holdsStatement_of_suffix {words : List Word} {p : Placed} {front rest : List Placed}
    (hsuffix : p :: (front ++ rest) <:+ Placed.visible words)
    (hselect : p.token = .keyword .SELECT) (hfront : ∀ x ∈ front, x.token.endsStatement = false) :
    WordRange.HoldsStatement words ⟨p.index, offset words.length rest⟩ := by
  have hmem : ∀ x ∈ p :: front ++ rest, x ∈ Placed.visible words := fun x hx => hsuffix.subset hx
  have hsize : ∀ x ∈ p :: front ++ rest, x.index < words.length :=
    fun x hx => index_lt_of_mem_visible (hmem x hx)
  have hsorted := (pairwise_visible words).sublist hsuffix.sublist
  rw [← List.cons_append] at hsorted
  constructor
  case nonempty => exact index_lt_offset hsorted hsize List.mem_cons_self
  case bounded =>
    cases rest with
    | nil => exact Nat.le_refl _
    | cons x xs => exact Nat.le_of_lt (hsize x (List.mem_append_right _ List.mem_cons_self))
  case opens => exact ⟨p.word, (mem_visible_iff.mp (hmem p List.mem_cons_self)).1, hselect⟩
  case confined =>
    intro i w hstart hstop hw
    -- A terminator is visible, so it would be among the words the query reads.
    have hread : WordRange.visible ⟨p.index, offset words.length rest⟩ words = p :: front :=
      Session.Over.visible_range (s := ⟨words.length, p :: (front ++ rest), []⟩) ⟨rfl, hsuffix⟩ rfl
    have hends : w.isComment = false → w.token.endsStatement = false := by
      intro hcomment
      have hvisible : ⟨i, w⟩ ∈ WordRange.visible ⟨p.index, offset words.length rest⟩ words :=
        List.mem_filter.mpr ⟨mem_visible_iff.mpr ⟨hw, hcomment⟩, by simp [hstart, hstop]⟩
      rw [hread] at hvisible
      rcases List.mem_cons.mp hvisible with rfl | hx
      · rw [show w.token = .keyword .SELECT from hselect]
        rfl
      · exact hfront _ hx
    constructor <;> intro htoken <;> simp [Word.isComment, htoken, Token.endsStatement] at hends
  case stops =>
    cases rest with
    | nil => exact .inl rfl
    | cons x xs =>
      exact .inr ⟨x.word, mem_visible_iff.mp (hmem x (List.mem_append_right _ List.mem_cons_self))⟩

end Grammar

/-- **The queries of a script cover its `SELECT`s**: their ranges each hold one statement, in order
and apart from each other, and every `SELECT` of the script lies in exactly one of them. -/
theorem Outline.covers_parse (name source : String) :
    Covers (parse name source).script.words (parse name source).queries := by
  generalize hwords : (parse name source).script.words = words
  have hsearch : Grammar.Search words.length (Placed.visible words) (parse name source).queries :=
    hwords ▸ Grammar.search_statements _ _
  constructor
  case statement =>
    intro q hq
    obtain ⟨p, front, rest, hsuffix, hselect, hfront, hrange⟩ := hsearch.exists_of_mem hq
    rw [hrange]
    exact Grammar.holdsStatement_of_suffix hsuffix hselect hfront
  case ordered => exact hsearch.pairwise_range (pairwise_visible words)
  case covered =>
    intro i w hw hselect
    have hcomment : w.isComment = false := by simp [Word.isComment, hselect]
    have hvisible : ⟨i, w⟩ ∈ Placed.visible words := mem_visible_iff.mpr ⟨hw, hcomment⟩
    exact hsearch.exists_filter_eq (pairwise_visible words)
      (fun p hp => index_lt_of_mem_visible hp) hvisible hselect

end SqlScript
