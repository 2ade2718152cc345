import SqlScript.Proofs.Query.Coverage

/-!
# Query/Slices — the runs of a query are slices of the script

A run remembers its words and the range they cover, and the two say the same: **the words of a run
are the words of the script in its range, less the comments** (`Expression.IsSlice`).  The pieces
that a query is cut into follow each other, so their ranges lie inside the range of the query and do
not overlap (`Pieces.within`, `Pieces.pairwise_range`).  None of this asks for a query without
faults: a run that is given up is in no query (`Outline.sliced_parse`).
-/

namespace SqlScript

/-- The words of a script in a range, comments included. -/
def WordRange.words (r : WordRange) (words : List Word) : List Word :=
  (words.drop r.start).take (r.stop - r.start)

/-- **A run that is an exact slice of the words of a script.** -/
structure Expression.IsSlice (words : List Word) (e : Expression) : Prop where
  nonempty : e.words ≠ []
  range_lt : e.range.start < e.range.stop
  /-- The range starts and ends with a word that is no comment. -/
  first : ∃ w, words[e.range.start]? = some w ∧ w.isComment = false
  last : ∃ w, words[e.range.stop - 1]? = some w ∧ w.isComment = false
  words_eq : e.words = (e.range.words words).filter (!·.isComment)

/-- **A query whose runs are slices of a script**, each within its range, one behind the other. -/
structure Query.Sliced (words : List Word) (q : Query) : Prop where
  slice : ∀ e ∈ q.expressions, e.IsSlice words
  within : ∀ e ∈ q.expressions, q.range.start ≤ e.range.start ∧ e.range.stop ≤ q.range.stop
  ordered : q.expressions.Pairwise fun e f => e.range.stop ≤ f.range.start

/-! ## The words of a range -/

/-- Words behind one more word are in a range where they are in the range moved down. -/
theorem filter_map_shift (start stop : Nat) (ws : List Word) :
    (((Placed.visible ws).map (Relabelling.shift 1).placed).filter fun p =>
        start ≤ p.index ∧ p.index < stop).map Placed.word =
      (WordRange.visible ⟨start - 1, stop - 1⟩ ws).map Placed.word := by
  rw [List.filter_map, List.map_map, WordRange.visible]
  refine congrArg (List.map _) (List.filter_congr fun p _ => decide_eq_decide.mpr ?_)
  show start ≤ p.index + 1 ∧ p.index + 1 < stop ↔ start - 1 ≤ p.index ∧ p.index < stop - 1
  omega

/-- **The visible words of a range are its words without the comments.** -/
theorem map_word_visible (start stop : Nat) (words : List Word) :
    (WordRange.visible ⟨start, stop⟩ words).map Placed.word =
      (WordRange.words ⟨start, stop⟩ words).filter (!·.isComment) := by
  induction words generalizing start stop with
  | nil => simp [WordRange.visible, WordRange.words, Placed.visible]
  | cons w ws ih =>
    rw [WordRange.visible, visible_cons, List.filter_append, List.map_append, filter_map_shift, ih]
    cases start with
    | zero => cases stop <;> cases hw : w.isComment <;> simp [WordRange.words, hw]
    | succ start => cases w.isComment <;> simp [WordRange.words, Nat.sub_sub, Nat.add_comm]

/-! ## Runs of sorted words -/

namespace Expression

/-- The range of a run that is not empty, by its first and its last word. -/
theorem range_eq {e : Expression} (he : e.items ≠ []) :
    e.range = ⟨(e.items.head he).index, (e.items.getLast he).index + 1⟩ := by
  rw [range, List.head?_eq_some_head he, List.getLast?_eq_some_getLast he]

/-- The words of a run in order have their indices in its range. -/
theorem mem_range {e : Expression} (hsorted : e.items.Pairwise fun p q => p.index < q.index)
    {p : Placed} (hp : p ∈ e.items) : e.range.start ≤ p.index ∧ p.index < e.range.stop := by
  have he : e.items ≠ [] := List.ne_nil_of_mem hp
  rw [range_eq he]
  constructor
  · obtain ⟨q, qs, hitems⟩ := List.exists_cons_of_ne_nil he
    have hle : Grammar.offset 0 e.items ≤ p.index := offset_le_index hsorted hp
    simpa [hitems, Grammar.offset] using hle
  · have hsplit := List.dropLast_concat_getLast he
    rw [← hsplit] at hp hsorted
    rcases List.mem_append.mp hp with hfront | hlast
    · exact Nat.lt_succ_of_lt ((List.pairwise_append.mp hsorted).2.2 p hfront _ (by simp))
    · rw [List.mem_singleton.mp hlast]
      exact Nat.lt_succ_self _

/-- **A stretch of the visible words of a script holds all visible words of its range.** -/
theorem visible_range_of_isInfix {words : List Word} {e : Expression} (he : e.items ≠ [])
    (h : e.items <:+: Placed.visible words) : e.range.visible words = e.items := by
  obtain ⟨front, behind, hsplit⟩ := h
  have hsorted := pairwise_visible words
  rw [← hsplit] at hsorted
  obtain ⟨hcovered, -, hbehind⟩ := List.pairwise_append.mp hsorted
  obtain ⟨-, hitems, hfront⟩ := List.pairwise_append.mp hcovered
  have hfirst := range_eq he
  rw [WordRange.visible, ← hsplit, List.filter_append, List.filter_append,
    List.filter_eq_nil_iff.mpr, List.filter_eq_self.mpr, List.filter_eq_nil_iff.mpr,
    List.nil_append, List.append_nil]
  · intro p hp
    have hlt := hbehind _ (List.mem_append_right front (List.getLast_mem he)) p hp
    simp only [hfirst, decide_eq_true_eq]
    omega
  · exact fun p hp => decide_eq_true (mem_range hitems hp)
  · intro p hp
    have hlt := hfront p hp _ (List.head_mem he)
    simp only [hfirst, decide_eq_true_eq]
    omega

/-- **A stretch of the visible words of a script is a slice of the script.** -/
theorem isSlice_of_isInfix {words : List Word} {e : Expression} (he : e.items ≠ [])
    (h : e.items <:+: Placed.visible words) : e.IsSlice words := by
  have hmem : ∀ p ∈ e.items, words[p.index]? = some p.word ∧ p.word.isComment = false :=
    fun p hp => mem_visible_iff.mp (h.subset hp)
  constructor
  case nonempty => simpa [Expression.words] using he
  case range_lt =>
    have hsorted := (pairwise_visible words).sublist h.sublist
    obtain ⟨hstart, hstop⟩ := mem_range hsorted (List.head_mem he)
    exact Nat.lt_of_le_of_lt hstart hstop
  case first =>
    rw [range_eq he]
    exact ⟨_, hmem _ (List.head_mem he)⟩
  case last =>
    rw [range_eq he]
    exact ⟨_, hmem _ (List.getLast_mem he)⟩
  case words_eq => rw [← map_word_visible, visible_range_of_isInfix he h, Expression.words]

end Expression

/-! ## Pieces of sorted words -/

/-- A piece lies between the first word in front of it and the first behind it. -/
theorem Expression.range_within {size : Nat} {e : Expression} {gap rest : List Placed}
    (he : e.items ≠ [])
    (hsorted : (gap ++ (e.items ++ rest)).Pairwise fun p q => p.index < q.index)
    (hsize : ∀ p ∈ gap ++ (e.items ++ rest), p.index < size) :
    Grammar.offset size (gap ++ (e.items ++ rest)) ≤ e.range.start ∧
      e.range.stop ≤ Grammar.offset size rest := by
  rw [range_eq he]
  constructor
  · exact offset_le_index hsorted (by simp)
  · rw [← List.append_assoc] at hsorted hsize
    exact index_lt_offset hsorted hsize (List.mem_append_right gap (List.getLast_mem he))

namespace Pieces

variable {size : Nat} {es : List Expression} {ws rest : List Placed}

/-- What is left behind pieces is a suffix of the words they were cut from. -/
theorem suffix (h : Pieces es ws rest) : rest <:+ ws := by
  induction h with
  | nil h => exact h
  | cons he h ih => exact ih.trans (suffix_mid _ _ _)

section Sorted

variable (h : Pieces es ws rest) (hsorted : ws.Pairwise fun p q => p.index < q.index)
  (hsize : ∀ p ∈ ws, p.index < size)

include h hsorted hsize

/-- **Pieces lie between the first word and what is left**, by induction along them. -/
theorem within : ∀ e ∈ es,
    Grammar.offset size ws ≤ e.range.start ∧ e.range.stop ≤ Grammar.offset size rest := by
  induction h with
  | nil h => simp
  | @cons gap mid rest e es he h ih =>
    have hmid := suffix_mid gap e.items mid
    have hsorted' := hsorted.sublist hmid.sublist
    have hsize' : ∀ p ∈ mid, p.index < size := fun p hp => hsize p (hmid.subset hp)
    obtain ⟨hstart, hstop⟩ := Expression.range_within he hsorted hsize
    refine List.forall_mem_cons.mpr ⟨⟨hstart, ?_⟩, fun f hf => ?_⟩
    · exact Nat.le_trans hstop (offset_le_offset h.suffix hsorted' hsize')
    · obtain ⟨hstart', hstop'⟩ := ih hsorted' hsize' f hf
      exact ⟨Nat.le_trans (offset_le_offset hmid hsorted hsize) hstart', hstop'⟩

/-- **Pieces follow each other.** -/
theorem pairwise_range : es.Pairwise fun e f => e.range.stop ≤ f.range.start := by
  induction h with
  | nil h => exact .nil
  | @cons gap mid rest e es he h ih =>
    have hmid := suffix_mid gap e.items mid
    have hsorted' := hsorted.sublist hmid.sublist
    have hsize' : ∀ p ∈ mid, p.index < size := fun p hp => hsize p (hmid.subset hp)
    refine List.pairwise_cons.mpr ⟨fun f hf => ?_, ih hsorted' hsize'⟩
    obtain ⟨-, hstop⟩ := Expression.range_within he hsorted hsize
    exact Nat.le_trans hstop (h.within hsorted' hsize' f hf).1

end Sorted

end Pieces

/-! ## Scripts -/

/-- A query read among the visible words of a script is sliced: its runs are pieces of the words
behind its `SELECT`, which are in order and inside the script. -/
theorem Grammar.sliced_query {words : List Word} {p : Placed} {ps : List Placed}
    (hsuffix : p :: ps <:+ Placed.visible words) :
    (query words.length p.index ps).value.Sliced words := by
  have hpieces := pieces_query words.length p.index ps
  have hrange := rangesFrom_query words.length p.index ps
  have hsorted := (pairwise_visible words).sublist hsuffix.sublist
  have hsize : ∀ x ∈ p :: ps, x.index < words.length :=
    fun x hx => index_lt_of_mem_visible (hsuffix.subset hx)
  have hsorted' := (List.pairwise_cons.mp hsorted).2
  have hsize' : ∀ x ∈ ps, x.index < words.length := fun x hx => hsize x (List.mem_cons_of_mem p hx)
  have hbehind : p.index ≤ offset words.length ps :=
    offset_le_offset (List.suffix_cons p ps) hsorted hsize
  constructor
  case slice =>
    intro e he
    obtain ⟨hne, hinfix⟩ := hpieces.isInfix_of_mem he
    have hstretch := hinfix.trans ((List.suffix_cons p ps).trans hsuffix).isInfix
    exact Expression.isSlice_of_isInfix hne hstretch
  case within =>
    intro e he
    obtain ⟨hstart, hstop⟩ := hpieces.within hsorted' hsize' e he
    rw [hrange]
    exact ⟨Nat.le_trans hbehind hstart, hstop⟩
  case ordered => exact hpieces.pairwise_range hsorted' hsize'

/-- **The runs of the queries of a script are slices of it**: each is made of the words of its range
that are no comments, lies in the range of its query, and ends before the next one starts. -/
theorem Outline.sliced_parse {name source : String} {q : Query}
    (hq : q ∈ (parse name source).queries) : q.Sliced (parse name source).script.words := by
  obtain ⟨p, ps, hsuffix, -, rfl⟩ := Grammar.exists_query_of_mem hq
  exact Grammar.sliced_query hsuffix

/-- Comments inside a column and between two of them, and hints that are given up at the end. -/
theorem Outline.sliced_parse_unclosed :
    let o := parse "q" "SELECT a /* x */ + b, -- y\n f(c) FROM (SELECT 1) t JOIN u WITH (NOLOCK"
    ∃ q ∈ o.queries, q.expressions.map Expression.range = [⟨1, 5⟩, ⟨7, 11⟩, ⟨12, 16⟩] ∧
      q.Sliced o.script.words := by
  intro o
  have hfound : ∃ q ∈ o.queries,
      q.expressions.map Expression.range = [⟨1, 5⟩, ⟨7, 11⟩, ⟨12, 16⟩] := by decide +kernel
  obtain ⟨q, hq, hranges⟩ := hfound
  exact ⟨q, hq, hranges, sliced_parse hq⟩

end SqlScript
