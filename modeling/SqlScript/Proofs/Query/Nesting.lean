import SqlScript.Proofs.Query.Slices

/-!
# Query/Nesting — the parentheses around the queries of a script

    SELECT ( SELECT 1 ) AS a           one query
    UPDATE t SET a = ( SELECT 1 )      one query, in parentheses

The parentheses that a query reads are its own, so how deep a query starts is told by the words that
**no** query reads: as many parentheses are open in front of it as these words leave open.  A
`SELECT` at any other depth is read by the query around it (`Outline.nesting_parse`).

The search for statements counts no parentheses among the words it passes, and finds a `SELECT` in
parentheses of another statement as if it stood alone (`Outline.not_top_level_update`).
-/

namespace SqlScript

/-- How many parentheses are open in front of a word of a script, since the last end of a
statement. -/
def depthAt (words : List Word) (i : Nat) : Nat := openParens 0 ((words.take i).map Word.token)

/-- The words that no query reads. -/
def unread (queries : List Query) (ws : List Placed) : List Placed :=
  ws.filter fun p => ∀ q ∈ queries, ¬ (q.range.start ≤ p.index ∧ p.index < q.range.stop)

/-- How many parentheses the words in front of an index leave open that no query reads. -/
def depthOutside (queries : List Query) (words : List Word) (i : Nat) : Nat :=
  openParens 0 (((unread queries (Placed.visible words)).filter (·.index < i)).map Placed.token)

/-- **Queries nested in a script as the words outside them are.** -/
structure Nesting (words : List Word) (queries : List Query) : Prop where
  opens : ∀ q ∈ queries, ∃ w, words[q.range.start]? = some w ∧ w.token = .keyword .SELECT
  /-- A query starts as deep as the words that no query reads have it. -/
  start : ∀ q ∈ queries, depthAt words q.range.start = depthOutside queries words q.range.start
  /-- Where no parenthesis opens outside queries, they start outside parentheses. -/
  top_level : (∀ p ∈ unread queries (Placed.visible words), p.token ≠ .symbol .lparen) →
    ∀ q ∈ queries, depthAt words q.range.start = 0
  /-- Every `SELECT` belongs to a query, and one at another depth to a query around it. -/
  inside : ∀ i w, words[i]? = some w → w.token = .keyword .SELECT →
    ∃ q ∈ queries, q.range.start ≤ i ∧ i < q.range.stop ∧
      (depthAt words i ≠ depthOutside queries words i → q.range.start < i)

/-! ## Words without comments, words without parentheses -/

/-- Comments are no parentheses. -/
theorem openParens_filter_isComment (depth : Nat) (ws : List Word) :
    openParens depth ((ws.filter (!·.isComment)).map Word.token) =
      openParens depth (ws.map Word.token) := by
  induction ws generalizing depth with
  | nil => rfl
  | cons w ws ih =>
    cases hw : w.isComment with
    | false =>
      rw [List.filter_cons_of_pos (by simp [hw]), List.map_cons, List.map_cons, openParens_cons,
        openParens_cons, ih]
    | true =>
      have htoken : w.token = .comment := by simpa [Word.isComment] using hw
      rw [List.filter_cons_of_neg (by simp [hw]), List.map_cons, openParens_cons, htoken, ih]
      rfl

/-- The depth at a word is counted over the visible words in front of it. -/
theorem depthAt_eq (words : List Word) (i : Nat) :
    depthAt words i =
      openParens 0 (((Placed.visible words).filter (·.index < i)).map Placed.token) := by
  have hvisible := map_word_visible 0 i words
  simp only [WordRange.visible, WordRange.words, Nat.zero_le, true_and, List.drop_zero,
    Nat.sub_zero] at hvisible
  rw [depthAt, ← openParens_filter_isComment, ← hvisible, List.map_map]
  rfl

/-- Without an opening parenthesis none is open. -/
theorem openParens_eq_zero {ts : List Token} (h : ∀ t ∈ ts, t ≠ .symbol .lparen) :
    openParens 0 ts = 0 := by
  induction ts with
  | nil => rfl
  | cons t ts ih =>
    have ht : t.depthBehind 0 = 0 := by
      have hne := h t List.mem_cons_self
      unfold Token.depthBehind depthAfter
      split
      · rfl
      · split <;> simp_all
    rw [openParens_cons, ht]
    exact ih fun u hu => h u (List.mem_cons_of_mem t hu)

namespace Grammar

/-! ## Words in front of queries -/

section Sorted

variable {size i : Nat} {ws us rest : List Placed}

/-- No word in order is in front of the first. -/
theorem filter_lt_eq_nil (hsorted : ws.Pairwise fun p q => p.index < q.index)
    (hi : i ≤ offset size ws) : ws.filter (·.index < i) = [] :=
  List.filter_eq_nil_iff.mpr fun p hp => by
    have hle : offset size ws ≤ p.index := offset_le_index hsorted hp
    simp only [decide_eq_true_eq]
    omega

theorem filter_lt_cons {p : Placed} (h : p.index < i) (ps : List Placed) :
    (p :: ps).filter (·.index < i) = p :: ps.filter (·.index < i) :=
  List.filter_cons_of_pos (decide_eq_true h)

/-- Words in order in front of a later one are in front of it. -/
theorem filter_lt_append (hsorted : (us ++ rest).Pairwise fun p q => p.index < q.index)
    (hsize : ∀ p ∈ us ++ rest, p.index < size) (hi : offset size rest ≤ i) :
    (us ++ rest).filter (·.index < i) = us ++ rest.filter (·.index < i) := by
  rw [List.filter_append]
  refine congrArg (· ++ _) (List.filter_eq_self.mpr fun p hp => decide_eq_true ?_)
  exact Nat.lt_of_lt_of_le (index_lt_offset hsorted hsize hp) hi

/-- A word in front of all queries is read by none. -/
theorem unread_cons {p : Placed} {ps : List Placed} {qs : List Query}
    (h : ∀ q ∈ qs, p.index < q.range.start) : unread qs (p :: ps) = p :: unread qs ps :=
  List.filter_cons_of_pos (decide_eq_true fun q hq hread => Nat.not_le_of_lt (h q hq) hread.1)

/-- The words of a query are read by it, and those behind it are not. -/
theorem unread_append {q : Query} {qs : List Query}
    (hsorted : (us ++ rest).Pairwise fun p q => p.index < q.index)
    (hsize : ∀ p ∈ us ++ rest, p.index < size)
    (hq : q.range = ⟨offset size (us ++ rest), offset size rest⟩) :
    unread (q :: qs) (us ++ rest) = unread qs rest := by
  have hus : us.filter (fun p => ∀ q' ∈ q :: qs,
      ¬ (q'.range.start ≤ p.index ∧ p.index < q'.range.stop)) = [] := by
    refine List.filter_eq_nil_iff.mpr fun p hp hread => ?_
    refine of_decide_eq_true hread q List.mem_cons_self ?_
    rw [hq]
    exact ⟨offset_le_index hsorted (List.mem_append_left _ hp), index_lt_offset hsorted hsize hp⟩
  have hrest := (List.pairwise_append.mp hsorted).2.1
  rw [unread, List.filter_append, hus, List.nil_append]
  refine List.filter_congr fun p hp => decide_eq_decide.mpr ?_
  rw [List.forall_mem_cons, hq]
  exact and_iff_right fun hread =>
    Nat.not_lt_of_le (offset_le_index hrest hp) hread.2

/-! ## The search -/

/-- **A query starts as deep as the words outside queries have it**, by induction along the search.
Two counts are kept, over all words and over the words outside queries; they are the same wherever
the statement goes on, since what a query reads is level or ends the statement, and at an end both
begin anew. -/
theorem Search.openParens_start {qs : List Query} (h : Search size ws qs)
    (hsorted : ws.Pairwise fun p q => p.index < q.index) (hsize : ∀ p ∈ ws, p.index < size)
    {depth depth' : Nat} (hdepth : depth = depth' ∨ (frontToken ws).endsStatement = true) :
    ∀ q ∈ qs, openParens depth ((ws.filter (·.index < q.range.start)).map Placed.token) =
      openParens depth' (((unread qs ws).filter (·.index < q.range.start)).map Placed.token) := by
  induction h generalizing depth depth' with
  | nil => exact fun q hq => absurd hq List.not_mem_nil
  | @pass p ps qs hp h ih =>
    intro q hq
    have hps := (List.pairwise_cons.mp hsorted).2
    have hsize' : ∀ x ∈ ps, x.index < size := fun x hx => hsize x (List.mem_cons_of_mem p hx)
    have hlater := h.offset_le_start hps
    have hindex : p.index < offset size ps := by
      rw [← List.singleton_append] at hsorted hsize
      exact index_lt_offset hsorted hsize List.mem_cons_self
    have hread : ∀ q ∈ qs, p.index < q.range.start :=
      fun q hq => Nat.lt_of_lt_of_le hindex (hlater q hq)
    have hbehind : p.token.depthBehind depth = p.token.depthBehind depth' :=
      Token.depthBehind_congr hdepth
    rw [unread_cons hread, filter_lt_cons (hread q hq), filter_lt_cons (hread q hq)]
    exact ih hps hsize' (.inl hbehind) q hq
  | @find p front rest q qs hp hfront hlevel hrange h ih =>
    obtain rfl : depth = depth' := hdepth.resolve_right fun hends => by
      rw [show frontToken (p :: _) = .keyword .SELECT from hp] at hends
      cases hends
    rw [← List.cons_append] at hsorted hsize ⊢
    have hrest := (List.pairwise_append.mp hsorted).2.1
    have hunread : unread (q :: qs) (p :: front ++ rest) = unread qs rest :=
      unread_append hsorted hsize hrange
    intro q' hq'
    rw [hunread]
    rcases List.mem_cons.mp hq' with rfl | hmem
    · -- In front of the query itself there is no word.
      have hstart : q'.range.start = p.index := congrArg WordRange.start hrange
      have hbehind : p.index ≤ offset size rest :=
        Nat.le_of_lt (index_lt_offset hsorted hsize List.mem_cons_self)
      have hnone : (unread qs rest).filter (·.index < p.index) = [] :=
        List.filter_eq_nil_iff.mpr fun x hx =>
          List.filter_eq_nil_iff.mp (filter_lt_eq_nil hrest hbehind) x (List.mem_filter.mp hx).1
      have hfirst : p.index ≤ offset size (p :: front ++ rest) := Nat.le_refl _
      rw [hstart, filter_lt_eq_nil hsorted hfirst, hnone]
    · rw [filter_lt_append hsorted hsize (h.offset_le_start hrest q' hmem), List.map_append,
        openParens_append]
      refine ih hrest (fun x hx => hsize x (List.mem_append_right _ hx)) ?_ q' hmem
      have hopens : Level [p] := level_singleton hp fun _ => rfl
      exact hlevel.imp_left fun hlevel => (hopens.append hlevel) depth

end Sorted

end Grammar

namespace Outline

/-- **The queries of a script start as deep as the words outside them have it.**  So they start
outside parentheses where these words open none, and a `SELECT` that only the parentheses of a query
enclose is read by that query. -/
theorem nesting_parse (name source : String) :
    Nesting (parse name source).script.words (parse name source).queries := by
  generalize hwords : (parse name source).script.words = words
  have hsearch : Grammar.Search words.length (Placed.visible words) (parse name source).queries :=
    hwords ▸ Grammar.search_statements _ _
  have hsorted := pairwise_visible words
  have hsize : ∀ p ∈ Placed.visible words, p.index < words.length :=
    fun p hp => index_lt_of_mem_visible hp
  have hstart : ∀ q ∈ (parse name source).queries, depthAt words q.range.start =
      depthOutside (parse name source).queries words q.range.start := by
    intro q hq
    rw [depthAt_eq]
    exact hsearch.openParens_start hsorted hsize (.inl rfl) q hq
  constructor
  case opens =>
    intro q hq
    obtain ⟨p, front, rest, hsuffix, hselect, -, hrange⟩ := hsearch.exists_of_mem hq
    have hvisible : p ∈ Placed.visible words := hsuffix.subset List.mem_cons_self
    rw [hrange]
    exact ⟨p.word, (mem_visible_iff.mp hvisible).1, hselect⟩
  case start => exact hstart
  case top_level =>
    intro hopen q hq
    rw [hstart q hq]
    refine openParens_eq_zero fun t ht => ?_
    obtain ⟨p, hp, rfl⟩ := List.mem_map.mp ht
    exact hopen p (List.mem_filter.mp hp).1
  case inside =>
    intro i w hw hselect
    have hcomment : w.isComment = false := by simp [Word.isComment, hselect]
    have hvisible : ⟨i, w⟩ ∈ Placed.visible words := mem_visible_iff.mpr ⟨hw, hcomment⟩
    obtain ⟨q, hfilter⟩ := hsearch.exists_filter_eq hsorted hsize hvisible hselect
    have hq : q ∈ _ := hfilter ▸ List.mem_singleton_self q
    obtain ⟨hmem, hwithin⟩ := List.mem_filter.mp hq
    obtain ⟨hle, hlt⟩ := of_decide_eq_true hwithin
    refine ⟨q, hmem, hle, hlt, fun hdepth => Nat.lt_of_le_of_ne hle fun heq => ?_⟩
    exact hdepth (heq ▸ hstart q hmem)

/-- **A `SELECT` in the parentheses of another statement becomes a query.** -/
theorem not_top_level_update :
    ∃ q ∈ (parse "t.sql" "UPDATE t SET a = (SELECT 1)").queries,
      q.range = ⟨6, 8⟩ ∧
      depthAt (parse "t.sql" "UPDATE t SET a = (SELECT 1)").script.words q.range.start = 1 := by
  decide +kernel

end Outline

end SqlScript
