import SqlScript.Proofs.Query.Trail
import SqlScript.Proofs.Query.Visible
import SqlScript.Script.Basic

/-!
# Query/Sight — how far ahead a query looks

    … words read …  a  b │ more        more'

A parser settles what it does by the word at the front and the one behind it.  So if it leaves the
words `a` and `b` in front of some others, these others can be exchanged, and it reads the same
(`Parse.Nearsighted`).  The property is kept when parsers are put behind each other, since none of
them goes back (`Nearsighted.bind`); the loops of the grammar keep it by induction on the words in
front of the cut.

For a session this bounds the look-ahead of a statement: two words that are no comments behind its
end settle how it was read, however many comments lie between (`Session.select?_of_take_eq`).
-/

namespace SqlScript

namespace Parse

variable {α β : Type} {us : List Placed}

/-! ## Nearsighted parsers -/

/-- Behind `us` a parser looks no further than the second word it leaves: if it leaves two words of
`us` or more, what follows `us` can be exchanged. -/
def NearAt (us : List Placed) (p : Parse α) : Prop :=
  ∀ ⦃vs more : List Placed⦄, (p (us ++ more)).rest = vs ++ more → 2 ≤ vs.length →
    ∀ more', p (us ++ more') = { p (us ++ more) with rest := vs ++ more' }

/-- **A parser that moves forward only and looks no further than the second word it leaves.** -/
structure Nearsighted (p : Parse α) : Prop where
  forward : p.Forward
  near : ∀ us, NearAt us p

/-- What is left in front of a cut is no more than there was. -/
theorem Forward.length_le_of_rest {p : Parse α} (hp : p.Forward) {vs more : List Placed}
    (h : (p (us ++ more)).rest = vs ++ more) : vs.length ≤ us.length := by
  have hle := hp.length_le (us ++ more)
  rw [h, List.length_append, List.length_append] at hle
  omega

/-- **Parsers behind each other are nearsighted** if the second is so on what the first leaves. -/
theorem NearAt.bind {p : Parse α} {f : α → Parse β} (hp : NearAt us p)
    (hforward : ∀ a, (f a).Forward)
    (hf : ∀ {more us'}, (p (us ++ more)).rest = us' ++ more →
      NearAt us' (f (p (us ++ more)).value)) : NearAt us (p >>= f) := by
  intro vs more hrest hvs more'
  have hsecond : (f (p (us ++ more)).value (p (us ++ more)).rest).rest = vs ++ more := hrest
  -- what the first parser leaves ends with what the second one leaves
  obtain ⟨read, hread⟩ := hforward (p (us ++ more)).value (p (us ++ more)).rest
  rw [hsecond, ← List.append_assoc] at hread
  rw [← hread] at hsecond
  have hfirst := hp hread.symm (by rw [List.length_append]; omega) more'
  have hthen := hf hread.symm hsecond hvs more'
  show andThen p f (us ++ more') = { andThen p f (us ++ more) with rest := vs ++ more' }
  simp only [andThen, hfirst, hthen, hread]

theorem Nearsighted.bind {p : Parse α} {f : α → Parse β} (hp : p.Nearsighted)
    (hf : ∀ a, (f a).Nearsighted) : (p >>= f).Nearsighted :=
  ⟨hp.forward.bind fun a => (hf a).forward, fun us =>
    (hp.near us).bind (fun a => (hf a).forward) fun _ => (hf _).near _⟩

/-- **A parser that settles everything by two words is nearsighted**, if it passes no others. -/
theorem nearsighted_of_front {p : Parse α} (hp : p.Forward)
    (h : ∀ a b, ∃ value faults, ∃ n ≤ 2, ∀ ws,
      p (a :: b :: ws) = ⟨value, faults, (a :: b :: ws).drop n⟩) : p.Nearsighted := by
  refine ⟨hp, fun us vs more hrest hvs more' => ?_⟩
  have hus : 2 ≤ us.length := Nat.le_trans hvs (hp.length_le_of_rest hrest)
  obtain ⟨a, b, us, rfl⟩ : ∃ a b us', us = a :: b :: us' := by
    match us, hus with
    | a :: b :: us, _ => exact ⟨a, b, us, rfl⟩
  obtain ⟨value, faults, n, hn, hfront⟩ := h a b
  have hlen : n ≤ (a :: b :: us).length := by simp only [List.length_cons]; omega
  have hdrop : ∀ ws, (a :: b :: (us ++ ws)).drop n = (a :: b :: us).drop n ++ ws :=
    fun ws => List.drop_append_of_le_length hlen
  have hfront' : ∀ ws, p (a :: b :: us ++ ws) = ⟨value, faults, (a :: b :: us).drop n ++ ws⟩ :=
    fun ws => by rw [← hdrop]; exact hfront (us ++ ws)
  rw [hfront'] at hrest ⊢
  rw [hfront', List.append_cancel_right hrest]

/-! ## Single words -/

theorem nearsighted_done (a : α) : (done a).Nearsighted :=
  nearsighted_of_front (forward_done a) fun _ _ => ⟨a, [], 0, by omega, fun _ => rfl⟩

theorem nearsighted_map {p : Parse α} (f : α → β) (h : p.Nearsighted) : (f <$> p).Nearsighted :=
  h.bind fun _ => nearsighted_done _

theorem nearsighted_token : token.Nearsighted :=
  nearsighted_of_front forward_token fun _ _ => ⟨_, [], 0, by omega, fun _ => rfl⟩

theorem nearsighted_accept (k : Keyword) : (accept k).Nearsighted :=
  nearsighted_of_front (forward_accept k) fun a b => by
    by_cases hk : a.token = .keyword k
    · exact ⟨true, [], 1, by omega, fun ws => if_pos hk⟩
    · exact ⟨false, [], 0, by omega, fun ws => if_neg hk⟩

theorem nearsighted_acceptPair (k l : Keyword) : (acceptPair k l).Nearsighted :=
  nearsighted_of_front (forward_acceptPair k l) fun a b => by
    by_cases hkl : a.token = .keyword k ∧ b.token = .keyword l
    · exact ⟨true, [], 2, by omega, fun ws => if_pos hkl⟩
    · exact ⟨false, [], 0, by omega, fun ws => if_neg hkl⟩

theorem nearsighted_refuse (e : Expectation) : (refuse e : Parse (Option α)).Nearsighted :=
  nearsighted_of_front (forward_refuse e) fun a _ =>
    ⟨none, [⟨e, some a.word⟩], 0, by omega, fun _ => rfl⟩

theorem nearsighted_single : single.Nearsighted :=
  nearsighted_of_front forward_single fun a _ =>
    ⟨some ⟨[a]⟩, [], 1, by omega, fun _ => rfl⟩

theorem Nearsighted.clause {k : Keyword} {body : Parse (Option α)} (h : body.Nearsighted) :
    (clause k body).Nearsighted :=
  (nearsighted_accept k).bind fun present => by
    cases present
    · exact nearsighted_done none
    · exact h

theorem Nearsighted.andThenSome {p : Parse (Option α)} {f : α → Parse (Option β)}
    (hp : p.Nearsighted) (hf : ∀ a, (f a).Nearsighted) : (andThenSome p f).Nearsighted :=
  hp.bind fun found => by
    cases found
    · exact nearsighted_done none
    · exact hf _

/-! ## Runs of words -/

/-- Words in front of a cut of which at least one is left show the same token before any words. -/
theorem frontToken_exchange {us : List Placed} (h : us ≠ []) (more more' : List Placed) :
    frontToken (us ++ more') = frontToken (us ++ more) := by
  cases us with
  | nil => exact absurd rfl h
  | cons p us => rfl

/-- **A run ends by the word behind it and the next one.** -/
theorem takeRun_exchange {stops : Token → Token → Bool} {depth : Nat} {us vs more : List Placed}
    (h : (takeRun stops depth (us ++ more)).2 = vs ++ more) (hvs : 2 ≤ vs.length)
    (more' : List Placed) :
    takeRun stops depth (us ++ more') =
      ((takeRun stops depth (us ++ more)).1, vs ++ more') := by
  induction us generalizing depth with
  | nil =>
    have hlen := congrArg List.length (takeRun_append stops depth more)
    rw [List.length_append, show (takeRun stops depth more).2 = vs ++ more from h,
      List.length_append] at hlen
    omega
  | cons p us ih =>
    -- at least one word is left behind `p`
    have hus : us ≠ [] := by
      rintro rfl
      have hlen := congrArg List.length (takeRun_append stops depth ([p] ++ more))
      rw [List.length_append, h] at hlen
      simp only [List.length_append, List.length_singleton] at hlen
      omega
    rw [List.cons_append, takeRun] at h ⊢
    rw [List.cons_append, takeRun, frontToken_exchange hus more more']
    split at h
    · next hstop =>
      obtain rfl : p :: us = vs := List.append_cancel_right h
      rw [if_pos hstop, if_pos hstop]
      rfl
    · next hstop => rw [if_neg hstop, if_neg hstop, ih h]

/-- **A group ends with its own last word**, or in front of the end of the statement. -/
theorem takeGroup_exchange {depth : Nat} {us vs more : List Placed}
    (h : (takeGroup depth (us ++ more)).rest = vs ++ more) (hvs : vs ≠ [])
    (more' : List Placed) :
    takeGroup depth (us ++ more') =
      { takeGroup depth (us ++ more) with rest := vs ++ more' } := by
  induction us generalizing depth with
  | nil =>
    have hlen := congrArg List.length (takeGroup_append depth more)
    have hpos := List.length_pos_iff.mpr hvs
    rw [List.length_append, show (takeGroup depth more).rest = vs ++ more from h,
      List.length_append] at hlen
    omega
  | cons p us ih =>
    rw [List.cons_append, takeGroup] at h ⊢
    rw [List.cons_append, takeGroup]
    split at h
    · next hstop =>
      obtain rfl : p :: us = vs := List.append_cancel_right h
      rw [if_pos hstop, if_pos hstop]
      rfl
    · next hstop =>
      rw [if_neg hstop, if_neg hstop]
      split at h
      · next hclosed =>
        obtain rfl : us = vs := List.append_cancel_right h
        rw [if_pos hclosed, if_pos hclosed]
      · next hclosed => rw [if_neg hclosed, if_neg hclosed, ih h]

/-- **A name ends by the word behind it and the next one.** -/
theorem takeDotted_exchange {us vs more : List Placed}
    (h : (takeDotted (us ++ more)).2 = vs ++ more) (hvs : 2 ≤ vs.length) (more' : List Placed) :
    takeDotted (us ++ more') = ((takeDotted (us ++ more)).1, vs ++ more') := by
  have hle := (takeDotted_suffix (us ++ more)).length_le
  rw [h, List.length_append, List.length_append] at hle
  match us with
  | [] | [_] =>
    simp only [List.length_nil, List.length_singleton] at hle
    omega
  | d :: p :: us =>
    rw [List.cons_append, List.cons_append, takeDotted] at h ⊢
    rw [List.cons_append, List.cons_append, takeDotted]
    split at h
    · next hdotted => rw [if_pos hdotted, if_pos hdotted, takeDotted_exchange h hvs more']
    · next hdotted =>
      obtain rfl : d :: p :: us = vs := List.append_cancel_right h
      rw [if_neg hdotted, if_neg hdotted]
      rfl

theorem rest_group (ws : List Placed) : (group ws).rest = (takeGroup 0 ws).rest := by
  unfold group
  simp only
  split <;> rfl

theorem rest_run (stops : Token → Token → Bool) (e : Expectation) (ws : List Placed) :
    (run stops e ws).rest = (takeRun stops 0 ws).2 := by
  unfold run
  simp only
  split <;> rfl

theorem nearsighted_group : group.Nearsighted := by
  refine ⟨forward_group, fun us vs more hrest hvs more' => ?_⟩
  have hne : vs ≠ [] := by rintro rfl; simp at hvs
  have hgroup : (takeGroup 0 (us ++ more)).rest = vs ++ more := (rest_group _).symm.trans hrest
  simp only [group, takeGroup_exchange hgroup hne more', hgroup]
  split
  · rfl
  · exact ((nearsighted_refuse _).near vs) rfl hvs more'

theorem nearsighted_run (stops : Token → Token → Bool) (e : Expectation) :
    (run stops e).Nearsighted := by
  refine ⟨forward_run stops e, fun us vs more hrest hvs more' => ?_⟩
  have hrun : (takeRun stops 0 (us ++ more)).2 = vs ++ more := (rest_run _ _ _).symm.trans hrest
  simp only [run, takeRun_exchange hrun hvs more', hrun]
  split
  · exact ((nearsighted_refuse _).near vs) rfl hvs more'
  · rfl

end Parse

namespace Grammar

open Parse

/-! ## In front of the columns -/

theorem nearsighted_quantifier : quantifier.Nearsighted :=
  (nearsighted_accept .ALL).bind fun present => by
    cases present
    · exact (nearsighted_accept .DISTINCT).bind fun present => by
        cases present <;> exact nearsighted_done _
    · exact nearsighted_done _

theorem nearsighted_topCount : topCount.Nearsighted :=
  nearsighted_token.bind fun t => by
    split
    · exact nearsighted_group
    · exact nearsighted_single
    · exact nearsighted_single
    · exact nearsighted_refuse _

theorem nearsighted_top : top.Nearsighted :=
  Nearsighted.clause <| nearsighted_topCount.andThenSome fun _ =>
    (nearsighted_accept .PERCENT).bind fun _ =>
      (nearsighted_acceptPair .WITH .TIES).bind fun _ => nearsighted_done _

/-! ## Columns -/

/-- What stands behind a column: the other columns, if there is a comma. -/
def behindColumn (column : Option Expression) : Parse (List Expression) := fun ws =>
  if frontToken ws = .symbol .comma then
    let more := columns ws.tail
    ⟨column.toList ++ more.value, more.faults, more.rest⟩
  else ⟨column.toList, [], ws⟩

theorem columns_eq_bind :
    (columns : Parse (List Expression)) = run endsColumn .column >>= behindColumn := by
  funext ws
  rw [columns_eq_run]
  show _ = andThen (run endsColumn .column) behindColumn ws
  simp only [andThen, behindColumn]
  split
  · rfl
  · simp only [List.append_nil]

theorem forward_behindColumn (column : Option Expression) : (behindColumn column).Forward := by
  intro ws
  unfold behindColumn
  split
  · exact (forward_columns ws.tail).trans (List.tail_suffix ws)
  · exact List.suffix_refl ws

/-- **Columns are nearsighted**, by induction on the words in front of the cut. -/
theorem nearsighted_columns : Nearsighted columns := by
  refine ⟨forward_columns, fun us => ?_⟩
  generalize hn : us.length = n
  induction n using Nat.strongRecOn generalizing us with
  | ind n ih =>
    rw [columns_eq_bind]
    refine ((nearsighted_run endsColumn .column).near us).bind forward_behindColumn ?_
    intro more ws hrest
    have hle := (forward_run endsColumn .column).length_le_of_rest hrest
    generalize (run endsColumn .column (us ++ more)).value = column
    intro vs more hbehind hvs more'
    have hws : 2 ≤ ws.length :=
      Nat.le_trans hvs ((forward_behindColumn column).length_le_of_rest hbehind)
    obtain ⟨p, ws, rfl⟩ := List.exists_cons_of_length_pos (Nat.lt_of_lt_of_le Nat.two_pos hws)
    simp only [List.length_cons] at hle
    by_cases hcomma : p.token = .symbol .comma
    · have hcolumns : ∀ more, behindColumn column (p :: ws ++ more) =
          ⟨column.toList ++ (columns (ws ++ more)).value, (columns (ws ++ more)).faults,
            (columns (ws ++ more)).rest⟩ := fun more => if_pos hcomma
      rw [hcolumns] at hbehind ⊢
      rw [hcolumns, ih ws.length (by omega) ws rfl hbehind hvs more']
    · have hend : ∀ more, behindColumn column (p :: ws ++ more) =
          ⟨column.toList, [], p :: ws ++ more⟩ := fun more => if_neg hcomma
      rw [hend] at hbehind ⊢
      rw [hend, List.append_cancel_right hbehind]

/-! ## Tables -/

theorem nearsighted_qualifiedName : qualifiedName.Nearsighted := by
  refine ⟨forward_qualifiedName, fun us vs more hrest hvs more' => ?_⟩
  have hus : 0 < us.length :=
    Nat.lt_of_lt_of_le (by omega) (forward_qualifiedName.length_le_of_rest hrest)
  obtain ⟨p, us, rfl⟩ := List.exists_cons_of_length_pos hus
  simp only [List.cons_append, qualifiedName] at hrest ⊢
  rw [takeDotted_exchange hrest hvs more']

theorem nearsighted_intoClause : intoClause.Nearsighted :=
  Nearsighted.clause <| nearsighted_token.bind fun t => by
    split
    · exact nearsighted_map _ nearsighted_qualifiedName
    · exact nearsighted_refuse _

theorem nearsighted_tableSource (e : Expectation) : (tableSource e).Nearsighted :=
  nearsighted_token.bind fun t => by
    split
    · exact nearsighted_map _ nearsighted_qualifiedName
    · exact nearsighted_map _ nearsighted_group
    · exact nearsighted_refuse e

theorem nearsighted_aliasName (asKeyword : Bool) : (aliasName asKeyword).Nearsighted :=
  nearsighted_of_front (forward_aliasName asKeyword) fun a b => by
    by_cases hident : a.token = .ident
    · exact ⟨some a.word.literal, [], 1, by omega, fun ws => if_pos hident⟩
    · cases asKeyword with
      | false => exact ⟨none, [], 0, by omega, fun ws => if_neg hident⟩
      | true =>
        exact ⟨none, [⟨.aliasAfterAs, some a.word⟩], 0, by omega, fun ws => if_neg hident⟩

theorem nearsighted_hints : hints.Nearsighted := by
  refine ⟨forward_hints, fun us vs more hrest hvs more' => ?_⟩
  have hus : 2 ≤ us.length := Nat.le_trans hvs (forward_hints.length_le_of_rest hrest)
  match us, hus with
  | p :: q :: us, _ =>
    by_cases hopens : p.token = .keyword .WITH ∧ q.token = .symbol .lparen
    · have hgroup : ∀ more, hints (p :: q :: us ++ more) =
          ⟨(group (q :: us ++ more)).value.map fun run => ⟨p :: run.items⟩,
            (group (q :: us ++ more)).faults, (group (q :: us ++ more)).rest⟩ :=
        fun more => if_pos hopens
      rw [hgroup] at hrest ⊢
      rw [hgroup, nearsighted_group.near (q :: us) hrest hvs more']
    · have hnone : ∀ more, hints (p :: q :: us ++ more) = ⟨none, [], p :: q :: us ++ more⟩ :=
        fun more => if_neg hopens
      rw [hnone] at hrest ⊢
      rw [hnone, List.append_cancel_right hrest]

theorem nearsighted_table (e : Expectation) : (table e).Nearsighted :=
  (nearsighted_tableSource e).andThenSome fun _ =>
    (nearsighted_accept .AS).bind fun asKeyword => (nearsighted_aliasName asKeyword).bind fun _ =>
      nearsighted_hints.bind fun _ => nearsighted_done _

/-! ## Joins -/

theorem nearsighted_joinKind : joinKind.Nearsighted :=
  nearsighted_of_front forward_joinKind fun a b => by
    cases hkind : JoinKind.ofToken? a.token with
    | none => exact ⟨.inner, [], 0, by omega, fun ws => by simp [joinKind, frontToken, hkind, done]⟩
    | some kind =>
      have hjoinKind : ∀ ws, joinKind (a :: b :: ws) = outerKind kind (b :: ws) := fun ws => by
        simp [joinKind, frontToken, hkind]
      simp only [hjoinKind, outerKind]
      cases houter : kind.outer? with
      | none => exact ⟨kind, [], 1, by omega, fun ws => rfl⟩
      | some outer =>
        by_cases hb : b.token = .keyword .OUTER
        · exact ⟨outer, [], 2, by omega, fun ws => by
            simp [bind, andThen, accept, frontToken, hb, done]⟩
        · exact ⟨kind, [], 1, by omega, fun ws => by
            simp [bind, andThen, accept, frontToken, hb, done]⟩

theorem nearsighted_joinCondition (kind : JoinKind) : (joinCondition kind).Nearsighted := by
  unfold joinCondition
  split
  · exact nearsighted_done none
  · exact (nearsighted_accept .ON).bind fun present => by
      cases present
      · exact nearsighted_refuse _
      · exact nearsighted_run _ _

theorem nearsighted_join : join.Nearsighted :=
  nearsighted_joinKind.bind fun kind => (nearsighted_accept .JOIN).bind fun present => by
    cases present
    · exact nearsighted_refuse _
    · exact (nearsighted_table _).andThenSome fun _ =>
        (nearsighted_joinCondition kind).bind fun _ => nearsighted_done _

/-- What stands behind a join: further joins, unless the join could not be read. -/
def behindJoin (found : Option Join) : Parse (List Join) := fun ws =>
  match found with
  | none => ⟨[], [], ws⟩
  | some join =>
    let more := joins ws
    ⟨join :: more.value, more.faults, more.rest⟩

theorem joins_eq_bind {ws : List Placed} (h : atJoin ws = true) :
    joins ws = (join >>= behindJoin) ws := by
  show joins ws = andThen join behindJoin ws
  rw [joins, dif_pos h]
  simp only [andThen, behindJoin]
  cases (join ws).value with
  | none => simp only [List.append_nil]
  | some found => rfl

theorem joins_of_not_atJoin {ws : List Placed} (h : ¬ atJoin ws = true) :
    joins ws = ⟨[], [], ws⟩ := by
  rw [joins, dif_neg h]

theorem forward_behindJoin (found : Option Join) : (behindJoin found).Forward := by
  intro ws
  cases found with
  | none => exact List.suffix_refl ws
  | some join => exact forward_joins ws

/-- **Joins are nearsighted**, by induction on the words in front of the cut. -/
theorem nearsighted_joins : Nearsighted joins := by
  refine ⟨forward_joins, fun us => ?_⟩
  generalize hn : us.length = n
  induction n using Nat.strongRecOn generalizing us with
  | ind n ih =>
    intro vs more hrest hvs more'
    have hus : 2 ≤ us.length := Nat.le_trans hvs (Forward.length_le_of_rest forward_joins hrest)
    -- whether there is a join is settled by the first two words
    have hfront : ∀ ws, atJoin (us ++ ws) = atJoin us := by
      match us, hus with
      | p :: q :: us, _ => exact fun ws => rfl
    by_cases hjoin : atJoin us = true
    · have hread : ∀ ws, joins (us ++ ws) = (join >>= behindJoin) (us ++ ws) :=
        fun ws => joins_eq_bind (by rw [hfront, hjoin])
      have hnear : NearAt us (join >>= behindJoin) := by
        refine (nearsighted_join.near us).bind forward_behindJoin ?_
        intro more ws hleft
        have hlt : (join (us ++ more)).rest.length < (us ++ more).length :=
          join_length_lt (by rw [hfront, hjoin])
        rw [hleft, List.length_append, List.length_append] at hlt
        cases (join (us ++ more)).value with
        | none => exact (nearsighted_done []).near ws
        | some found =>
          intro vs more hrest hvs more'
          have hmore := ih ws.length (by omega) ws rfl hrest hvs more'
          simp only [behindJoin, hmore]
      rw [hread] at hrest ⊢
      rw [hread, hnear hrest hvs more']
    · have hnone : ∀ ws, joins (us ++ ws) = ⟨[], [], us ++ ws⟩ :=
        fun ws => joins_of_not_atJoin (by rwa [hfront])
      rw [hnone] at hrest ⊢
      rw [hnone, List.append_cancel_right hrest]

/-! ## Statements -/

theorem nearsighted_fromClause : fromClause.Nearsighted :=
  Nearsighted.clause <| (nearsighted_table _).andThenSome fun _ =>
    nearsighted_joins.bind fun _ => nearsighted_done _

theorem nearsighted_bodyOf (k : Keyword) : (bodyOf k).Nearsighted :=
  Nearsighted.clause (nearsighted_run _ _)

/-- **A query is nearsighted.** -/
theorem nearsighted_query (size start : Nat) : (query size start).Nearsighted :=
  nearsighted_quantifier.bind fun _ => nearsighted_top.bind fun _ =>
    nearsighted_columns.bind fun _ => nearsighted_intoClause.bind fun _ =>
      nearsighted_fromClause.bind fun _ => (nearsighted_bodyOf _).bind fun _ =>
        (nearsighted_bodyOf _).bind fun _ => (nearsighted_bodyOf _).bind fun _ =>
          (nearsighted_bodyOf _).bind fun _ => (nearsighted_bodyOf _).bind fun _ =>
            nearsighted_of_front List.suffix_refl fun a _ =>
              ⟨⟨_, _, _, _, _, _, _, _, _, _, start, a.index⟩, [], 0, by omega, fun _ => rfl⟩

/-- The size of a script shows only in a query that reads it to its end. -/
theorem query_eq_of_rest_ne_nil {size start : Nat} {ws : List Placed}
    (h : (query size start ws).rest ≠ []) (size' : Nat) :
    query size' start ws = query size start ws := by
  have hoffset : offset size' (query size start ws).rest =
      offset size (query size start ws).rest := by
    cases hrest : (query size start ws).rest with
    | nil => exact absurd hrest h
    | cons p ps => rfl
  simp only [query, bind, andThen] at hoffset ⊢
  rw [hoffset]

/-- A statement behind its keyword. -/
theorem select_cons {size : Nat} {p : Placed} {ps : List Placed}
    (h : p.token = .keyword .SELECT) : select size (p :: ps) =
      ⟨some (query size p.index ps).value, (query size p.index ps).faults,
        (query size p.index ps).rest⟩ := by
  rw [select, if_pos h]
  show andThen (query size p.index) (fun q => done (some q)) ps = _
  simp only [andThen, done, List.append_nil]

/-- **A statement that leaves two words is read the same whatever follows these**, in a script of
any size. -/
theorem select_exchange {size : Nat} {us vs more : List Placed}
    (hselect : frontToken us = .keyword .SELECT)
    (hrest : (select size (us ++ more)).rest = vs ++ more) (hvs : 2 ≤ vs.length) (size' : Nat)
    (more' : List Placed) :
    select size' (us ++ more') = { select size (us ++ more) with rest := vs ++ more' } := by
  obtain ⟨p, us, rfl, hp⟩ := exists_cons_of_frontToken hselect (by simp)
  have hread : ∀ size ws, select size (p :: us ++ ws) = ⟨some (query size p.index (us ++ ws)).value,
      (query size p.index (us ++ ws)).faults, (query size p.index (us ++ ws)).rest⟩ :=
    fun size ws => select_cons hp
  simp only [hread] at hrest ⊢
  have hquery := (nearsighted_query size p.index).near us hrest hvs more'
  have hne : (query size p.index (us ++ more')).rest ≠ [] := by
    have hvs' : vs ≠ [] := by rintro rfl; simp at hvs
    rw [hquery]
    exact List.append_ne_nil_of_left_ne_nil hvs' more'
  rw [query_eq_of_rest_ne_nil hne, hquery]

end Grammar

/-! ## Sessions -/

/-- The visible words of a script go on behind those of its first `k` words, with larger indices. -/
theorem exists_visible_eq {words : List Word} {k : Nat} (hk : k ≤ words.length) :
    ∃ more, Placed.visible words = Placed.visible (words.take k) ++ more ∧
      ∀ p ∈ more, k ≤ p.index := by
  have happ := visible_append (words.take k) (words.drop k)
  rw [List.take_append_drop, List.length_take_of_le hk] at happ
  refine ⟨_, happ, fun p hp => ?_⟩
  obtain ⟨q, -, rfl⟩ := List.mem_map.mp hp
  exact Nat.le_add_left k q.index

namespace Session

variable {words : List Word} {s : Session}

/-- The words in front of a session are those from its offset on. -/
theorem Over.visible_from (h : s.Over words) :
    WordRange.visible ⟨s.offset, words.length⟩ words = s.rest := by
  have hrange := h.visible_range (List.append_nil s.rest).symm
  rwa [show Grammar.offset s.size [] = words.length from h.size_eq] at hrange

/-- The words in front of a session, cut behind the first `k` words of the script. -/
theorem Over.rest_eq_append (h : s.Over words) {k : Nat} {us more : List Placed}
    (hwords : Placed.visible words = us ++ more) (hmore : ∀ p ∈ more, k ≤ p.index)
    (hoffset : s.offset ≤ k) : s.rest = us.filter (fun p => s.offset ≤ p.index) ++ more := by
  have hall : more.filter (fun p => s.offset ≤ p.index) = more :=
    List.filter_eq_self.mpr fun p hp => decide_eq_true (Nat.le_trans hoffset (hmore p hp))
  obtain ⟨pre, hpre⟩ := h.suffix
  have hfilter : (pre ++ s.rest).filter (fun p => s.offset ≤ p.index) = s.rest :=
    filter_offset_le (hpre ▸ pairwise_visible words)
      fun p hp => h.size_eq ▸ index_lt_of_mem_visible (hpre ▸ hp)
  rw [← hfilter, hpre, hwords, List.filter_append, hall]

/-- A statement leaves a session over its script. -/
theorem Over.select (h : s.Over words) : s.select?.2.Over words :=
  h.run fun ws => (Grammar.trails_select s.size ws).suffix

/-- No word in front of a session lies before its offset. -/
theorem Over.offset_le (h : s.Over words) {p : Placed} (hp : p ∈ s.rest) : s.offset ≤ p.index :=
  offset_le_index ((pairwise_visible words).sublist h.suffix.sublist) hp

/-- A session at a word shows it in front of any cut further on. -/
theorem frontToken_of_current? {w : Word} {us more : List Placed} (hw : s.current? = some w)
    (hrest : s.rest = us ++ more) (hus : us ≠ []) : frontToken us = w.token := by
  obtain ⟨p, us, rfl⟩ := List.exists_cons_of_ne_nil hus
  rw [current?, hrest] at hw
  obtain rfl : p.word = w := Option.some_inj.mp hw
  rfl

/-- **Sessions in front of the same words read the same statement**, if one of them leaves two of
these words. -/
theorem select?_exchange {s' : Session} {us vs more more' : List Placed}
    (hrest : s.rest = us ++ more) (hrest' : s'.rest = us ++ more')
    (hselect : frontToken us = .keyword .SELECT) (hstop : s.select?.2.rest = vs ++ more)
    (hvs : 2 ≤ vs.length) :
    ∃ q faults, s.select?.1 = some q ∧ s'.select?.1 = some q ∧
      s'.select?.2.offset = s.select?.2.offset ∧
      s.select?.2.faults = s.faults ++ faults ∧ s'.select?.2.faults = s'.faults ++ faults := by
  have hread : (Grammar.select s.size (us ++ more)).rest = vs ++ more := hrest ▸ hstop
  have hsame := Grammar.select_exchange hselect hread hvs s'.size more'
  obtain ⟨q, hq⟩ : ∃ q, (Grammar.select s.size (us ++ more)).value = some q := by
    obtain ⟨p, us, rfl, hp⟩ := exists_cons_of_frontToken hselect (by simp)
    exact ⟨_, congrArg Step.value (Grammar.select_cons hp)⟩
  obtain ⟨v, vs, rfl⟩ := List.exists_cons_of_length_pos (Nat.lt_of_lt_of_le Nat.two_pos hvs)
  refine ⟨q, (Grammar.select s.size (us ++ more)).faults, ?_⟩
  simp only [select?, run, offset, hrest, hrest', hsame, hq, hread, List.cons_append,
    Grammar.offset, and_self]

/-- **Two words behind a statement settle how it is read.**  Let a session stand at `SELECT`, read
the statement, and let `second` be the second word from there on that is no comment.  A session at
the same offset of any script that has the same words up to `second` reads the same query, stops at
the same offset and notes the same faults. -/
theorem select?_of_take_eq {words words' : List Word} {s s' : Session} (h : s.Over words)
    (h' : s'.Over words') (hoffset : s'.offset = s.offset) {w : Word} (hw : s.current? = some w)
    (hselect : w.token = .keyword .SELECT) {second : Placed}
    (hsecond : (WordRange.visible ⟨s.select?.2.offset, words.length⟩ words)[1]? = some second)
    (hagree : words'.take (second.index + 1) = words.take (second.index + 1)) :
    ∃ q faults, s.select?.1 = some q ∧ s'.select?.1 = some q ∧
      s'.select?.2.offset = s.select?.2.offset ∧
      s.select?.2.faults = s.faults ++ faults ∧ s'.select?.2.faults = s'.faults ++ faults := by
  rw [h.select.visible_from] at hsecond
  have hleft : second ∈ s.select?.2.rest := List.mem_of_getElem? hsecond
  have hmem : second ∈ s.rest := (Grammar.trails_select s.size s.rest).suffix.subset hleft
  have hlength : second.index + 1 ≤ words.length :=
    index_lt_of_mem_visible (h.suffix.subset hmem)
  have hlength' : second.index + 1 ≤ words'.length := by
    have hlen := congrArg List.length hagree
    rw [List.length_take_of_le hlength, List.length_take] at hlen
    omega
  -- both scripts are cut behind `second`; the words in front of the cut are the same
  obtain ⟨more, hwords, hmore⟩ := exists_visible_eq hlength
  obtain ⟨more', hwords', hmore'⟩ := exists_visible_eq hlength'
  rw [hagree] at hwords'
  have hstart := Nat.le_succ_of_le (h.offset_le hmem)
  have hrest := h.rest_eq_append hwords hmore hstart
  have hrest' := h'.rest_eq_append hwords' hmore' (hoffset ▸ hstart)
  have hstop := h.select.rest_eq_append hwords hmore (Nat.le_succ_of_le (h.select.offset_le hleft))
  rw [hoffset] at hrest'
  generalize (Placed.visible (words.take (second.index + 1))).filter
    (fun p => s.offset ≤ p.index) = us at hrest hrest'
  generalize (Placed.visible (words.take (second.index + 1))).filter
    (fun p => s.select?.2.offset ≤ p.index) = vs at hstop
  have hvs : 2 ≤ vs.length := Nat.le_of_not_lt fun hshort => by
    rw [hstop, List.getElem?_append_right (by omega)] at hsecond
    exact absurd (hmore second (List.mem_of_getElem? hsecond)) (by omega)
  have hus : us ≠ [] := by
    rintro rfl
    have hle := (Grammar.trails_select s.size s.rest).suffix.length_le
    rw [show (Grammar.select s.size s.rest).rest = vs ++ more from hstop, hrest,
      List.length_append, List.nil_append] at hle
    omega
  have hfront := (frontToken_of_current? hw hrest hus).trans hselect
  exact select?_exchange hrest hrest' hfront hstop hvs

/-- No hints, since no parenthesis follows `WITH`: settled by the second word behind the table. -/
theorem select?_of_take_eq_without_hints :
    let words := (Script.scan "q" "SELECT TOP FROM t u /* 1 */ WITH /* 2 */ x (NOLOCK)").words
    let words' := (Script.scan "r" "SELECT TOP FROM t u /* 1 */ WITH /* 2 */ x JOIN v ON 1").words
    let s := ofWords words
    let s' := ofWords words'
    words'.take 9 = words.take 9 ∧ s.select?.2.offset = 6 ∧
      ∃ q faults, s.select?.1 = some q ∧ s'.select?.1 = some q ∧
        s'.select?.2.offset = s.select?.2.offset ∧
        s.select?.2.faults = s.faults ++ faults ∧ s'.select?.2.faults = s'.faults ++ faults := by
  intro words words' s s'
  have hagree : words'.take 9 = words.take 9 := by decide +kernel
  have hoffset : s.select?.2.offset = 6 := by decide +kernel
  obtain ⟨w, hw, hselect⟩ : ∃ w ∈ s.current?, w.token = .keyword .SELECT := by decide +kernel
  obtain ⟨second, hsecond, hindex⟩ : ∃ second ∈
      (WordRange.visible ⟨s.select?.2.offset, words.length⟩ words)[1]?, second.index = 8 := by
    decide +kernel
  refine ⟨hagree, hoffset, ?_⟩
  exact select?_of_take_eq (over_ofWords words) (over_ofWords words') (by decide +kernel) hw hselect
    hsecond (by rw [hindex]; exact hagree)

end Session

end SqlScript
