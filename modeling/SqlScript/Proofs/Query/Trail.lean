import SqlScript.Query.Session

/-!
# Query/Trail — faults are noted along the way

    w₀ ──▸ w₁ ──▸ w₂ ──▸ …        a fault is noted in front of a word, or at the end

A parser passes words and notes faults, and a fault names the word it stands in front of.  The
**trail** of a parser is its way through the words with the faults in the order in which they are
noted (`Trail`).  Trails compose, so every clause of the grammar leaves one (`trails_query`,
`trails_statements`).
-/

namespace SqlScript

/-- **A way through words**: a word is passed, or a fault is noted in front of the words left. -/
inductive Trail : List Placed → List SyntaxFault → List Placed → Prop
  | stay (ws : List Placed) : Trail ws [] ws
  | pass {p : Placed} {ws rest : List Placed} {faults : List SyntaxFault}
      (h : Trail ws faults rest) : Trail (p :: ws) faults rest
  | note {ws rest : List Placed} {faults : List SyntaxFault} (e : Expectation)
      (h : Trail ws faults rest) : Trail ws (⟨e, ws.head?.map Placed.word⟩ :: faults) rest

namespace Trail

variable {ws mid rest : List Placed} {faults more : List SyntaxFault}

/-- Trails compose. -/
theorem trans (h : Trail ws faults mid) (h' : Trail mid more rest) :
    Trail ws (faults ++ more) rest := by
  induction h with
  | stay ws => exact h'
  | pass h ih => exact .pass (ih h')
  | note e h ih => exact .note e (ih h')

/-- Words are passed without a fault. -/
theorem of_suffix (h : rest <:+ ws) : Trail ws [] rest := by
  obtain ⟨us, rfl⟩ := h
  induction us with
  | nil => exact .stay _
  | cons u us ih => exact .pass ih

/-- A trail leaves a suffix of its words. -/
theorem suffix (h : Trail ws faults rest) : rest <:+ ws := by
  induction h with
  | stay ws => exact List.suffix_refl ws
  | pass h ih => exact ih.trans (List.suffix_cons _ _)
  | note e h ih => exact ih

end Trail

namespace Parse

variable {α β : Type}

/-- A parser that leaves a trail. -/
def Trails (p : Parse α) : Prop := ∀ ws, Trail ws (p ws).faults (p ws).rest

/-- A parser without faults leaves a trail wherever it moves. -/
theorem Forward.trails {p : Parse α} (h : p.Forward) (hfaults : ∀ ws, (p ws).faults = []) :
    p.Trails := fun ws => by
  rw [hfaults ws]
  exact .of_suffix (h ws)

theorem Trails.bind {p : Parse α} {f : α → Parse β} (hp : p.Trails) (hf : ∀ a, (f a).Trails) :
    (p >>= f).Trails := fun ws => (hp ws).trans (hf (p ws).value (p ws).rest)

theorem trails_done (a : α) : (done a).Trails := (forward_done a).trails fun _ => rfl

theorem trails_map {p : Parse α} (f : α → β) (h : p.Trails) : (f <$> p).Trails :=
  h.bind fun _ => trails_done _

theorem trails_token : token.Trails := forward_token.trails fun _ => rfl

theorem trails_accept (k : Keyword) : (accept k).Trails := (forward_accept k).trails fun ws => by
  unfold accept
  split <;> rfl

theorem trails_acceptPair (k l : Keyword) : (acceptPair k l).Trails :=
  (forward_acceptPair k l).trails fun ws => by
    unfold acceptPair
    split <;> rfl

/-- A fault is noted where it is met. -/
theorem trails_refuse (e : Expectation) : (refuse e : Parse (Option α)).Trails :=
  fun ws => .note e (.stay ws)

theorem trails_clause {k : Keyword} {body : Parse (Option α)} (h : body.Trails) :
    (clause k body).Trails :=
  (trails_accept k).bind fun present => by
    cases present
    · exact trails_done none
    · exact h

theorem trails_andThenSome {p : Parse (Option α)} {f : α → Parse (Option β)} (hp : p.Trails)
    (hf : ∀ a, (f a).Trails) : (andThenSome p f).Trails :=
  hp.bind fun found => by
    cases found
    · exact trails_done none
    · exact hf _

theorem trails_single : single.Trails := forward_single.trails fun _ => rfl

theorem trails_group : group.Trails := fun ws => by
  have h : (takeGroup 0 ws).rest <:+ ws := ⟨_, takeGroup_append 0 ws⟩
  unfold group
  simp only
  split
  · exact .of_suffix h
  · exact (Trail.of_suffix h).trans (trails_refuse (α := Expression) _ _)

theorem trails_run (stops : Token → Token → Bool) (e : Expectation) :
    (run stops e).Trails := fun ws => by
  have h : (takeRun stops 0 ws).2 <:+ ws := ⟨_, takeRun_append stops 0 ws⟩
  unfold run
  simp only
  split
  · exact (Trail.of_suffix h).trans (trails_refuse (α := Expression) e _)
  · exact .of_suffix h

end Parse

namespace Grammar

open SqlScript.Parse

theorem trails_quantifier : quantifier.Trails :=
  (trails_accept .ALL).bind fun present => by
    cases present
    · exact (trails_accept .DISTINCT).bind fun present => by
        cases present <;> exact trails_done _
    · exact trails_done _

theorem trails_topCount : topCount.Trails :=
  trails_token.bind fun t => by
    split
    · exact trails_group
    · exact trails_single
    · exact trails_single
    · exact trails_refuse _

theorem trails_top : top.Trails :=
  trails_clause <| trails_andThenSome trails_topCount fun _ =>
    (trails_accept .PERCENT).bind fun _ => (trails_acceptPair .WITH .TIES).bind fun _ =>
      trails_done _

/-- Columns leave a trail, by induction along them. -/
theorem trails_columns : Trails columns := fun ws => by
  fun_induction columns ws with
  | case1 ws column hrest =>
    have hcolumn : Trail ws column.faults column.rest := trails_run endsColumn .column ws
    rwa [hrest] at hcolumn
  | case2 ws column p ps hrest hcomma more ih =>
    have hcolumn : Trail ws column.faults column.rest := trails_run endsColumn .column ws
    rw [hrest] at hcolumn
    exact hcolumn.trans (.pass ih)
  | case3 ws column p ps hrest hcomma =>
    have hcolumn : Trail ws column.faults column.rest := trails_run endsColumn .column ws
    rwa [hrest] at hcolumn

theorem trails_qualifiedName : qualifiedName.Trails :=
  forward_qualifiedName.trails fun ws => by cases ws <;> rfl

theorem trails_intoClause : intoClause.Trails :=
  trails_clause <| trails_token.bind fun t => by
    split
    · exact trails_map _ trails_qualifiedName
    · exact trails_refuse _

theorem trails_tableSource (e : Expectation) : (tableSource e).Trails :=
  trails_token.bind fun t => by
    split
    · exact trails_map _ trails_qualifiedName
    · exact trails_map _ trails_group
    · exact trails_refuse e

theorem trails_aliasName (asKeyword : Bool) : (aliasName asKeyword).Trails := fun ws => by
  unfold aliasName
  split
  · split
    · exact trails_refuse _ _
    · exact .stay _
  · split
    · exact .pass (.stay _)
    · split
      · exact trails_refuse _ _
      · exact .stay _

theorem trails_hints : hints.Trails
  | [] => .stay _
  | p :: ps => by
      unfold hints
      simp only
      split
      · exact .pass (trails_group ps)
      · exact .stay _

theorem trails_table (e : Expectation) : (table e).Trails :=
  trails_andThenSome (trails_tableSource e) fun _ =>
    (trails_accept .AS).bind fun asKeyword => (trails_aliasName asKeyword).bind fun _ =>
      trails_hints.bind fun _ => trails_done _

theorem trails_outerKind (kind : JoinKind) : (outerKind kind).Trails := by
  unfold outerKind
  split
  · exact trails_done _
  · exact (trails_accept .OUTER).bind fun marked => by
      cases marked <;> exact trails_done _

theorem trails_joinKind : joinKind.Trails := fun ws => by
  unfold joinKind
  split
  · exact .stay _
  · exact (Trail.of_suffix (List.tail_suffix ws)).trans (trails_outerKind _ ws.tail)

theorem trails_joinCondition (kind : JoinKind) : (joinCondition kind).Trails := by
  unfold joinCondition
  split
  · exact trails_done none
  · exact (trails_accept .ON).bind fun present => by
      cases present
      · exact trails_refuse _
      · exact trails_run _ _

theorem trails_join : join.Trails :=
  trails_joinKind.bind fun kind => (trails_accept .JOIN).bind fun present => by
    cases present
    · exact trails_refuse _
    · exact trails_andThenSome (trails_table _) fun _ =>
        (trails_joinCondition kind).bind fun _ => trails_done _

theorem trails_joins : Trails joins := fun ws => by
  fun_induction joins ws with
  | case1 ws _ first _ => exact trails_join ws
  | case2 ws _ first found _ more ih => exact (trails_join ws).trans ih
  | case3 ws _ => exact .stay ws

theorem trails_fromClause : fromClause.Trails :=
  trails_clause <| trails_andThenSome (trails_table _) fun _ =>
    Trails.bind trails_joins fun _ => trails_done _

theorem trails_bodyOf (k : Keyword) : (bodyOf k).Trails := trails_clause (trails_run _ _)

/-- **A query leaves a trail.** -/
theorem trails_query (size start : Nat) : (query size start).Trails :=
  trails_quantifier.bind fun _ => trails_top.bind fun _ => Trails.bind trails_columns fun _ =>
    trails_intoClause.bind fun _ => trails_fromClause.bind fun _ =>
      (trails_bodyOf _).bind fun _ => (trails_bodyOf _).bind fun _ =>
        (trails_bodyOf _).bind fun _ => (trails_bodyOf _).bind fun _ =>
          (trails_bodyOf _).bind fun _ => Trail.stay

theorem trails_select (size : Nat) : (select size).Trails
  | [] => .stay _
  | p :: ps => by
      simp only [select]
      split
      · exact .pass (trails_map some (trails_query size p.index) ps)
      · exact .stay _

/-- **Reading all statements leaves a trail**, by induction along the search. -/
theorem trails_statements (size : Nat) : Parse.Trails (statements size) := fun ws => by
  fun_induction statements size ws with
  | case1 => exact .stay _
  | case2 p ps hselect found more ih => exact .pass ((trails_query size p.index ps).trans ih)
  | case3 p ps hselect ih => exact .pass ih

end Grammar

end SqlScript
