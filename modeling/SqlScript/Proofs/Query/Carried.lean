import SqlScript.Proofs.Query.Setting

/-!
# Query/Carried — the grammar reads the same in every setting

Every clause of a SELECT statement, and so the whole of it, is carried into every setting
(`carries_query`): a query does not depend on the indices or the spellings of its words, beyond
keeping them, nor on what stands behind the end of its statement.  A script is read statement by
statement in any setting, and the search then goes on with the tail (`statements_place`).
-/

namespace SqlScript.Grammar

open SqlScript.Parse SqlScript.Setting

variable {s : Setting}

/-! ## Boundaries -/

theorem endsAlike_endsColumn (t : Token) : Token.EndsAlike (endsColumn t) :=
  Token.endsAlike_of_eq rfl rfl

theorem endsAlike_endsBody (t : Token) : Token.EndsAlike (endsBody t) :=
  Token.endsAlike_of_eq rfl rfl

theorem endsAlike_endsCondition (t : Token) : Token.EndsAlike (endsCondition t) :=
  Token.endsAlike_of_eq rfl rfl

/-! ## In front of the columns -/

theorem carries_quantifier : s.Carries id quantifier quantifier :=
  (carries_accept rfl).bind fun present => by
    cases present
    · exact (carries_accept rfl).bind fun present => by
        cases present <;> exact carries_done rfl
    · exact carries_done rfl

theorem carries_topCount : s.Carries (Option.map s.expression) topCount topCount :=
  carries_token_bind (Token.endsAlike_of_eq rfl rfl) fun t ws ht => by
    have hsingle : t ≠ .eof →
        single (s.place ws) = s.step (Option.map s.expression) (single ws) := by
      intro hne
      obtain ⟨p, ps, rfl, -⟩ := exists_cons_of_frontToken ht hne
      rfl
    split
    · exact carries_group ws
    · exact hsingle (by simp)
    · exact hsingle (by simp)
    · exact carries_refuse _ ws

theorem carries_top : s.Carries (Option.map s.top) top top :=
  Carries.clause rfl <| carries_topCount.andThenSome fun _ =>
    (carries_accept rfl).bind fun _ => (carries_acceptPair rfl rfl).bind fun _ => carries_done rfl

/-! ## Columns -/

/-- The columns are the first of them and, behind a comma, the others. -/
theorem columns_eq_run (ws : List Placed) :
    let column := run endsColumn .column ws
    columns ws =
      if frontToken column.rest = .symbol .comma then
        let more := columns column.rest.tail
        ⟨column.value.toList ++ more.value, column.faults ++ more.faults, more.rest⟩
      else ⟨column.value.toList, column.faults, column.rest⟩ := by
  intro column
  rw [columns]
  split
  · next hnil =>
    rw [show column.rest = [] from hnil]
    rfl
  · next p ps hcons =>
    rw [show column.rest = p :: ps from hcons]
    rfl

/-- **Columns are carried**, by induction along them. -/
theorem carries_columns : s.Carries (List.map s.expression) columns columns := by
  intro ws
  -- The first column in the setting, and what stands behind it.
  have hunfold := fun ws => columns_eq_run (s.place ws)
  simp only [carries_run (s := s) endsAlike_endsColumn .column _, step, Option.toList_map]
    at hunfold
  have hfront := s.frontToken_place (Token.endsAlike_eq (u := .symbol .comma) rfl)
  fun_induction columns ws with
  | case1 ws column hrest =>
    rw [hunfold, if_neg, show column.rest = [] from hrest]
    · rfl
    · rw [hfront, show column.rest = [] from hrest]
      simp [frontToken]
  | case2 ws column p ps hrest hcomma more ih =>
    rw [hunfold, if_pos, show column.rest = p :: ps from hrest, place_cons, List.tail_cons, ih]
    · simp only [step, more, column, List.map_append]
    · rw [hfront, show column.rest = p :: ps from hrest]
      exact hcomma
  | case3 ws column p ps hrest hcomma =>
    rw [hunfold, if_neg, show column.rest = p :: ps from hrest]
    · rfl
    · rw [hfront, show column.rest = p :: ps from hrest]
      exact hcomma

/-! ## Tables -/

/-- A name is carried where an identifier is at the front. -/
theorem qualifiedName_place {ws : List Placed} (h : frontToken ws = .ident) :
    qualifiedName (s.place ws) = s.step s.name (qualifiedName ws) := by
  obtain ⟨p, ps, rfl, -⟩ := exists_cons_of_frontToken h (by simp)
  rw [place_cons, qualifiedName, takeDotted_place]
  rfl

theorem carries_intoClause : s.Carries (Option.map s.name) intoClause intoClause :=
  Carries.clause rfl <| carries_token_bind (Token.endsAlike_of_eq rfl rfl) fun t ws ht => by
    split
    · exact map_place (qualifiedName_place ht) fun _ => rfl
    · exact carries_refuse _ ws

theorem carries_tableSource (e : Expectation) :
    s.Carries (Option.map s.source) (tableSource e) (tableSource e) :=
  carries_token_bind (Token.endsAlike_of_eq rfl rfl) fun t ws ht => by
    split
    · exact map_place (qualifiedName_place ht) fun _ => rfl
    · exact map_place (carries_group ws) fun v => by cases v <;> rfl
    · exact carries_refuse e ws

theorem carries_aliasName (asKeyword : Bool) :
    s.Carries (Option.map s.literal) (aliasName asKeyword) (aliasName asKeyword) := by
  intro ws
  -- Without an identifier at the front the two cases of an empty list and of another word agree.
  have hother : ∀ {ws}, frontToken ws ≠ .ident → aliasName asKeyword ws =
      if asKeyword then refuse .aliasAfterAs ws else ⟨none, [], ws⟩ := by
    rintro (_ | ⟨p, ps⟩) h
    · rfl
    · exact if_neg h
  have hfront : (frontToken (s.place ws) = .ident) = (frontToken ws = .ident) :=
    s.frontToken_place (Token.endsAlike_eq rfl) ws
  by_cases h : frontToken ws = .ident
  · obtain ⟨p, ps, rfl, hp⟩ := exists_cons_of_frontToken h (by simp)
    have hplaced : (s.placed p).token = .ident := hp
    rw [place_cons, aliasName, if_pos hplaced, aliasName, if_pos hp]
    rfl
  · rw [hother h, hother (by rwa [ne_eq, hfront])]
    cases asKeyword
    · rfl
    · exact carries_refuse _ ws

theorem carries_hints : s.Carries (Option.map s.expression) hints hints := by
  intro ws
  have hother : ∀ {ws}, ¬ (frontToken ws = .keyword .WITH ∧ frontToken ws.tail = .symbol .lparen) →
      hints ws = ⟨none, [], ws⟩ := by
    rintro (_ | ⟨p, ps⟩) h
    · rfl
    · exact if_neg h
  have hfront := s.frontTokens_place (t := .keyword .WITH) (u := .symbol .lparen) rfl rfl ws
  by_cases h : frontToken ws = .keyword .WITH ∧ frontToken ws.tail = .symbol .lparen
  · obtain ⟨p, ps, rfl, -⟩ := exists_cons_of_frontToken h.1 (by simp)
    have halone : p.token = .keyword .WITH ∧ frontToken ps = .symbol .lparen := h
    have hplaced : (s.placed p).token = .keyword .WITH ∧
        frontToken (s.place ps) = .symbol .lparen := hfront.mpr h
    rw [place_cons, hints, if_pos hplaced, hints, if_pos halone, carries_group ps]
    cases hgroup : (group ps).value <;> simp [step, hgroup, Relabelling.expression]
  · rw [hother h, hother (by rwa [hfront])]
    rfl

theorem carries_table (e : Expectation) : s.Carries (Option.map s.table) (table e) (table e) :=
  (carries_tableSource e).andThenSome fun _ =>
    (carries_accept rfl).bind fun asKeyword => (carries_aliasName asKeyword).bind fun _ =>
      carries_hints.bind fun _ => carries_done rfl

/-! ## Joins -/

theorem carries_outerKind (kind : JoinKind) : s.Carries id (outerKind kind) (outerKind kind) := by
  unfold outerKind
  split
  · exact carries_done rfl
  · exact (carries_accept rfl).bind fun present => by
      cases present <;> exact carries_done rfl

theorem carries_joinKind : s.Carries id joinKind joinKind := by
  intro ws
  have hkind : JoinKind.ofToken? (frontToken (s.place ws)) = JoinKind.ofToken? (frontToken ws) :=
    s.frontToken_place (Token.endsAlike_of_eq rfl rfl) ws
  unfold joinKind
  rw [hkind]
  cases h : JoinKind.ofToken? (frontToken ws) with
  | none => rfl
  | some kind =>
    cases ws with
    | nil => cases h
    | cons p ps => exact carries_outerKind kind ps

theorem carries_joinCondition (kind : JoinKind) :
    s.Carries (Option.map s.expression) (joinCondition kind) (joinCondition kind) := by
  unfold joinCondition
  split
  · exact carries_done rfl
  · exact (carries_accept rfl).bind fun present => by
      cases present
      · exact carries_refuse _
      · exact carries_run endsAlike_endsCondition _

theorem carries_join : s.Carries (Option.map s.join) join join :=
  carries_joinKind.bind fun kind => (carries_accept rfl).bind fun present => by
    cases present
    · exact carries_refuse _
    · exact (carries_table _).andThenSome fun _ =>
        (carries_joinCondition kind).bind fun _ => carries_done rfl

theorem atJoin_place (ws : List Placed) : atJoin (s.place ws) = atJoin ws := by
  cases ws with
  | nil =>
    have hstarts : (frontToken s.tail).startsJoin = false :=
      s.frontToken_place (f := Token.startsJoin) (Token.endsAlike_of_eq rfl rfl) []
    rw [place_nil, atJoin, Token.opensJoin, hstarts]
    rfl
  | cons p ps =>
    exact s.frontToken_place (f := p.token.opensJoin) (Token.endsAlike_of_eq rfl rfl) ps

/-- **Joins are carried**, by induction along them. -/
theorem carries_joins : s.Carries (List.map s.join) joins joins := by
  intro ws
  fun_induction joins ws with
  | case1 ws hjoin first hnone =>
    rw [joins, dif_pos (by rwa [atJoin_place]), carries_join ws]
    simp [step, first, hnone]
  | case2 ws hjoin first found hfound more ih =>
    rw [joins, dif_pos (by rwa [atJoin_place]), carries_join ws]
    simp [step, first, hfound, ih, more]
  | case3 ws hjoin =>
    rw [joins, dif_neg (by rwa [atJoin_place])]
    rfl

theorem carries_fromClause : s.Carries (Option.map s.fromClause) fromClause fromClause :=
  Carries.clause rfl <| (carries_table _).andThenSome fun _ =>
    carries_joins.bind fun _ => carries_done rfl

/-! ## Statements -/

theorem carries_bodyOf {k : Keyword} (hk : (Token.keyword k).endsStatement = false) :
    s.Carries (Option.map s.expression) (bodyOf k) (bodyOf k) :=
  Carries.clause hk (carries_run endsAlike_endsBody _)

theorem offset_place {size size' : Nat} (hsize : offset size' s.tail = s.index size)
    (ws : List Placed) : offset size' (s.place ws) = s.index (offset size ws) := by
  cases ws with
  | nil => exact hsize
  | cons p ps => rfl

/-- **A query is carried into every setting**, if the end of the words alone has the index at which
the tail begins. -/
theorem carries_query {size size' : Nat} (hsize : offset size' s.tail = s.index size)
    (start : Nat) : s.Carries s.query (query size start) (query size' (s.index start)) :=
  carries_quantifier.bind fun _ => carries_top.bind fun _ => carries_columns.bind fun _ =>
    carries_intoClause.bind fun _ => carries_fromClause.bind fun _ =>
      (carries_bodyOf rfl).bind fun _ => (carries_bodyOf rfl).bind fun _ =>
        (carries_bodyOf rfl).bind fun _ => (carries_bodyOf rfl).bind fun _ =>
          (carries_bodyOf rfl).bind fun _ ws => by
            simp only [offset_place hsize]
            rfl

/-- **The statements of a script in a setting are those of the words alone and then those of the
tail**, by induction along the search. -/
theorem statements_place {size size' : Nat} (hsize : offset size' s.tail = s.index size)
    (ws : List Placed) :
    let alone := statements size ws
    let behind := statements size' s.tail
    statements size' (s.place ws) =
      ⟨alone.value.map s.query ++ behind.value, alone.faults.map s.faultPlaced ++ behind.faults,
        behind.rest⟩ := by
  intro alone behind
  fun_induction statements size ws with
  | case1 => rfl
  | case2 p ps hselect found more ih =>
    have hplaced : (s.placed p).token = .keyword .SELECT := hselect
    have hfound : query size' (s.placed p).index (s.place ps) = s.step s.query found :=
      carries_query hsize p.index ps
    rw [place_cons, statements, if_pos hplaced, hfound]
    simp [alone, step, ih, more]
  | case3 p ps hselect ih =>
    have hplaced : ¬ (s.placed p).token = .keyword .SELECT := hselect
    rw [place_cons, statements, if_neg hplaced]
    exact ih

/-- **Relabelled words have the same statements, over relabelled words.** -/
theorem statements_relabel (r : Relabelling) (size : Nat) (ws : List Placed) :
    (statements (r.index size) (ws.map r.placed)).value = (statements size ws).value.map r.query ∧
      (statements (r.index size) (ws.map r.placed)).faults =
        (statements size ws).faults.map r.fault := by
  let s : Setting := { r with }
  have hsize : offset (r.index size) s.tail = s.index size := rfl
  have hplace := statements_place hsize ws
  have hwords : s.place ws = ws.map r.placed := List.append_nil _
  have hnothing : statements (r.index size) s.tail = ⟨[], [], []⟩ := by
    show statements (r.index size) [] = _
    rw [statements]
  have hfault : s.faultPlaced = r.fault := by
    funext f
    exact congrArg (SyntaxFault.mk f.expected) (Option.or_none)
  simp only [hwords, hnothing, List.append_nil, hfault] at hplace
  rw [hplace]
  exact ⟨rfl, rfl⟩

end SqlScript.Grammar
