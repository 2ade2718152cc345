import SqlScript.Proofs.Query.Follow

/-!
# Query/ReadTables — tables and joins are read back from their words

The parts of a table are told apart by their first words, from its end to its front, and a join by
the words of its kind (`table_eq`, `join_eq`).  A list of joins is read back by induction: each join
ends where the next one stands (`joins_append`).
-/

namespace SqlScript.Grammar

open Parse

variable {ws rest : List Placed}

/-! ## Tables -/

theorem takeDotted_eq {parts : List String}
    (h : Reads (parts.map fun n => (Token.symbol .period).written * identWritten n).prod ws rest)
    (hrest : frontToken rest ≠ .symbol .period) : takeDotted ws = (parts, rest) := by
  induction parts generalizing ws with
  | nil =>
    obtain rfl := reads_one.mp h
    rw [takeDotted.eq_def]
    split
    · next d p ps => exact if_neg fun hdotted => hrest hdotted.1
    · rfl
  | cons n parts ih =>
    rw [List.map_cons, List.prod_cons] at h
    simp only [reads_mul] at h
    obtain ⟨ws₂, ⟨ws₁, hpoint, hpart⟩, hparts⟩ := h
    obtain ⟨d, hd, rfl⟩ := reads_token.mp hpoint
    obtain ⟨p, hp, rfl, rfl⟩ := reads_ident.mp hpart
    rw [takeDotted, if_pos ⟨hd, hp⟩, ih hparts]

/-- A name is read back in front of anything but a point. -/
theorem qualifiedName_eq {n : QualifiedName} (h : Reads n.written ws rest)
    (hrest : frontToken rest ≠ .symbol .period) :
    frontToken ws = .ident ∧ qualifiedName ws = ⟨n, [], rest⟩ := by
  obtain ⟨parts⟩ := n
  cases parts with
  | nil => exact absurd h reads_zero
  | cons part parts =>
    obtain ⟨mid, hpart, hparts⟩ := reads_mul.mp h
    obtain ⟨p, hp, rfl, rfl⟩ := reads_ident.mp hpart
    refine ⟨hp, ?_⟩
    rw [qualifiedName, takeDotted_eq hparts hrest]

theorem tableSource_eq {x : Expectation} {s : TableSource} (hs : s.WellFormed)
    (h : Reads s.written ws rest) (hrest : frontToken rest ≠ .symbol .period) :
    tableSource x ws = ⟨some s, [], rest⟩ := by
  rw [tableSource, token_bind]
  cases s with
  | named name =>
    obtain ⟨hfront, hname⟩ := qualifiedName_eq h hrest
    rw [hfront]
    exact map_eq_clean_iff.mpr ⟨name, hname, rfl⟩
  | derived query =>
    obtain rfl := reads_expression.mp h
    rw [frontToken_append hs.ne_nil, hs.opens]
    exact map_eq_clean_iff.mpr ⟨some query, group_eq hs, rfl⟩

theorem aliasName_eq {asKeyword : Bool} {name : Option String}
    (h : Reads (name.elim 1 identWritten) ws rest) (has : asKeyword = true → name ≠ none)
    (hrest : frontToken rest ≠ .ident) : aliasName asKeyword ws = ⟨name, [], rest⟩ := by
  cases name with
  | none =>
    obtain rfl := reads_one.mp h
    have hplain : asKeyword = false := Bool.eq_false_iff.mpr fun htrue => has htrue rfl
    rw [hplain]
    cases ws with
    | nil => rfl
    | cons p ps => exact if_neg hrest
  | some name =>
    obtain ⟨p, hp, rfl, rfl⟩ := reads_ident.mp h
    exact if_pos hp

theorem hints_eq {hint : Option Expression}
    (hhint : ∀ e ∈ hint, frontToken e.items = .keyword .WITH ∧ IsGroup e.items.tail)
    (h : Reads (hint.elim 1 Expression.written) ws rest)
    (hrest : frontToken rest ≠ .keyword .WITH) : hints ws = ⟨hint, [], rest⟩ := by
  cases hint with
  | none =>
    obtain rfl := reads_one.mp h
    cases ws with
    | nil => rfl
    | cons p ps => exact if_neg fun hwith => hrest hwith.1
  | some e =>
    obtain ⟨items⟩ := e
    obtain rfl : ws = items ++ rest := reads_expression.mp h
    obtain ⟨hwith, hgroup⟩ := hhint _ rfl
    obtain ⟨p, ps, rfl, hp⟩ := exists_cons_of_frontToken hwith (by decide)
    replace hgroup : IsGroup ps := hgroup
    have hopens : frontToken (ps ++ rest) = .symbol .lparen := by
      rw [frontToken_append hgroup.ne_nil]
      exact hgroup.opens
    have hread : group (ps ++ rest) = ⟨some ⟨ps⟩, [], rest⟩ := group_eq hgroup
    rw [List.cons_append, hints, if_pos ⟨hp, hopens⟩, hread]
    rfl

/-- **A table is read back** in front of a word that ends it.  Going back from that word, hints show
`WITH`, an alias an identifier and `AS` itself, so no part in front takes them for its own. -/
theorem table_eq {x : Expectation} {t : Table} (ht : t.WellFormed) (h : Reads t.written ws rest)
    (hrest : (frontToken rest).endsTable = true) : table x ws = ⟨some t, [], rest⟩ := by
  simp only [Table.written, reads_mul] at h
  obtain ⟨ws₃, ⟨ws₂, ⟨ws₁, hsource, has⟩, hname⟩, hhint⟩ := h
  simp only [Token.endsTable, Bool.and_eq_true, decide_eq_true_eq, ne_eq] at hrest
  obtain ⟨⟨⟨hperiod, hasRest⟩, hident⟩, hwith⟩ := hrest
  have hfront₃ : frontToken ws₃ = .keyword .WITH ∨ ws₃ = rest :=
    OpensWith.elim (fun e he => opensWith_expression (ht.hints e he).1 (by decide)) hhint
  have hfront₂ : frontToken ws₂ = .ident ∨ ws₂ = ws₃ :=
    OpensWith.elim (fun _ _ => opensWith_ident) hname
  have hfront₁ : frontToken ws₁ = .keyword .AS ∨ ws₁ = ws₂ := opensWith_token.ite has
  have hident₃ : frontToken ws₃ ≠ .ident := frontToken_ne hfront₃ (by decide) hident
  have has₂ : frontToken ws₂ ≠ .keyword .AS :=
    frontToken_ne hfront₂ (by decide) (frontToken_ne hfront₃ (by decide) hasRest)
  have hperiod₁ : frontToken ws₁ ≠ .symbol .period :=
    frontToken_ne hfront₁ (by decide)
      (frontToken_ne hfront₂ (by decide) (frontToken_ne hfront₃ (by decide) hperiod))
  refine andThenSome_eq_clean_iff.mpr
    (.inl ⟨t.source, ws₁, tableSource_eq ht.source hsource hperiod₁, ?_⟩)
  refine bind_eq_clean_iff.mpr ⟨t.asKeyword, ws₂, accept_eq has fun _ => has₂, ?_⟩
  refine bind_eq_clean_iff.mpr ⟨t.aliasName, ws₃, aliasName_eq hname ht.aliasName hident₃, ?_⟩
  exact bind_eq_clean_iff.mpr ⟨t.hints, rest, hints_eq ht.hints hhint hwith, rfl⟩

/-! ## Joins -/

/-- Every kind of join is spelled by the keyword that names it, or by the keyword of the kind that
`OUTER` marks, by `OUTER`, and by `JOIN`. -/
theorem keywords_eq (kind : JoinKind) :
    (∃ k, kind.keywords = [k, .JOIN] ∧ JoinKind.ofToken? (.keyword k) = some kind) ∨
      ∃ k plain, kind.keywords = [k, .OUTER, .JOIN] ∧
        JoinKind.ofToken? (.keyword k) = some plain ∧ plain.outer? = some kind := by
  cases kind
  case leftOuter => exact .inr ⟨.LEFT, .left, rfl, rfl, rfl⟩
  case rightOuter => exact .inr ⟨.RIGHT, .right, rfl, rfl, rfl⟩
  case fullOuter => exact .inr ⟨.FULL, .full, rfl, rfl, rfl⟩
  all_goals exact .inl ⟨_, rfl, rfl⟩

/-- A keyword that names a kind of join can open a join. -/
theorem startsJoin_of_ofToken? {t : Token} {kind : JoinKind}
    (h : JoinKind.ofToken? t = some kind) : t.startsJoin = true := by
  unfold JoinKind.ofToken? at h
  split at h
  case h_6 => cases h
  all_goals rfl

theorem joinKind_of_ofToken? {k : Keyword} {plain : JoinKind} {p : Placed} {ps : List Placed}
    (hp : p.token = .keyword k) (hk : JoinKind.ofToken? (.keyword k) = some plain) :
    joinKind (p :: ps) = outerKind plain ps := by
  have hfront : frontToken (p :: ps) = .keyword k := hp
  simp [joinKind, hfront, hk]

theorem outerKind_of_plain {kind : JoinKind} (h : frontToken ws ≠ .keyword .OUTER) :
    outerKind kind ws = ⟨kind, [], ws⟩ := by
  unfold outerKind
  cases kind.outer? with
  | none => rfl
  | some outer =>
    exact bind_eq_clean_iff.mpr ⟨false, ws, accept_eq (reads_one.mpr rfl) fun _ => h, rfl⟩

theorem outerKind_of_outer {kind outer : JoinKind} {p : Placed} (h : kind.outer? = some outer)
    (hp : p.token = .keyword .OUTER) : outerKind kind (p :: rest) = ⟨outer, [], rest⟩ := by
  unfold outerKind
  rw [h]
  exact bind_eq_clean_iff.mpr
    ⟨true, rest, accept_of_reads (reads_keyword.mpr ⟨p, hp, rfl⟩), rfl⟩

/-- A keyword that can open a join opens one in front of anything but a parenthesis. -/
theorem atJoin_cons {p : Placed} {ps : List Placed} (hp : p.token.startsJoin = true)
    (hps : frontToken ps ≠ .symbol .lparen) : atJoin (p :: ps) = true :=
  Bool.and_eq_true_iff.mpr ⟨hp, bne_iff_ne.mpr hps⟩

/-- **A kind of join spelled in full is read back**, and a join stands there. -/
theorem joinKind_eq {kind : JoinKind} (h : Reads kind.written ws rest) :
    atJoin ws = true ∧ ∃ p, p.token = .keyword .JOIN ∧ joinKind ws = ⟨kind, [], p :: rest⟩ := by
  rcases keywords_eq kind with ⟨k, hkeywords, hk⟩ | ⟨k, plain, hkeywords, hk, houter⟩
  · rw [JoinKind.written, hkeywords] at h
    simp only [List.map_cons, List.map_nil, List.prod_cons, List.prod_nil, reads_mul, reads_one,
      reads_keyword] at h
    obtain ⟨_, ⟨p, hp, rfl⟩, ps, ⟨q, hq, rfl⟩, rfl⟩ := h
    have hfront : frontToken (q :: ps) = .keyword .JOIN := hq
    have hplain : frontToken (q :: ps) ≠ .keyword .OUTER := by
      rw [hfront]
      decide
    refine ⟨atJoin_cons (hp ▸ startsJoin_of_ofToken? hk) (by simp [hfront]), q, hq, ?_⟩
    rw [joinKind_of_ofToken? hp hk, outerKind_of_plain hplain]
  · rw [JoinKind.written, hkeywords] at h
    simp only [List.map_cons, List.map_nil, List.prod_cons, List.prod_nil, reads_mul, reads_one,
      reads_keyword] at h
    obtain ⟨_, ⟨p, hp, rfl⟩, _, ⟨o, ho, rfl⟩, ps, ⟨q, hq, rfl⟩, rfl⟩ := h
    have hfront : frontToken (o :: q :: ps) = .keyword .OUTER := ho
    refine ⟨atJoin_cons (hp ▸ startsJoin_of_ofToken? hk) (by simp [hfront]), q, hq, ?_⟩
    rw [joinKind_of_ofToken? hp hk, outerKind_of_outer houter ho]

/-- **The opening of a join is read back**: spelled in full, or as `JOIN` alone, where the name of
the table tells it from a function. -/
theorem opening_eq {j : Join} {mid : List Placed} (h : Reads j.opening ws mid)
    (htable : Reads j.table.written mid rest) :
    atJoin ws = true ∧ ∃ p, p.token = .keyword .JOIN ∧ joinKind ws = ⟨j.kind, [], p :: mid⟩ := by
  rcases reads_add.mp h with hfull | hbare
  · exact joinKind_eq hfull
  · split at hbare
    · next hinner =>
      obtain ⟨p, hp, rfl⟩ := reads_keyword.mp hbare
      have hnext : frontToken mid = .ident := opensWith_table hinner.2 htable
      refine ⟨atJoin_cons (hp ▸ rfl) (by simp [hnext]), p, hp, ?_⟩
      rw [hinner.1]
      simp [joinKind, frontToken, hp, JoinKind.ofToken?, done]
    · exact absurd hbare reads_zero

theorem joinCondition_eq {j : Join} (hj : j.WellFormed)
    (h : Reads (clauseWritten .ON Expression.written j.condition) ws rest)
    (hrest : EndsRun endsCondition rest) : joinCondition j.kind ws = ⟨j.condition, [], rest⟩ := by
  unfold joinCondition
  cases hcondition : j.condition with
  | none =>
    rw [hcondition] at h
    obtain rfl := reads_one.mp h
    rw [if_pos (hj.cross.mp hcondition)]
    rfl
  | some e =>
    have hkind : j.kind ≠ .cross := fun hcross => by
      have hnone := hj.cross.mpr hcross
      rw [hcondition] at hnone
      cases hnone
    rw [hcondition] at h
    obtain ⟨mid, hon, he⟩ := reads_mul.mp h
    rw [if_neg hkind]
    refine bind_eq_clean_iff.mpr ⟨true, mid, accept_of_reads hon, ?_⟩
    exact run_eq settled_endsCondition (hj.condition e hcondition) he hrest

/-- Joins and clauses behind the tables end a table in front of them. -/
theorem endsTable_of_follows (h : atJoin ws = true ∨ 2 < (frontToken ws).clauseRank) :
    (frontToken ws).endsTable = true := by
  rcases h with hat | hrank
  · exact Token.endsTable_of_startsJoin (Bool.and_eq_true_iff.mp hat).1
  · exact (Token.endsTable_of_clauseRank_pos (Nat.zero_lt_of_lt hrank)).1

/-- **A join is read back** in front of another join and of a clause behind the tables. -/
theorem join_eq {j : Join} (hj : j.WellFormed) (h : Reads j.written ws rest)
    (hrest : atJoin rest = true ∨ 2 < (frontToken rest).clauseRank) :
    atJoin ws = true ∧ join ws = ⟨some j, [], rest⟩ := by
  simp only [Join.written, reads_mul] at h
  obtain ⟨ws₂, ⟨ws₁, hopening, htable⟩, hcondition⟩ := h
  obtain ⟨hat, p, hp, hkind⟩ := opening_eq hopening htable
  have hends : (frontToken ws₂).endsTable = true := by
    rcases frontToken_of_reads_clause hcondition with hon | rfl
    · rw [hon]
      rfl
    · exact endsTable_of_follows hrest
  refine ⟨hat, bind_eq_clean_iff.mpr ⟨j.kind, p :: ws₁, hkind, ?_⟩⟩
  refine bind_eq_clean_iff.mpr
    ⟨true, ws₁, accept_of_reads (reads_keyword.mpr ⟨p, hp, rfl⟩), ?_⟩
  refine andThenSome_eq_clean_iff.mpr (.inl ⟨j.table, ws₂, table_eq hj.table htable hends, ?_⟩)
  exact bind_eq_clean_iff.mpr
    ⟨j.condition, rest, joinCondition_eq hj hcondition (endsRun_endsCondition hrest), rfl⟩

/-- **Joins are read back** in front of another join and of a clause behind the tables, by induction
along them: each one ends at the next, and reading goes on behind the last.  What stands in front of
them is again a join or such a clause. -/
theorem joins_append {js : List Join} (hjs : ∀ j ∈ js, j.WellFormed)
    (h : Reads (js.map Join.written).prod ws rest)
    (hrest : atJoin rest = true ∨ 2 < (frontToken rest).clauseRank) :
    (atJoin ws = true ∨ 2 < (frontToken ws).clauseRank) ∧
      joins ws = ⟨js ++ (joins rest).value, (joins rest).faults, (joins rest).rest⟩ := by
  induction js generalizing ws with
  | nil =>
    obtain rfl := reads_one.mp h
    exact ⟨hrest, rfl⟩
  | cons j js ih =>
    rw [List.map_cons, List.prod_cons] at h
    obtain ⟨mid, hj, hmore⟩ := reads_mul.mp h
    obtain ⟨hnext, hjoins⟩ := ih (fun i hi => hjs i (List.mem_cons_of_mem j hi)) hmore
    obtain ⟨hat, hjoin⟩ := join_eq (hjs j List.mem_cons_self) hj hnext
    refine ⟨.inl hat, ?_⟩
    rw [joins, dif_pos hat, hjoin]
    simp only [hjoins, List.nil_append, List.cons_append]

/-- No join is read where none stands. -/
theorem joins_of_clauseRank (h : 2 < (frontToken ws).clauseRank) : joins ws = ⟨[], [], ws⟩ := by
  have hstarts := (Token.endsTable_of_clauseRank_pos (Nat.zero_lt_of_lt h)).2
  have hat : ¬ atJoin ws = true := fun hat =>
    Bool.false_ne_true (hstarts.symm.trans (Bool.and_eq_true_iff.mp hat).1)
  rw [joins, dif_neg hat]

/-- In front of a clause behind the tables nothing but the joins is read. -/
theorem joins_eq {js : List Join} (hjs : ∀ j ∈ js, j.WellFormed)
    (h : Reads (js.map Join.written).prod ws rest) (hrest : 2 < (frontToken rest).clauseRank) :
    joins ws = ⟨js, [], rest⟩ ∧ (atJoin ws = true ∨ 2 < (frontToken ws).clauseRank) := by
  obtain ⟨hnext, hjoins⟩ := joins_append hjs h (.inr hrest)
  rw [joins_of_clauseRank hrest, List.append_nil] at hjoins
  exact ⟨hjoins, hnext⟩

end SqlScript.Grammar
