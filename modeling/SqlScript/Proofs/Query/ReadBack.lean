import SqlScript.Proofs.Query.ReadTables
import SqlScript.Query.Session

/-!
# Query/ReadBack — a well-formed query is read back from any words that spell it

The words in front of the columns are told from the first column, each column from the next by the
comma between them, and the clauses behind by their ranks, which fall from the end of the statement
to its front (`le_clauseRank_of_reads_clause`).  So a session in front of the words of a well-formed
query reads exactly that query and stops behind them (`Session.select_written`).
-/

namespace SqlScript

namespace Grammar

open Parse

variable {ws rest : List Placed}

/-! ## In front of the columns -/

theorem quantifier_eq {d : Option Quantifier}
    (h : Reads (d.elim 1 fun d => d.keyword.written) ws rest)
    (hrest : d = none → frontToken rest ≠ .keyword .ALL ∧ frontToken rest ≠ .keyword .DISTINCT) :
    quantifier ws = ⟨d, [], rest⟩ := by
  cases d with
  | none =>
    obtain rfl := reads_one.mp h
    obtain ⟨hall, hdistinct⟩ := hrest rfl
    refine bind_eq_clean_iff.mpr ⟨false, ws, accept_eq (reads_one.mpr rfl) fun _ => hall, ?_⟩
    exact bind_eq_clean_iff.mpr
      ⟨false, ws, accept_eq (reads_one.mpr rfl) fun _ => hdistinct, rfl⟩
  | some d =>
    cases d with
    | all => exact bind_eq_clean_iff.mpr ⟨true, rest, accept_of_reads h, rfl⟩
    | distinct =>
      obtain ⟨p, hp, rfl⟩ := reads_keyword.mp h
      have hall : frontToken (p :: rest) ≠ .keyword .ALL := by
        rw [frontToken, hp]
        decide
      refine bind_eq_clean_iff.mpr
        ⟨false, p :: rest, accept_eq (reads_one.mpr rfl) fun _ => hall, ?_⟩
      exact bind_eq_clean_iff.mpr ⟨true, rest, accept_of_reads h, rfl⟩

theorem topCount_eq {t : Top} (ht : t.WellFormed) (h : Reads t.count.written ws rest) :
    topCount ws = ⟨some t.count, [], rest⟩ := by
  obtain ⟨⟨items⟩, percent, withTies⟩ := t
  obtain rfl : ws = items ++ rest := reads_expression.mp h
  rw [topCount, token_bind]
  rcases ht with hgroup | hint | hfloat
  · rw [frontToken_append hgroup.ne_nil, hgroup.opens]
    exact group_eq hgroup
  · obtain ⟨p, rfl, hp⟩ := List.map_eq_singleton_iff.mp hint
    rw [show frontToken ([p] ++ rest) = .int from hp]
    rfl
  · obtain ⟨p, rfl, hp⟩ := List.map_eq_singleton_iff.mp hfloat
    rw [show frontToken ([p] ++ rest) = .float from hp]
    rfl

theorem top_eq {v : Option Top} (hv : ∀ t ∈ v, t.WellFormed)
    (h : Reads (clauseWritten .TOP Top.written v) ws rest)
    (hnone : v = none → frontToken rest ≠ .keyword .TOP)
    (hpercent : ∀ t ∈ v, t.percent = false → t.withTies = false →
      frontToken rest ≠ .keyword .PERCENT)
    (hties : ∀ t ∈ v, t.withTies = false →
      ¬ (frontToken rest = .keyword .WITH ∧ frontToken rest.tail = .keyword .TIES)) :
    top ws = ⟨v, [], rest⟩ := by
  refine clause_eq h (fun t ht ws hread => ?_) hnone
  simp only [Top.written, reads_mul] at hread
  obtain ⟨ws₂, ⟨ws₁, hcount, hpercents⟩, htied⟩ := hread
  have hnext : t.percent = false → frontToken ws₂ ≠ .keyword .PERCENT := by
    intro hnot
    cases hwith : t.withTies with
    | false =>
      rw [hwith] at htied
      obtain rfl : ws₂ = rest := reads_one.mp htied
      exact hpercent t ht hnot hwith
    | true =>
      rw [hwith] at htied
      have hfront : frontToken ws₂ = .keyword .WITH := OpensWith.mul opensWith_token htied
      rw [hfront]
      decide
  refine andThenSome_eq_clean_iff.mpr (.inl ⟨t.count, ws₁, topCount_eq (hv t ht) hcount, ?_⟩)
  refine bind_eq_clean_iff.mpr ⟨t.percent, ws₂, accept_eq hpercents hnext, ?_⟩
  exact bind_eq_clean_iff.mpr ⟨t.withTies, rest, acceptPair_eq htied (hties t ht), rfl⟩

/-! ## Columns -/

theorem columns_of_end {e : Expression} (hrun : run endsColumn .column ws = ⟨some e, [], rest⟩)
    (hrest : frontToken rest ≠ .symbol .comma) : columns ws = ⟨[e], [], rest⟩ := by
  rw [columns]
  split
  · next hnil =>
    rw [hrun] at hnil ⊢
    obtain rfl : rest = [] := hnil
    rfl
  · next p ps hcons =>
    rw [hrun] at hcons ⊢
    obtain rfl : rest = p :: ps := hcons
    exact if_neg hrest

theorem columns_of_comma {e : Expression} {es : List Expression} {p : Placed} {ps : List Placed}
    (hrun : run endsColumn .column ws = ⟨some e, [], p :: ps⟩) (hp : p.token = .symbol .comma)
    (hmore : columns ps = ⟨es, [], rest⟩) : columns ws = ⟨e :: es, [], rest⟩ := by
  rw [columns]
  split
  · next hnil =>
    rw [hrun] at hnil
    cases hnil
  · next q qs hcons =>
    rw [hrun] at hcons ⊢
    obtain ⟨rfl, rfl⟩ := List.cons.inj hcons
    rw [if_pos hp, hmore]
    rfl

/-- **Columns are read back**, by induction along them: each one ends at the comma behind it, and
the last at a ranked word. -/
theorem columns_eq {es : List Expression} (hes : ∀ e ∈ es, IsRun endsColumn e.items)
    (h : Reads (separated (.symbol .comma) Expression.written es) ws rest)
    (hrest : 0 < (frontToken rest).clauseRank) : columns ws = ⟨es, [], rest⟩ := by
  induction es generalizing ws with
  | nil => exact absurd h reads_zero
  | cons e es ih =>
    obtain ⟨mid, he, hmore⟩ := reads_mul.mp h
    have hrun := hes e List.mem_cons_self
    cases es with
    | nil =>
      obtain rfl : mid = rest := reads_one.mp hmore
      exact columns_of_end (run_eq settled_endsColumn hrun he (endsRun_endsColumn hrest))
        (Token.ne_of_clauseRank_lt hrest)
    | cons f fs =>
      rw [List.map_cons, List.prod_cons] at hmore
      simp only [reads_mul] at hmore
      obtain ⟨ws₂, ⟨ws₁, hcomma, hf⟩, hfs⟩ := hmore
      obtain ⟨p, hp, rfl⟩ := reads_token.mp hcomma
      have hend : EndsRun endsColumn (p :: ws₁) := .inr (by simp [frontToken, endsColumn, hp])
      refine columns_of_comma (run_eq settled_endsColumn hrun he hend) hp ?_
      exact ih (fun g hg => hes g (List.mem_cons_of_mem e hg)) (hf.mul hfs)

/-! ## Statements -/

/-- **Ranks fall from the end of a statement to its front**: in front of a clause stands its keyword
or a word ranked behind it. -/
theorem le_clauseRank_of_reads_clause {α : Type} {k : Keyword} {l : α → Language Placed}
    {v : Option α} (h : Reads (clauseWritten k l v) ws rest)
    (hrest : (Token.keyword k).clauseRank < (frontToken rest).clauseRank) :
    (Token.keyword k).clauseRank ≤ (frontToken ws).clauseRank := by
  rcases frontToken_of_reads_clause h with hfront | rfl
  · exact Nat.le_of_eq (congrArg _ hfront.symm)
  · exact Nat.le_of_lt hrest

theorem intoClause_eq {v : Option QualifiedName}
    (h : Reads (clauseWritten .INTO QualifiedName.written v) ws rest)
    (hrest : 1 < (frontToken rest).clauseRank) : intoClause ws = ⟨v, [], rest⟩ := by
  refine clause_eq h (fun n _ ws hread => ?_) fun _ => Token.ne_of_clauseRank_lt hrest
  have hpoint : frontToken rest ≠ .symbol .period :=
    Token.ne_of_clauseRank_lt (Nat.zero_lt_of_lt hrest)
  obtain ⟨hfront, hname⟩ := qualifiedName_eq hread hpoint
  rw [token_bind, hfront]
  exact map_eq_clean_iff.mpr ⟨n, hname, rfl⟩

theorem fromClause_eq {v : Option FromClause} (hv : ∀ f ∈ v, f.WellFormed)
    (h : Reads (clauseWritten .FROM FromClause.written v) ws rest)
    (hrest : 2 < (frontToken rest).clauseRank) : fromClause ws = ⟨v, [], rest⟩ := by
  refine clause_eq h (fun f hf ws hread => ?_) fun _ => Token.ne_of_clauseRank_lt hrest
  obtain ⟨mid, htable, hjoins⟩ := reads_mul.mp hread
  obtain ⟨hjoins, hnext⟩ := joins_eq (hv f hf).joins hjoins hrest
  have htable := table_eq (x := .tableAfterFrom) (hv f hf).table htable (endsTable_of_follows hnext)
  refine andThenSome_eq_clean_iff.mpr (.inl ⟨f.table, mid, htable, ?_⟩)
  exact bind_eq_clean_iff.mpr ⟨f.joins, rest, hjoins, rfl⟩

theorem bodyOf_eq {k : Keyword} {v : Option Expression} (hv : WellFormedBody v)
    (h : Reads (clauseWritten k Expression.written v) ws rest)
    (hk : 2 < (Token.keyword k).clauseRank)
    (hrest : (Token.keyword k).clauseRank < (frontToken rest).clauseRank) :
    bodyOf k ws = ⟨v, [], rest⟩ :=
  clause_eq h
    (fun e he _ hread =>
      run_eq settled_endsBody (hv e he) hread (endsRun_endsBody (Nat.lt_trans hk hrest)))
    fun _ => Token.ne_of_clauseRank_lt hrest

/-- The columns show the first words of the first of them, and behind a first column of one word
there is no `TIES`. -/
theorem frontToken_of_reads_columns {q : Query} (hq : q.WellFormed)
    (h : Reads (separated (.symbol .comma) Expression.written q.columns) ws rest)
    (hrest : 0 < (frontToken rest).clauseRank) :
    frontToken ws = frontToken q.firstColumn ∧
      (frontToken ws.tail = .keyword .TIES → frontToken q.firstColumn.tail = .keyword .TIES) := by
  obtain ⟨e, es, hcolumns⟩ := List.exists_cons_of_ne_nil hq.columns_ne_nil
  have hrun : IsRun endsColumn e.items := hq.columns e (hcolumns ▸ List.mem_cons_self)
  have hfirst : q.firstColumn = e.items := by rw [Query.firstColumn, hcolumns]; rfl
  obtain ⟨p, ps, hitems⟩ := List.exists_cons_of_ne_nil hrun.ne_nil
  rw [hcolumns] at h
  obtain ⟨mid, he, hmore⟩ := reads_mul.mp h
  have hmid : frontToken mid ≠ .keyword .TIES := by
    cases es with
    | nil =>
      obtain rfl : mid = rest := reads_one.mp hmore
      exact Token.ne_of_clauseRank_lt hrest
    | cons f fs =>
      rw [List.map_cons, List.prod_cons] at hmore
      rw [OpensWith.mul (OpensWith.mul opensWith_token) hmore]
      decide
  rw [hfirst, reads_expression.mp he, hitems]
  refine ⟨rfl, fun hties => ?_⟩
  cases ps with
  | nil => exact absurd hties hmid
  | cons q qs => exact hties

/-- **A query is read back up to its columns**, in front of a ranked word. -/
theorem head_eq {q : Query} (hq : q.WellFormed) (h : Reads q.writtenHead ws rest)
    (hrest : 0 < (frontToken rest).clauseRank) :
    ∃ ws₁ ws₂, quantifier ws = ⟨q.quantifier, [], ws₁⟩ ∧ top ws₁ = ⟨q.top, [], ws₂⟩ ∧
      columns ws₂ = ⟨q.columns, [], rest⟩ := by
  simp only [Query.writtenHead, reads_mul] at h
  obtain ⟨ws₂, ⟨ws₁, hquantifier, htop⟩, hcolumns⟩ := h
  obtain ⟨hfirst, hsecond⟩ := frontToken_of_reads_columns hq hcolumns hrest
  have hopen := hq.open_columns
  have hquantified : q.quantifier = none →
      frontToken ws₁ ≠ .keyword .ALL ∧ frontToken ws₁ ≠ .keyword .DISTINCT := by
    intro hnone
    cases htops : q.top with
    | none =>
      rw [htops] at htop
      obtain rfl : ws₁ = ws₂ := reads_one.mp htop
      rw [hfirst]
      exact hopen.quantifier hnone htops
    | some t =>
      rw [htops] at htop
      rw [OpensWith.mul opensWith_token htop]
      decide
  have hlimited : top ws₁ = ⟨q.top, [], ws₂⟩ := by
    refine top_eq hq.top htop ?_ ?_ ?_
    · exact fun hnone => hfirst ▸ hopen.top hnone
    · exact fun t ht hpercent hties => hfirst ▸ hopen.percent t ht hpercent hties
    · exact fun t ht hties htied => hopen.ties t ht hties ⟨hfirst ▸ htied.1, hsecond htied.2⟩
  exact ⟨ws₁, ws₂, quantifier_eq hquantifier hquantified, hlimited,
    columns_eq hq.columns hcolumns hrest⟩

/-- The clauses behind the tables, read into a query. -/
def trailing (size start : Nat) (q : Query) : Parse Query := do
  let whereClause ← bodyOf .WHERE
  let groupBy ← bodyOf .GROUP_BY
  let having ← bodyOf .HAVING
  let orderBy ← bodyOf .ORDER_BY
  let options ← bodyOf .OPTION
  fun ws =>
    ⟨{ q with whereClause, groupBy, having, orderBy, options, range := ⟨start, offset size ws⟩ },
      [], ws⟩

/-- **Behind its columns a query is its tables and its trailing clauses.** -/
theorem query_of_head {size start : Nat} {q : Query} (hq : q.WellFormed)
    (h : Reads q.writtenHead ws rest) (hrest : 0 < (frontToken rest).clauseRank) :
    query size start ws = (do
      let into ← intoClause
      let fromClause ← fromClause
      trailing size start { q with into, fromClause }) rest := by
  obtain ⟨ws₁, ws₂, hquantifier, htop, hcolumns⟩ := head_eq hq h hrest
  rw [query, bind_of_clean hquantifier, bind_of_clean htop, bind_of_clean hcolumns]
  rfl

/-- **Trailing clauses are read back** in front of a word that closes the query, and the first of
them shows a word ranked behind the tables. -/
theorem trailing_eq (size start : Nat) {q : Query} (hq : q.WellFormed)
    (h : Reads q.writtenTrail ws rest) (hrest : (frontToken rest).closesQuery = true) :
    2 < (frontToken ws).clauseRank ∧
      trailing size start q ws = ⟨{ q with range := ⟨start, offset size rest⟩ }, [], rest⟩ := by
  obtain ⟨ws₄, h, hoptions⟩ := reads_mul.mp h
  obtain ⟨ws₃, h, horderBy⟩ := reads_mul.mp h
  obtain ⟨ws₂, h, hhaving⟩ := reads_mul.mp h
  obtain ⟨ws₁, hwhere, hgroupBy⟩ := reads_mul.mp h
  -- The ranks of the words between the clauses, from the last to the first.
  have hrank : 7 < (frontToken rest).clauseRank := by
    rw [Token.clauseRank_of_closesQuery hrest]
    decide
  have hrank₄ : 6 < (frontToken ws₄).clauseRank := le_clauseRank_of_reads_clause hoptions hrank
  have hrank₃ : 5 < (frontToken ws₃).clauseRank := le_clauseRank_of_reads_clause horderBy hrank₄
  have hrank₂ : 4 < (frontToken ws₂).clauseRank := le_clauseRank_of_reads_clause hhaving hrank₃
  have hrank₁ : 3 < (frontToken ws₁).clauseRank := le_clauseRank_of_reads_clause hgroupBy hrank₂
  refine ⟨le_clauseRank_of_reads_clause hwhere hrank₁, ?_⟩
  refine bind_eq_clean_iff.mpr ⟨q.whereClause, ws₁, ?_, ?_⟩
  · exact bodyOf_eq hq.whereClause hwhere (by decide) hrank₁
  refine bind_eq_clean_iff.mpr ⟨q.groupBy, ws₂, ?_, ?_⟩
  · exact bodyOf_eq hq.groupBy hgroupBy (by decide) hrank₂
  refine bind_eq_clean_iff.mpr ⟨q.having, ws₃, ?_, ?_⟩
  · exact bodyOf_eq hq.having hhaving (by decide) hrank₃
  refine bind_eq_clean_iff.mpr ⟨q.orderBy, ws₄, ?_, ?_⟩
  · exact bodyOf_eq hq.orderBy horderBy (by decide) hrank₄
  exact bind_eq_clean_iff.mpr
    ⟨q.options, rest, bodyOf_eq hq.options hoptions (by decide) hrank, rfl⟩

/-- **A well-formed query is read back** from its words behind `SELECT`, in front of a word that
closes it. -/
theorem query_eq {size start : Nat} {q : Query} (hq : q.WellFormed)
    (h : Reads q.writtenBody ws rest) (hrest : (frontToken rest).closesQuery = true) :
    query size start ws = ⟨{ q with range := ⟨start, offset size rest⟩ }, [], rest⟩ := by
  rw [q.writtenBody_eq] at h
  obtain ⟨ws₃, h, htrail⟩ := reads_mul.mp h
  obtain ⟨ws₂, h, hfrom⟩ := reads_mul.mp h
  obtain ⟨ws₁, hhead, hinto⟩ := reads_mul.mp h
  obtain ⟨hrank₃, htrail⟩ := trailing_eq size start hq htrail hrest
  have hrank₂ : 1 < (frontToken ws₂).clauseRank := le_clauseRank_of_reads_clause hfrom hrank₃
  have hrank₁ : 0 < (frontToken ws₁).clauseRank := le_clauseRank_of_reads_clause hinto hrank₂
  rw [query_of_head hq hhead hrank₁, bind_of_clean (intoClause_eq hinto hrank₂),
    bind_of_clean (fromClause_eq hq.fromClause hfrom hrank₃)]
  exact htrail

end Grammar

/-! ## Sessions -/

namespace Session

/-- **A well-formed query can be written down, and whatever words spell it, reading them gives the
query back.**  A session in front of them reads it without a fault and stops behind them, if what
follows closes the query. -/
theorem select_written {q : Query} (hq : q.WellFormed) :
    (∃ ws, ws ∈ q.written) ∧
      ∀ (s : Session) (ws rest : List Placed), ws ∈ q.written → s.rest = ws ++ rest →
        (frontToken rest).closesQuery = true →
          s.select? = (some { q with range := ⟨s.offset, Grammar.offset s.size rest⟩ },
            { s with rest := rest }) := by
  refine ⟨hq.exists_written, fun s ws rest hws hs hrest => ?_⟩
  obtain ⟨mid, hselect, hbody⟩ := reads_mul.mp ⟨ws, hws, hs.symm⟩
  obtain ⟨p, hp, hcons⟩ := reads_keyword.mp hselect
  have hread : Grammar.select s.size s.rest
      = ⟨some { q with range := ⟨s.offset, Grammar.offset s.size rest⟩ }, [], rest⟩ := by
    rw [offset, hcons, Grammar.select, if_pos hp]
    exact Parse.map_eq_clean_iff.mpr ⟨_, Grammar.query_eq hq hbody hrest, rfl⟩
  rw [select?, run, hread, List.append_nil]

/-- With ties, a comma inside parentheses, a derived table, and a condition that calls the function
`LEFT`. -/
theorem select_written_outer_join :
    let word (i : Nat) (t : Token) (literal : String) : Placed := ⟨i, ⟨t, literal, ⟨i, i + 1⟩⟩⟩
    let call : List Placed :=
      [word 5 .ident "f", word 6 (.symbol .lparen) "(", word 7 .ident "a",
        word 8 (.symbol .comma) ",", word 9 .ident "b", word 10 (.symbol .rparen) ")"]
    let derived : List Placed :=
      [word 19 (.symbol .lparen) "(", word 20 (.keyword .SELECT) "select", word 21 .int "1",
        word 22 (.symbol .rparen) ")"]
    let condition : List Placed :=
      [word 24 (.keyword .LEFT) "left", word 25 (.symbol .lparen) "(", word 26 .ident "c",
        word 27 (.symbol .rparen) ")"]
    let ws : List Placed :=
      [word 0 (.keyword .SELECT) "select", word 1 (.keyword .TOP) "top", word 2 .int "5",
        word 3 (.keyword .WITH) "with", word 4 (.keyword .TIES) "ties"] ++ call ++
      [word 11 (.symbol .comma) ",", word 12 .ident "c", word 13 (.keyword .FROM) "from",
        word 14 .ident "t", word 15 .ident "x", word 16 (.keyword .LEFT) "left",
        word 17 (.keyword .OUTER) "outer", word 18 (.keyword .JOIN) "join"] ++ derived ++
      [word 23 (.keyword .ON) "on"] ++ condition ++
      [word 28 (.keyword .ORDER_BY) "order by", word 29 .ident "c"]
    let rest : List Placed := [word 30 (.symbol .semicolon) ";"]
    let q : Query :=
      { quantifier := none
        top := some ⟨⟨[word 2 .int "5"]⟩, false, true⟩
        columns := [⟨call⟩, ⟨[word 12 .ident "c"]⟩]
        into := none
        fromClause := some ⟨⟨.named ⟨["t"]⟩, false, some "x", none⟩,
          [⟨.leftOuter, ⟨.derived ⟨derived⟩, false, none, none⟩, some ⟨condition⟩⟩]⟩
        whereClause := none
        groupBy := none
        having := none
        orderBy := some ⟨[word 29 .ident "c"]⟩
        options := none
        range := {} }
    let s : Session := ⟨31, ws ++ rest, []⟩
    q.WellFormed ∧ ws ∈ q.written ∧ (frontToken rest).closesQuery = true ∧
      s.select? = (some { q with range := ⟨0, 30⟩ }, { s with rest := rest }) := by
  intro word call derived condition ws rest q s
  have hq : q.WellFormed := by decide +kernel
  have hreads : Reads q.written ws [] := by
    simp [q, ws, call, derived, condition, word, Query.written, Query.writtenBody, clauseWritten,
      separated, Top.written, FromClause.written, Table.written, TableSource.written,
      QualifiedName.written, Join.written, Join.opening, JoinKind.written, JoinKind.keywords,
      Placed.token]
  obtain ⟨us, hus, happend⟩ := hreads
  have hws : ws ∈ q.written := by rwa [← happend, List.append_nil]
  exact ⟨hq, hws, rfl, (select_written hq).2 s ws rest hws rfl rfl⟩

end Session

end SqlScript
