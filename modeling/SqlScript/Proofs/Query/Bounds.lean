import SqlScript.Proofs.Query.Follow
import SqlScript.Proofs.Query.Invariant
import SqlScript.Proofs.Query.RunEnds
import SqlScript.Proofs.Query.Slices

/-!
# Query/Bounds — the runs of a query have their parentheses in order and end where they should

    SELECT TOP (1) f(a, b), c FROM (SELECT d) t JOIN u ON LEFT(x, 1) = y WHERE (e ;
               ▔▔▔ ▔▔▔▔▔▔▔  ▔      ▔▔▔▔▔▔▔▔▔▔             ▔▔▔▔▔▔▔▔▔▔▔▔▔       ▔▔

Row limits, derived tables and hints are groups; columns, conditions and bodies are runs, cut from
what the parts before them left (`Query.CutFrom`).  The next word of the script behind a run is the
first that the run did not take (`Expression.next?_eq`), so a run that leaves a parenthesis open
stands at the end of its statement (`Outline.bounded_parse`).
-/

namespace SqlScript

open Grammar

/-! ## Where a part was read -/

namespace Parse

variable {α β : Type} {ws : List Placed}

/-- Behind a keyword that must be there, what is read was read behind the keyword. -/
theorem value_of_accept {k : Keyword} {p p' : Parse (Option α)} {a : α}
    (hnone : ∀ ws, (p' ws).value = none)
    (h : ((accept k >>= fun present => if present then p else p') ws).value = some a) :
    (p ws.tail).value = some a := by
  have hbind : ((accept k >>= fun present => if present then p else p') ws).value =
      ((if (accept k ws).value then p else p') (accept k ws).rest).value := rfl
  rw [hbind] at h
  by_cases hfront : frontToken ws = .keyword k
  · rw [accept, if_pos hfront] at h
    exact h
  · rw [accept, if_neg hfront] at h
    exact absurd (h.symm.trans (hnone ws)) (by simp)

/-- What is read in two parts has a property if the second part gives it, wherever the first one
leaves the words. -/
theorem value_of_bind {P : β → Prop} {p : Parse α} {f : α → Parse β} {mid : List Placed}
    (hmid : mid <:+ ws) (hp : p.Forward)
    (h : ∀ rest, rest <:+ ws → P (f (p mid).value rest).value) : P ((p >>= f) mid).value :=
  h _ ((hp mid).trans hmid)

theorem value_of_clause {k : Keyword} {body : Parse (Option α)} {a : α}
    (h : (clause k body ws).value = some a) : (body ws.tail).value = some a :=
  value_of_accept (fun _ => rfl) h

/-- A part that goes on was there. -/
theorem exists_of_andThenSome {p : Parse (Option α)} {f : α → Parse (Option β)} {b : β}
    (h : (andThenSome p f ws).value = some b) :
    ∃ a, (p ws).value = some a ∧ (f a (p ws).rest).value = some b := by
  unfold andThenSome at h
  simp only [bind, andThen] at h
  cases hfound : (p ws).value with
  | none =>
    rw [hfound] at h
    cases h
  | some a =>
    rw [hfound] at h
    exact ⟨a, rfl, h⟩

/-- A group behind an opening parenthesis. -/
theorem isGroup_of_group {e : Expression} (hopen : frontToken ws = .symbol .lparen)
    (h : (group ws).value = some e) : IsGroup e.items := by
  unfold group at h
  simp only at h
  split at h
  · next hclosed =>
    obtain rfl := Option.some.inj h
    have hgroup := groupsFrom_takeGroup (.inr hopen) hclosed
    refine ⟨hgroup, ?_⟩
    rw [← takeGroup_append 0 ws, frontToken_append hgroup.ne_nil] at hopen
    exact hopen
  · cases h

end Parse

/-! ## Parts cut from words -/

/-- **A run cut from some words**, and what was left behind it. -/
def Expression.CutFrom (stops : (token next : Token) → Bool) (ws : List Placed)
    (e : Expression) : Prop :=
  e.items ≠ [] ∧ ∃ rest, e.items ++ rest <:+ ws ∧ RunsUpTo stops 0 e.items rest

theorem Expression.CutFrom.of_suffix {stops : Token → Token → Bool} {ws mid : List Placed}
    {e : Expression} (h : e.CutFrom stops mid) (hmid : mid <:+ ws) : e.CutFrom stops ws := by
  obtain ⟨hne, rest, hsuffix, hrun⟩ := h
  exact ⟨hne, rest, hsuffix.trans hmid, hrun⟩

/-- The runs of a table are groups, behind `WITH` where they are hints. -/
structure Table.Grouped (t : Table) : Prop where
  derived : ∀ e ∈ t.source.query?, IsGroup e.items
  hints : ∀ e ∈ t.hints, frontToken e.items = .keyword .WITH ∧ IsGroup e.items.tail

structure Join.CutFrom (ws : List Placed) (j : Join) : Prop where
  table : j.table.Grouped
  condition : ∀ e ∈ j.condition, e.CutFrom endsCondition ws

theorem Join.CutFrom.of_suffix {ws mid : List Placed} {j : Join} (h : j.CutFrom mid)
    (hmid : mid <:+ ws) : j.CutFrom ws :=
  ⟨h.table, fun e he => (h.condition e he).of_suffix hmid⟩

structure FromClause.CutFrom (ws : List Placed) (f : FromClause) : Prop where
  table : f.table.Grouped
  joins : ∀ j ∈ f.joins, j.CutFrom ws

theorem FromClause.CutFrom.of_suffix {ws mid : List Placed} {f : FromClause} (h : f.CutFrom mid)
    (hmid : mid <:+ ws) : f.CutFrom ws :=
  ⟨h.table, fun j hj => (h.joins j hj).of_suffix hmid⟩

/-- The conditions of the joins of a query. -/
def Query.conditions (q : Query) : List Expression :=
  q.fromClause.elim [] fun f => f.joins.filterMap Join.condition

/-- The bodies of the trailing clauses of a query. -/
def Query.bodies (q : Query) : List Expression :=
  [q.whereClause, q.groupBy, q.having, q.orderBy, q.options].flatMap Option.toList

/-- **A query whose parts are cut from some words.** -/
structure Query.CutFrom (ws : List Placed) (q : Query) : Prop where
  top : ∀ t ∈ q.top, t.WellFormed
  columns : ∀ e ∈ q.columns, e.CutFrom endsColumn ws
  columns_closed : ∀ e ∈ q.columns.dropLast, balance e.items = 0
  fromClause : ∀ f ∈ q.fromClause, f.CutFrom ws
  bodies : ∀ e ∈ q.bodies, e.CutFrom endsBody ws

namespace Query.CutFrom

variable {ws : List Placed} {q : Query}

theorem table (h : q.CutFrom ws) : ∀ t ∈ q.tables, t.Grouped := by
  intro t ht
  cases hf : q.fromClause with
  | none => simp [tables, hf] at ht
  | some f =>
    rw [tables, hf, Option.elim_some] at ht
    rcases List.mem_cons.mp ht with rfl | hmem
    · exact (h.fromClause f hf).table
    · obtain ⟨j, hj, rfl⟩ := List.mem_map.mp hmem
      exact ((h.fromClause f hf).joins j hj).table

theorem condition (h : q.CutFrom ws) : ∀ e ∈ q.conditions, e.CutFrom endsCondition ws := by
  intro e he
  cases hf : q.fromClause with
  | none => simp [conditions, hf] at he
  | some f =>
    rw [conditions, hf, Option.elim_some] at he
    obtain ⟨j, hj, hcondition⟩ := List.mem_filterMap.mp he
    exact ((h.fromClause f hf).joins j hj).condition e hcondition

end Query.CutFrom

/-! ## The clauses of a query -/

namespace Grammar

open Parse

variable {ws : List Placed}

theorem run_eq_of_value {stops : Token → Token → Bool} {x : Expectation} {e : Expression}
    (h : (run stops x ws).value = some e) :
    e.items ≠ [] ∧ takeRun stops 0 ws = (e.items, (run stops x ws).rest) := by
  unfold run at h ⊢
  simp only at h ⊢
  split at h
  · cases h
  · next hempty =>
    obtain rfl := Option.some.inj h
    rw [if_neg hempty]
    exact ⟨fun hnil => hempty (List.isEmpty_iff.mpr hnil), rfl⟩

theorem runsUpTo_run {stops : Token → Token → Bool}
    (hstops : ∀ next, stops (.symbol .rparen) next = true) {x : Expectation} {e : Expression}
    (h : (run stops x ws).value = some e) :
    RunsUpTo stops 0 e.items (run stops x ws).rest := by
  have hrun := takeRun_runsUpTo hstops 0 ws
  rwa [(run_eq_of_value h).2] at hrun

theorem cutFrom_run {stops : Token → Token → Bool}
    (hstops : ∀ next, stops (.symbol .rparen) next = true) {x : Expectation} {e : Expression}
    (h : (run stops x ws).value = some e) : e.CutFrom stops ws := by
  obtain ⟨hne, htake⟩ := run_eq_of_value h
  have happend := takeRun_append stops 0 ws
  rw [htake] at happend
  exact ⟨hne, _, ⟨[], happend⟩, runsUpTo_run hstops h⟩

/-- **Every column is cut from the words**, by induction along them. -/
theorem cutFrom_columns : ∀ e ∈ (columns ws).value, e.CutFrom endsColumn ws := by
  have hcolumn : ∀ {ws e}, e ∈ (run endsColumn .column ws).value.toList →
      e.CutFrom endsColumn ws := fun he => cutFrom_run (fun _ => rfl) (Option.mem_toList.mp he)
  fun_induction columns ws with
  | case1 ws column hrest => exact fun e he => hcolumn he
  | case2 ws column p ps hrest hcomma more ih =>
    intro e he
    rcases List.mem_append.mp he with hmem | hmem
    · exact hcolumn hmem
    · have hforward : column.rest <:+ ws := forward_run endsColumn .column ws
      rw [hrest] at hforward
      exact (ih e hmem).of_suffix ((List.suffix_cons p ps).trans hforward)
  | case3 ws column p ps hrest hcomma => exact fun e he => hcolumn he

/-- **A column with another behind it closes its parentheses**, since it ends at a comma. -/
theorem balance_columns : ∀ e ∈ (columns ws).value.dropLast, balance e.items = 0 := by
  have hsingle : ∀ {o : Option Expression} {e}, e ∉ o.toList.dropLast := by
    intro o e
    cases o <;> simp
  fun_induction columns ws with
  | case1 ws column hrest => exact fun e he => absurd he hsingle
  | case2 ws column p ps hrest hcomma more ih =>
    intro e he
    rw [List.dropLast_append] at he
    split at he
    · exact absurd he hsingle
    · rcases List.mem_append.mp he with hmem | hmem
      · have hrun := runsUpTo_run (fun _ => rfl) (Option.mem_toList.mp hmem)
        have hends := hrun.ends
        rw [show (run endsColumn .column ws).rest = p :: ps from hrest] at hends
        rcases hends with hends | ⟨hzero, -⟩
        · rw [show frontToken (p :: ps) = .symbol .comma from hcomma] at hends
          cases hends
        · simpa using hzero
      · exact ih e hmem
  | case3 ws column p ps hrest hcomma => exact fun e he => absurd he hsingle

theorem wellFormed_top {t : Top} (h : (top ws).value = some t) : t.WellFormed := by
  obtain ⟨count, hcount, hrest⟩ := exists_of_andThenSome (value_of_clause h)
  obtain rfl : t = ⟨count, _, _⟩ := (Option.some.inj hrest).symm
  unfold topCount at hcount
  rw [token_bind] at hcount
  generalize ws.tail = us at hcount
  have hsingle : frontToken us ≠ .eof → (single us).value = some count →
      count.tokens = [frontToken us] := by
    intro hne hvalue
    obtain ⟨p, ps, rfl, hp⟩ := exists_cons_of_frontToken rfl hne
    obtain rfl := Option.some.inj hvalue
    simp [Expression.tokens, frontToken]
  generalize hfront : frontToken us = t at hcount hsingle
  split at hcount
  · exact .inl (isGroup_of_group hfront hcount)
  · exact .inr (.inl (hsingle (by simp) hcount))
  · exact .inr (.inr (hsingle (by simp) hcount))
  · cases hcount

theorem isGroup_hints {e : Expression} (h : (hints ws).value = some e) :
    frontToken e.items = .keyword .WITH ∧ IsGroup e.items.tail := by
  unfold hints at h
  split at h
  · cases h
  · next p ps =>
    split at h
    · next hfront =>
      obtain ⟨run, hrun, rfl⟩ := Option.map_eq_some_iff.mp h
      exact ⟨hfront.1, isGroup_of_group hfront.2 hrun⟩
    · cases h

theorem isGroup_tableSource {x : Expectation} {source : TableSource}
    (h : (tableSource x ws).value = some source) : ∀ e ∈ source.query?, IsGroup e.items := by
  unfold tableSource at h
  rw [token_bind] at h
  intro e he
  generalize hfront : frontToken ws = t at h
  split at h
  · obtain rfl : TableSource.named _ = source := Option.some.inj h
    cases he
  · have hvalue : (group ws).value.map TableSource.derived = some source := h
    obtain ⟨query, hquery, rfl⟩ := Option.map_eq_some_iff.mp hvalue
    obtain rfl : query = e := Option.some.inj he
    exact isGroup_of_group hfront hquery
  · cases h

theorem grouped_table {x : Expectation} {t : Table} (h : (table x ws).value = some t) :
    t.Grouped := by
  obtain ⟨source, hsource, hrest⟩ := exists_of_andThenSome h
  obtain rfl : t = ⟨source, _, _, _⟩ := (Option.some.inj hrest).symm
  exact ⟨isGroup_tableSource hsource, fun e he => isGroup_hints he⟩

theorem exists_join {j : Join} (hj : j ∈ (joins ws).value) :
    ∃ mid, mid <:+ ws ∧ (join mid).value = some j := by
  fun_induction joins ws with
  | case1 ws hjoin first hnone => exact absurd hj List.not_mem_nil
  | case2 ws hjoin first found hfound more ih =>
    rcases List.mem_cons.mp hj with rfl | hmem
    · exact ⟨ws, List.suffix_refl ws, hfound⟩
    · obtain ⟨mid, hmid, hvalue⟩ := ih hmem
      exact ⟨mid, hmid.trans (forward_join ws), hvalue⟩
  | case3 ws hjoin => exact absurd hj List.not_mem_nil

theorem cutFrom_joinCondition {kind : JoinKind} {e : Expression}
    (h : (joinCondition kind ws).value = some e) : e.CutFrom endsCondition ws := by
  unfold joinCondition at h
  split at h
  · cases h
  · have hvalue := value_of_accept (fun _ => rfl) h
    exact (cutFrom_run (fun _ => rfl) hvalue).of_suffix (List.tail_suffix ws)

theorem cutFrom_join {j : Join} (h : (join ws).value = some j) : j.CutFrom ws := by
  have hkind : (joinOfKind (joinKind ws).value (joinKind ws).rest).value = some j := h
  have hjoined := value_of_accept (fun _ => rfl) hkind
  obtain ⟨t, htable, hrest⟩ := exists_of_andThenSome hjoined
  obtain rfl : j = ⟨_, t, _⟩ := (Option.some.inj hrest).symm
  refine ⟨grouped_table htable, fun e he => (cutFrom_joinCondition he).of_suffix ?_⟩
  exact (forward_table _ _).trans ((List.tail_suffix _).trans (forward_joinKind ws))

theorem cutFrom_fromClause {f : FromClause} (h : (fromClause ws).value = some f) :
    f.CutFrom ws := by
  obtain ⟨t, htable, hrest⟩ := exists_of_andThenSome (value_of_clause h)
  obtain rfl : f = ⟨t, _⟩ := (Option.some.inj hrest).symm
  refine ⟨grouped_table htable, fun j hj => ?_⟩
  obtain ⟨mid, hmid, hjoin⟩ := exists_join hj
  exact (cutFrom_join hjoin).of_suffix
    (hmid.trans ((forward_table _ _).trans (List.tail_suffix ws)))

theorem cutFrom_bodyOf {k : Keyword} {e : Expression} (h : (bodyOf k ws).value = some e) :
    e.CutFrom endsBody ws :=
  (cutFrom_run (fun _ => rfl) (value_of_clause h)).of_suffix (List.tail_suffix ws)

/-- **The parts of a query are cut from its words**, each from those that the parts before it
left. -/
theorem cutFrom_query (size start : Nat) (ws : List Placed) :
    (query size start ws).value.CutFrom ws := by
  have hall := List.suffix_refl ws
  refine value_of_bind hall forward_quantifier fun afterQuantifier hquantifier => ?_
  refine value_of_bind hquantifier forward_top fun afterTop htop => ?_
  refine value_of_bind htop forward_columns fun afterColumns hcolumns => ?_
  refine value_of_bind hcolumns forward_intoClause fun afterInto hinto => ?_
  refine value_of_bind hinto forward_fromClause fun afterFrom hfrom => ?_
  refine value_of_bind hfrom (forward_bodyOf .WHERE) fun afterWhere hwhere => ?_
  refine value_of_bind hwhere (forward_bodyOf .GROUP_BY) fun afterGroupBy hgroupBy => ?_
  refine value_of_bind hgroupBy (forward_bodyOf .HAVING) fun afterHaving hhaving => ?_
  refine value_of_bind hhaving (forward_bodyOf .ORDER_BY) fun afterOrderBy horderBy => ?_
  refine value_of_bind horderBy (forward_bodyOf .OPTION) fun afterOptions _ => ?_
  constructor
  case top => exact fun t ht => wellFormed_top ht
  case columns => exact fun e he => (cutFrom_columns e he).of_suffix htop
  case columns_closed => exact balance_columns
  case fromClause => exact fun f hf => (cutFrom_fromClause hf).of_suffix hinto
  case bodies =>
    intro e he
    obtain ⟨body, hmem, hbody⟩ := List.mem_flatMap.mp he
    rw [Option.mem_toList] at hbody
    simp only [List.mem_cons, List.not_mem_nil, or_false] at hmem
    rcases hmem with rfl | rfl | rfl | rfl | rfl
    · exact (cutFrom_bodyOf hbody).of_suffix hfrom
    · exact (cutFrom_bodyOf hbody).of_suffix hwhere
    · exact (cutFrom_bodyOf hbody).of_suffix hgroupBy
    · exact (cutFrom_bodyOf hbody).of_suffix hhaving
    · exact (cutFrom_bodyOf hbody).of_suffix horderBy

end Grammar

/-! ## Scripts -/

/-- The next word of a script behind a run that is no comment. -/
def Expression.next? (words : List Word) (e : Expression) : Option Word :=
  (words.drop e.range.stop).find? (!·.isComment)

/-- **Behind a run stands what was left when it was cut.** -/
theorem Expression.next?_eq {words : List Word} {e : Expression} {rest : List Placed}
    (hne : e.items ≠ []) (h : e.items ++ rest <:+ Placed.visible words) :
    e.next? words = rest.head?.map Placed.word := by
  obtain ⟨front, hsplit⟩ := h
  rw [← List.append_assoc] at hsplit
  have hsorted := pairwise_visible words
  rw [← hsplit] at hsorted
  obtain ⟨hread, -, hbehind⟩ := List.pairwise_append.mp hsorted
  have hrest : WordRange.visible ⟨e.range.stop, words.length⟩ words = rest := by
    rw [WordRange.visible, ← hsplit, List.filter_append, List.filter_eq_nil_iff.mpr,
      List.filter_eq_self.mpr, List.nil_append]
    · intro p hp
      have hlast := hbehind _ (List.mem_append_right front (List.getLast_mem hne)) p hp
      have hsize := index_lt_of_mem_visible (hsplit ▸ List.mem_append_right _ hp)
      simp only [range_eq hne, decide_eq_true_eq]
      omega
    · intro p hp
      have hlast : (⟨front ++ e.items⟩ : Expression).range.stop = e.range.stop := by
        rw [range_eq hne, range_eq (List.append_ne_nil_of_right_ne_nil front hne),
          List.getLast_append_of_ne_nil _ hne]
      have hlt := (mem_range (e := ⟨front ++ e.items⟩) hread hp).2
      simp only [decide_eq_true_eq]
      omega
  have hwords := map_word_visible e.range.stop words.length words
  rw [hrest, WordRange.words, List.take_of_length_le (by simp)] at hwords
  rw [next?, ← List.head?_filter, ← hwords, List.head?_map]

/-- A run with nothing behind it in its statement: the next word is a terminator, or there is
none. -/
def Expression.AtEnd (words : List Word) (e : Expression) : Prop :=
  ∀ w ∈ e.next? words, w.token = .symbol .semicolon ∨ w.token = .keyword .GO

/-- **A run of a script with its parentheses in order**, where `allowed` tells from the token behind
it in the run which token may stand outside of them. -/
structure Expression.Bounded (words : List Word) (allowed : (token next : Token) → Prop)
    (e : Expression) : Prop where
  /-- No parenthesis is closed that the run does not open… -/
  nonneg : ∀ front, front <+: e.items → 0 ≤ balance front
  /-- …and all are closed, unless the statement ends. -/
  closed : balance e.items = 0 ∨ e.AtEnd words
  outside : ∀ front p behind, e.items = front ++ p :: behind → balance front = 0 →
    allowed p.token (frontToken behind)

/-- What may stand in a column outside parentheses. -/
def InColumn (token _next : Token) : Prop :=
  token ≠ .symbol .comma ∧ token.endsColumns = false

/-- What may stand in the body of a clause outside parentheses. -/
def InBody (token next : Token) : Prop :=
  token.endsClause = false ∧
    (token = .keyword .WITH →
      next = .keyword .ROLLUP ∨ next = .keyword .CUBE ∨ next = .symbol .lparen)

/-- What may stand in the condition of a join outside parentheses. -/
def InCondition (token next : Token) : Prop :=
  InBody token next ∧ (token.startsJoin = true → next = .symbol .lparen)

/-- **A query whose runs have their parentheses in order and end where they should.** -/
structure Query.Bounded (words : List Word) (q : Query) : Prop where
  /-- A row limit is a number or a group… -/
  top : ∀ t ∈ q.top, IsGroup t.count.items ∨ t.count.tokens = [.int] ∨ t.count.tokens = [.float]
  /-- …and so are derived tables, and hints behind `WITH`. -/
  derived : ∀ t ∈ q.tables, ∀ e ∈ t.source.query?, IsGroup e.items
  hints : ∀ t ∈ q.tables, ∀ e ∈ t.hints,
    frontToken e.items = .keyword .WITH ∧ IsGroup e.items.tail
  columns : ∀ e ∈ q.columns, e.Bounded words InColumn
  /-- Only the last column can be cut short. -/
  columns_closed : ∀ e ∈ q.columns.dropLast, balance e.items = 0
  conditions : ∀ e ∈ q.conditions, e.Bounded words InCondition
  bodies : ∀ e ∈ q.bodies, e.Bounded words InBody
  /-- No run goes past a terminator. -/
  confined : ∀ e ∈ q.expressions, ∀ p ∈ e.items,
    p.token ≠ .symbol .semicolon ∧ p.token ≠ .keyword .GO

theorem inColumn_of_endsColumn {t next : Token} (h : endsColumn t next = false) :
    InColumn t next := by
  simpa [endsColumn, InColumn] using h

theorem continuesWith_iff {t : Token} : t.continuesWith = true ↔
    t = .keyword .ROLLUP ∨ t = .keyword .CUBE ∨ t = .symbol .lparen := by
  constructor
  · intro h
    unfold Token.continuesWith at h
    split at h <;> simp_all
  · rintro (rfl | rfl | rfl) <;> rfl

theorem inBody_of_endsBody {t next : Token} (h : endsBody t next = false) : InBody t next := by
  obtain ⟨hclause, hwith⟩ := Bool.or_eq_false_iff.mp h
  refine ⟨hclause, fun ht => continuesWith_iff.mp ?_⟩
  simpa [ht] using hwith

theorem inCondition_of_endsCondition {t next : Token} (h : endsCondition t next = false) :
    InCondition t next := by
  obtain ⟨hbody, hjoin⟩ := Bool.or_eq_false_iff.mp h
  refine ⟨inBody_of_endsBody hbody, fun hstarts => ?_⟩
  simpa [Token.opensJoin, hstarts] using hjoin

theorem takesAlong_endsColumn : TakesAlong endsColumn := fun t next h heof =>
  absurd (h.symm.trans heof) (by simp)

/-- A word behind which `WITH` goes on is no boundary itself. -/
theorem endsCondition_of_continuesWith {t : Token}
    (h : t = .keyword .ROLLUP ∨ t = .keyword .CUBE ∨ t = .symbol .lparen) :
    t.endsStatement = false ∧ ∀ next, endsCondition t next = false := by
  rcases h with rfl | rfl | rfl <;> exact ⟨rfl, fun _ => rfl⟩

theorem eq_with_of_endsBody {t next : Token} (hclause : t.endsClause = false)
    (h : endsBody t next = true) : t = .keyword .WITH := by
  rw [endsBody, hclause, Bool.false_or, Bool.and_eq_true_iff] at h
  exact of_decide_eq_true h.1

theorem takesAlong_endsBody : TakesAlong endsBody := by
  intro t next h heof
  obtain ⟨hclause, hwith⟩ := inBody_of_endsBody h
  obtain ⟨hinside, hnext⟩ :=
    endsCondition_of_continuesWith (hwith (eq_with_of_endsBody hclause heof))
  exact ⟨hinside, fun next' => (Bool.or_eq_false_iff.mp (hnext next')).1⟩

theorem takesAlong_endsCondition : TakesAlong endsCondition := by
  intro t next h heof
  obtain ⟨⟨hclause, hwith⟩, hjoin⟩ := inCondition_of_endsCondition h
  refine endsCondition_of_continuesWith ?_
  rcases Bool.or_eq_true_iff.mp heof with hbody | hopens
  · exact hwith (eq_with_of_endsBody hclause hbody)
  · exact .inr (.inr (hjoin (Bool.and_eq_true_iff.mp hopens).1))

theorem Token.eq_of_endsStatement {t : Token} (h : t.endsStatement = true) :
    t = .eof ∨ t = .symbol .semicolon ∨ t = .keyword .GO := by
  unfold Token.endsStatement at h
  split at h <;> simp_all

/-- **A run cut from the visible words of a script is bounded.** -/
theorem Expression.CutFrom.bounded {words : List Word} {stops : Token → Token → Bool}
    {allowed : Token → Token → Prop} {e : Expression}
    (heof : ∀ w ∈ words, w.token ≠ .eof) (hstops : TakesAlong stops)
    (hallowed : ∀ {t next}, stops t next = false → allowed t next)
    (h : e.CutFrom stops (Placed.visible words)) : e.Bounded words allowed := by
  obtain ⟨hne, rest, hsuffix, hrun⟩ := h
  constructor
  case nonneg => simpa using hrun.nonneg
  case outside =>
    intro front p behind hsplit hzero
    exact hallowed (hrun.goesOn_inside hstops hsplit (by simpa using hzero))
  case closed =>
    rcases hrun.ends with hends | ⟨hzero, -⟩
    · refine .inr fun w hw => ?_
      rw [next?_eq hne hsuffix] at hw
      obtain ⟨p, hp, rfl⟩ := Option.map_eq_some_iff.mp hw
      obtain ⟨ps, rfl⟩ := List.head?_eq_some_iff.mp hp
      have hmem : p ∈ Placed.visible words := hsuffix.subset (by simp)
      have hword := heof p.word (List.mem_of_getElem? (mem_visible_iff.mp hmem).1)
      exact (Token.eq_of_endsStatement hends).resolve_left hword
    · exact .inl (by simpa using hzero)

/-- A piece is cut out between words in front of it and words behind it, with the words that are
left at their end. -/
theorem Pieces.exists_split {es : List Expression} {e : Expression} {ws rest : List Placed}
    (h : Pieces es ws rest) (he : e ∈ es) :
    ∃ gap mid, ws = gap ++ (e.items ++ (mid ++ rest)) := by
  induction h with
  | nil h => exact absurd he List.not_mem_nil
  | @cons gap mid rest f es hf h ih =>
    rcases List.mem_cons.mp he with rfl | hmem
    · obtain ⟨front, rfl⟩ := h.suffix
      exact ⟨gap, front, rfl⟩
    · obtain ⟨gap', mid', rfl⟩ := ih hmem
      exact ⟨gap ++ (f.items ++ gap'), mid', by simp only [List.append_assoc]⟩

/-- **No run of a query goes past the end of its statement.** -/
theorem Grammar.confined_expressions {size start : Nat} {ws : List Placed} {e : Expression}
    (he : e ∈ (query size start ws).value.expressions) :
    ∀ p ∈ e.items, p.token.endsStatement = false := by
  obtain ⟨front, hfront, hconfined⟩ := query_confined size start ws
  obtain ⟨gap, mid, hsplit⟩ := (pieces_query size start ws).exists_split he
  have hread : front = gap ++ (e.items ++ mid) :=
    List.append_cancel_right (hfront.symm.trans (hsplit.trans (by simp only [List.append_assoc])))
  intro p hp
  exact hconfined p (by simp [hread, hp])

/-- **The runs of the queries of a script have their parentheses in order and end where they
should**: groups end where they close, and every other run goes on to the first word outside
parentheses that it cannot take, or to the end of the statement. -/
theorem Outline.bounded_parse {name source : String} {q : Query}
    (hq : q ∈ (parse name source).queries) : q.Bounded (parse name source).script.words := by
  obtain ⟨p, ps, hsuffix, -, rfl⟩ := Grammar.exists_query_of_mem hq
  have hcut := Grammar.cutFrom_query (parse name source).script.words.length p.index ps
  have hps := (List.suffix_cons p ps).trans hsuffix
  have heof : ∀ w ∈ (parse name source).script.words, w.token ≠ .eof := fun w hw =>
    ne_of_beq_false (Script.isEof_eq_false hw)
  constructor
  case top => exact hcut.top
  case derived => exact fun t ht => (hcut.table t ht).derived
  case hints => exact fun t ht => (hcut.table t ht).hints
  case columns =>
    exact fun e he => ((hcut.columns e he).of_suffix hps).bounded heof takesAlong_endsColumn
      inColumn_of_endsColumn
  case columns_closed => exact hcut.columns_closed
  case conditions =>
    exact fun e he => ((hcut.condition e he).of_suffix hps).bounded heof takesAlong_endsCondition
      inCondition_of_endsCondition
  case bodies =>
    exact fun e he => ((hcut.bodies e he).of_suffix hps).bounded heof takesAlong_endsBody
      inBody_of_endsBody
  case confined =>
    intro e he x hx
    have hinside := Grammar.confined_expressions he x hx
    constructor <;> rintro htoken <;> simp [htoken, Token.endsStatement] at hinside

/-- A comma in parentheses, a function `LEFT` in a condition, and a body that the end of the script
cuts short. -/
theorem Outline.bounded_parse_cut_short :
    let o := parse "q" "SELECT f(a, b), c FROM t JOIN u ON LEFT(x, 1) = y ORDER BY (d -- e"
    ∃ q ∈ o.queries, q.expressions.map (balance ·.items) = [0, 0, 0, 1] ∧
      q.Bounded o.script.words := by
  intro o
  have hfound : ∃ q ∈ o.queries, q.expressions.map (balance ·.items) = [0, 0, 0, 1] := by
    decide +kernel
  obtain ⟨q, hq, hbalance⟩ := hfound
  exact ⟨q, hq, hbalance, bounded_parse hq⟩

end SqlScript
