import SqlScript.Proofs.Checked.Walk

/-!
# Proofs/Checked/Grammar — reading statements by an index

The clauses of a statement as walks over the words of a script, put together from the checked loops.
Each runs as its parser does, so the columns, the joins and the search for statements end
(`runs_columns`, `runs_joins`, `statements?_eq`) and no count of parentheses fails on the way.
-/

namespace SqlScript.Checked

open SqlScript.Grammar (offset)

namespace Walk

variable (words : List Word)

/-! ## Clauses -/

/-- `ALL` or `DISTINCT`. -/
def quantifier : Walk (Option Quantifier) := do
  if ← accept words .ALL then done (some .all)
  else if ← accept words .DISTINCT then done (some .distinct)
  else done none

/-- What `TOP` is given. -/
def topCount : Walk (Option Expression) := do
  let t ← token words
  if t = .symbol .lparen then group words
  else if t = .int ∨ t = .float then single words
  else refuse words .topArgument

/-- `TOP`, its count, and its two options. -/
def top : Walk (Option Top) :=
  clause words .TOP <| andThenSome (topCount words) fun count => do
    let percent ← accept words .PERCENT
    let withTies ← acceptPair words .WITH .TIES
    done (some ⟨count, percent, withTies⟩)

end Walk

/-- The columns from an index on, with commas between them. -/
def columns? (words : Checked Word) (index : Nat) : Option (Trace (List Expression)) := do
  let column ← Walk.run words Grammar.endsColumn .column index
  if tokenAt words column.index = .symbol .comma then
    let more ← words |>.columns? (← advance? words column.index)
    return ⟨column.value.toList ++ more.value, column.faults ++ more.faults, more.index⟩
  else return ⟨column.value.toList, column.faults, column.index⟩
partial_fixpoint

namespace Walk

variable (words : List Word)

/-- `INTO` and a name. -/
def intoClause : Walk (Option QualifiedName) :=
  clause words .INTO do
    let t ← token words
    if t = .ident then some <$> qualifiedName words else refuse words .tableAfterInto

/-- A name, or a query in parentheses. -/
def tableSource (e : Expectation) : Walk (Option TableSource) := do
  let t ← token words
  if t = .ident then (some ∘ TableSource.named) <$> qualifiedName words
  else if t = .symbol .lparen then Option.map TableSource.derived <$> group words
  else refuse words e

/-- The alias of a table, which must be there behind `AS`. -/
def aliasName (asKeyword : Bool) : Walk (Option String) := fun index => do
  if tokenAt words index = .ident then
    return ⟨words[index]?.map Word.literal, [], ← advance? words index⟩
  else if asKeyword then refuse words .aliasAfterAs index
  else done none index

/-- `WITH` and a group in parentheses. -/
def hints : Walk (Option Expression) := fun index => do
  let next ← nextToken? words index
  if tokenAt words index = .keyword .WITH ∧ next = .symbol .lparen then
    let found ← group words (← advance? words index)
    return { found with
      value := found.value.map fun run => ⟨(placedAt words index).toList ++ run.items⟩ }
  else done none index

/-- A source with its alias and its hints. -/
def table (e : Expectation) : Walk (Option Table) :=
  andThenSome (tableSource words e) fun source => do
    let asKeyword ← accept words .AS
    let aliasName ← aliasName words asKeyword
    let hints ← hints words
    done (some ⟨source, asKeyword, aliasName, hints⟩)

/-! ## Joins -/

/-- A kind of join, behind which `OUTER` may stand. -/
def outerKind (kind : JoinKind) : Walk JoinKind :=
  match kind.outer? with
  | none => done kind
  | some outer => do if ← accept words .OUTER then done outer else done kind

/-- The kind of a join, up to the keyword `JOIN`. -/
def joinKind : Walk JoinKind := fun index => do
  match JoinKind.ofToken? (tokenAt words index) with
  | none => done .inner index
  | some kind => outerKind words kind (← advance? words index)

/-- The condition of a join; a cross join has none. -/
def joinCondition (kind : JoinKind) : Walk (Option Expression) :=
  if kind = .cross then done none
  else do
    if ← accept words .ON then run words Grammar.endsCondition .joinCondition
    else refuse words .onKeyword

/-- The table and the condition of a join of a known kind. -/
def joinedTable (kind : JoinKind) : Walk (Option Join) :=
  andThenSome (table words .tableAfterJoin) fun table => do
    let condition ← joinCondition words kind
    done (some ⟨kind, table, condition⟩)

/-- A join of a known kind. -/
def joinOfKind (kind : JoinKind) : Walk (Option Join) := do
  if ← accept words .JOIN then joinedTable words kind else refuse words .joinKeyword

/-- A join: its kind, then the rest of it. -/
def join : Walk (Option Join) := do
  let kind ← joinKind words
  joinOfKind words kind

end Walk

/-- The joins from an index on. -/
def joins? (words : Checked Word) (index : Nat) : Option (Trace (List Join)) := do
  let next ← nextToken? words index
  if (tokenAt words index).opensJoin next then
    let first ← Walk.join words index
    match first.value with
    | none => return ⟨[], first.faults, first.index⟩
    | some found =>
      let more ← words |>.joins? first.index
      return ⟨found :: more.value, first.faults ++ more.faults, more.index⟩
  else return ⟨[], [], index⟩
partial_fixpoint

namespace Walk

variable (words : List Word)

/-- `FROM`, a table and the joins. -/
def fromClause : Walk (Option FromClause) :=
  clause words .FROM <| andThenSome (table words .tableAfterFrom) fun table => do
    let joins ← (joins? words : Walk (List Join))
    done (some ⟨table, joins⟩)

/-! ## Statements -/

/-- A trailing clause: its keyword and its body. -/
def bodyOf (k : Keyword) : Walk (Option Expression) :=
  clause words k (run words Grammar.endsBody (.bodyAfter k))

/-- A query whose range starts at `start`. -/
def query (start : Nat) : Walk Query := do
  let quantifier ← quantifier words
  let top ← top words
  let columns ← (columns? words : Walk (List Expression))
  let into ← intoClause words
  let fromClause ← fromClause words
  let whereClause ← bodyOf words .WHERE
  let groupBy ← bodyOf words .GROUP_BY
  let having ← bodyOf words .HAVING
  let orderBy ← bodyOf words .ORDER_BY
  let options ← bodyOf words .OPTION
  fun index => some
    ⟨{ quantifier, top, columns, into, fromClause, whereClause, groupBy, having, orderBy, options,
       range := ⟨start, index⟩ }, [], index⟩

end Walk

/-- The queries from an index to the end of the script. -/
def statementsFrom? (words : Checked Word) (index : Nat) : Option (Trace (List Query)) := do
  let token := tokenAt words index
  if token = .eof then return ⟨[], [], index⟩
  else if token = .keyword .SELECT then
    let found ← Walk.query words index (← advance? words index)
    let more ← words |>.statementsFrom? found.index
    return ⟨found.value :: more.value, found.faults ++ more.faults, more.index⟩
  else words |>.statementsFrom? (← advance? words index)
partial_fixpoint

/-! ## Clauses run as their parsers do -/

section

variable {words : List Word}

theorem runs_quantifier : Runs words (Walk.quantifier words) Grammar.quantifier :=
  (runs_accept .ALL).bind fun present => (runs_done _).ite present
    ((runs_accept .DISTINCT).bind fun present => (runs_done _).ite present (runs_done _))

theorem runs_topCount : Runs words (Walk.topCount words) Grammar.topCount := by
  refine runs_token.bind fun t => ?_
  by_cases hparen : t = .symbol .lparen
  · subst hparen
    exact runs_group
  by_cases hnumber : t = .int ∨ t = .float
  · rcases hnumber with rfl | rfl <;> exact runs_single
  rw [if_neg hparen, if_neg hnumber]
  split
  · exact absurd rfl hparen
  · exact absurd (.inl rfl) hnumber
  · exact absurd (.inr rfl) hnumber
  · exact runs_refuse _

theorem runs_top : Runs words (Walk.top words) Grammar.top :=
  (runs_topCount.andThenSome fun _ => (runs_accept .PERCENT).bind fun _ =>
    (runs_acceptPair .WITH .TIES).bind fun _ => runs_done _).clause

/-- **The columns end.** -/
theorem runs_columns : Runs words (columns? words) Grammar.columns where
  forward := Grammar.forward_columns
  eq {ws} h := by
    have hrun : Runs words (Walk.run words Grammar.endsColumn .column) _ :=
      runs_run (fun _ => rfl) .column
    -- a comma is passed behind every column but the last
    generalize hn : ws.length = n
    induction n using Nat.strongRecOn generalizing ws with
    | ind n ih =>
      have hbehind := (hrun.forward ws).trans h
      have hle := hrun.forward.length_le ws
      rw [columns?, hrun.eq h, Grammar.columns_eq_run]
      simp only [Option.bind_eq_bind, Option.bind_some, trace, tokenAt_offset hbehind,
        advance?_offset hbehind]
      generalize Parse.run Grammar.endsColumn .column ws = column at hbehind hle ⊢
      by_cases hcomma : frontToken column.rest = .symbol .comma
      · obtain ⟨p, ps, hrest, -⟩ := exists_cons_of_frontToken hcomma (by simp)
        have hps : ps <:+ Placed.visible words :=
          (List.suffix_cons p ps).trans (hrest ▸ hbehind)
        rw [hrest, List.length_cons] at hle
        rw [if_pos hcomma, if_pos hcomma, hrest, List.tail_cons, ih _ (by omega) hps rfl]
        rfl
      · rw [if_neg hcomma, if_neg hcomma]
        rfl

theorem runs_intoClause : Runs words (Walk.intoClause words) Grammar.intoClause := by
  refine Runs.clause (runs_token.bind fun t => ?_)
  by_cases hident : t = .ident
  · subst hident
    exact runs_qualifiedName.map some
  rw [if_neg hident]
  split
  · exact absurd rfl hident
  · exact runs_refuse _

theorem runs_tableSource (e : Expectation) :
    Runs words (Walk.tableSource words e) (Grammar.tableSource e) := by
  refine runs_token.bind fun t => ?_
  by_cases hident : t = .ident
  · subst hident
    exact runs_qualifiedName.map _
  by_cases hparen : t = .symbol .lparen
  · subst hparen
    exact runs_group.map _
  rw [if_neg hident, if_neg hparen]
  split
  · exact absurd rfl hident
  · exact absurd rfl hparen
  · exact runs_refuse e

theorem runs_aliasName (asKeyword : Bool) :
    Runs words (Walk.aliasName words asKeyword) (Grammar.aliasName asKeyword) where
  forward := Grammar.forward_aliasName asKeyword
  eq {ws} h := by
    rw [Walk.aliasName, tokenAt_offset h]
    cases ws with
    | nil =>
      cases asKeyword with
      | false => rfl
      | true => exact (runs_refuse .aliasAfterAs).eq h
    | cons p ps =>
      rw [advance?_offset h, getElem?_offset h, Grammar.aliasName]
      by_cases hident : p.token = .ident
      · rw [if_pos hident]
        exact if_pos hident
      · rw [if_neg hident]
        refine (if_neg hident).trans ?_
        cases asKeyword with
        | false => rfl
        | true => exact (runs_refuse .aliasAfterAs).eq h

theorem runs_hints : Runs words (Walk.hints words) Grammar.hints where
  forward := Grammar.forward_hints
  eq {ws} h := by
    rw [Walk.hints, tokenAt_offset h, nextToken?_offset h, Option.bind_eq_bind, Option.bind_some]
    cases ws with
    | nil => rfl
    | cons p ps =>
      have hps : ps <:+ Placed.visible words := (List.suffix_cons p ps).trans h
      rw [Grammar.hints]
      by_cases hwith : p.token = .keyword .WITH ∧ frontToken ps = .symbol .lparen
      · rw [if_pos hwith]
        refine (if_pos hwith).trans ?_
        rw [advance?_offset h, placedAt_offset h, Option.bind_eq_bind, Option.bind_some,
          List.tail_cons, runs_group.eq hps]
        rfl
      · rw [if_neg hwith]
        exact if_neg hwith

theorem runs_table (e : Expectation) : Runs words (Walk.table words e) (Grammar.table e) :=
  (runs_tableSource e).andThenSome fun _ => (runs_accept .AS).bind fun asKeyword =>
    (runs_aliasName asKeyword).bind fun _ => runs_hints.bind fun _ => runs_done _

/-! ## Joins -/

theorem runs_outerKind (kind : JoinKind) :
    Runs words (Walk.outerKind words kind) (Grammar.outerKind kind) := by
  unfold Walk.outerKind Grammar.outerKind
  cases kind.outer? with
  | none => exact runs_done kind
  | some outer =>
    exact (runs_accept .OUTER).bind fun present => (runs_done outer).ite present (runs_done kind)

theorem runs_joinKind : Runs words (Walk.joinKind words) Grammar.joinKind where
  forward := Grammar.forward_joinKind
  eq {ws} h := by
    have htail : ws.tail <:+ Placed.visible words := (List.tail_suffix ws).trans h
    rw [Walk.joinKind, tokenAt_offset h, Grammar.joinKind, advance?_offset h]
    cases JoinKind.ofToken? (frontToken ws) with
    | none => rfl
    | some kind => exact (runs_outerKind kind).eq htail

theorem runs_joinCondition (kind : JoinKind) :
    Runs words (Walk.joinCondition words kind) (Grammar.joinCondition kind) :=
  (runs_done none).ite _ ((runs_accept .ON).bind fun present =>
    (runs_run (fun _ => rfl) .joinCondition).ite present (runs_refuse .onKeyword))

theorem runs_joinOfKind (kind : JoinKind) :
    Runs words (Walk.joinOfKind words kind) (Grammar.joinOfKind kind) :=
  have hjoined : Runs words (Walk.joinedTable words kind) (Grammar.joinedTable kind) :=
    (runs_table .tableAfterJoin).andThenSome fun _ =>
      (runs_joinCondition kind).bind fun _ => runs_done _
  (runs_accept .JOIN).bind fun present => hjoined.ite present (runs_refuse .joinKeyword)

theorem runs_join : Runs words (Walk.join words) Grammar.join :=
  runs_joinKind.bind runs_joinOfKind

/-- **The joins end**: each takes at least one word. -/
theorem runs_joins : Runs words (joins? words) Grammar.joins where
  forward := Grammar.forward_joins
  eq {ws} h := by
    fun_induction Grammar.joins ws with
    | case1 ws hat first hnone =>
      rw [joins?, tokenAt_offset h, nextToken?_offset h, Option.bind_eq_bind, Option.bind_some]
      refine (if_pos hat).trans ?_
      have hvalue : (Grammar.join ws).value = none := hnone
      simp only [runs_join.eq h, Option.bind_eq_bind, Option.bind_some, trace, hvalue]
      rfl
    | case2 ws hat first found hfound more ih =>
      rw [joins?, tokenAt_offset h, nextToken?_offset h, Option.bind_eq_bind, Option.bind_some]
      refine (if_pos hat).trans ?_
      have hvalue : (Grammar.join ws).value = some found := hfound
      have hmore := ih ((Grammar.forward_join ws).trans h)
      simp only [runs_join.eq h, Option.bind_eq_bind, Option.bind_some, trace, hvalue]
      simp only [first, trace] at hmore
      rw [hmore]
      rfl
    | case3 ws hat =>
      rw [joins?, tokenAt_offset h, nextToken?_offset h, Option.bind_eq_bind, Option.bind_some]
      exact if_neg hat

theorem runs_fromClause : Runs words (Walk.fromClause words) Grammar.fromClause :=
  ((runs_table .tableAfterFrom).andThenSome fun _ => runs_joins.bind fun _ => runs_done _).clause

/-! ## Statements -/

theorem runs_bodyOf (k : Keyword) : Runs words (Walk.bodyOf words k) (Grammar.bodyOf k) :=
  (runs_run (fun _ => rfl) (.bodyAfter k)).clause

/-- **A query is read to its end.** -/
theorem runs_query (start : Nat) :
    Runs words (Walk.query words start) (Grammar.query words.length start) :=
  runs_quantifier.bind fun _ => runs_top.bind fun _ => runs_columns.bind fun _ =>
    runs_intoClause.bind fun _ => runs_fromClause.bind fun _ => (runs_bodyOf _).bind fun _ =>
      (runs_bodyOf _).bind fun _ => (runs_bodyOf _).bind fun _ => (runs_bodyOf _).bind fun _ =>
        (runs_bodyOf _).bind fun _ => ⟨List.suffix_refl, fun _ => rfl⟩

/-- **The search for statements ends.** -/
theorem statementsFrom?_eq (hwords : ∀ w ∈ words, w.isEof = false) {ws : List Placed}
    (h : ws <:+ Placed.visible words) :
    statementsFrom? words (offset words.length ws) =
      some (trace words (Grammar.statements words.length ws)) := by
  fun_induction Grammar.statements words.length ws with
  | case1 =>
    rw [statementsFrom?, tokenAt_offset h]
    rfl
  | case2 p ps hselect found more ih =>
    have hps : ps <:+ Placed.visible words := (List.suffix_cons p ps).trans h
    have hmore := ih ((Grammar.forward_query words.length p.index ps).trans hps)
    have hquery : Walk.query words (offset words.length (p :: ps)) (offset words.length ps) =
      some (trace words found) := (runs_query p.index).eq hps
    have htoken : frontToken (p :: ps) = .keyword .SELECT := hselect
    rw [statementsFrom?, tokenAt_offset h, htoken, advance?_offset h]
    simp only [reduceCtorEq, if_false, if_true, Option.bind_eq_bind, Option.bind_some,
      List.tail_cons, hquery, index_trace, hmore]
    rfl
  | case3 p ps hselect ih =>
    have hword := (mem_visible_iff.mp (h.subset List.mem_cons_self)).1
    have heof : frontToken (p :: ps) ≠ .eof :=
      ne_of_beq_false (hwords p.word (List.mem_of_getElem? hword))
    have hother : frontToken (p :: ps) ≠ .keyword .SELECT := hselect
    rw [statementsFrom?, tokenAt_offset h, advance?_offset h]
    simp only [if_neg heof, if_neg hother]
    exact ih ((List.suffix_cons p ps).trans h)

end

/-! ## Scripts -/

/-- The statements among the words of a script. -/
def statements? (words : List Word) : Option (Trace (List Query)) := do
  statementsFrom? words (← skipComments? words 0)

/-- **Reading the statements of a script never fails.** -/
theorem statements?_eq {words : List Word} (hwords : ∀ w ∈ words, w.isEof = false) :
    statements? words =
      some (trace words (Grammar.statements words.length (Placed.visible words))) := by
  rw [statements?, skipComments?_zero, Option.bind_eq_bind, Option.bind_some]
  exact statementsFrom?_eq hwords (List.suffix_refl _)

end SqlScript.Checked
