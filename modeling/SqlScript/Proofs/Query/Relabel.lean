import SqlScript.Proofs.Query.Pieces

/-!
# Query/Relabel — queries over words with other indices, spellings and places

A **relabelling** changes the indices of words, the spelling of their literals and their spans in
the text; tokens stay.  It acts on every part of a query that is made of words, and on the faults
noted on the way.  The runs of a relabelled query are its runs relabelled (`expressions_query`), and
they cover the relabelled ranges if no gap opens behind a word of theirs (`ranges_query`).
-/

namespace SqlScript

/-- Other indices, spellings and spans for the words of a script. -/
structure Relabelling where
  index : Nat → Nat := id
  literal : String → String := id
  span : Span → Span := id

namespace Relabelling

variable (r : Relabelling)

/-! ## Parts of a query -/

/-- A word in its other spelling and at its other place. -/
def word (w : Word) : Word := { w with literal := r.literal w.literal, span := r.span w.span }

/-- A placed word with its other index, in its other spelling and at its other place. -/
def placed (p : Placed) : Placed := ⟨r.index p.index, r.word p.word⟩

@[simp] theorem token_placed (p : Placed) : (r.placed p).token = p.token := rfl

/-- A range of indices, both ends changed. -/
def range (s : WordRange) : WordRange := ⟨r.index s.start, r.index s.stop⟩

/-- A run of relabelled words. -/
def expression (e : Expression) : Expression := ⟨e.items.map r.placed⟩

/-- A row limit over relabelled words. -/
def top (t : Top) : Top := { t with count := r.expression t.count }

/-- A name whose parts are in their other spelling. -/
def name (n : QualifiedName) : QualifiedName := ⟨n.parts.map r.literal⟩

/-- A source over relabelled words. -/
def source : TableSource → TableSource
  | .named n => .named (r.name n)
  | .derived query => .derived (r.expression query)

/-- A table over relabelled words. -/
def table (t : Table) : Table :=
  { t with
    source := r.source t.source
    aliasName := t.aliasName.map r.literal
    hints := t.hints.map r.expression }

/-- A join over relabelled words. -/
def join (j : Join) : Join :=
  { j with table := r.table j.table, condition := j.condition.map r.expression }

/-- The tables of a query over relabelled words. -/
def fromClause (f : FromClause) : FromClause := ⟨r.table f.table, f.joins.map r.join⟩

/-- **A query over relabelled words.** -/
def query (q : Query) : Query :=
  { q with
    top := q.top.map r.top
    columns := q.columns.map r.expression
    into := q.into.map r.name
    fromClause := q.fromClause.map r.fromClause
    whereClause := q.whereClause.map r.expression
    groupBy := q.groupBy.map r.expression
    having := q.having.map r.expression
    orderBy := q.orderBy.map r.expression
    options := q.options.map r.expression
    range := r.range q.range }

/-- A fault over relabelled words. -/
def fault (f : SyntaxFault) : SyntaxFault := { f with found := f.found.map r.word }

/-! ## Nothing changed -/

theorem placed_id : ({} : Relabelling).placed = id := rfl

/-- Faults keep the words they found if only indices change. -/
theorem fault_of_index (index : Nat → Nat) : fault { index } = id := by
  funext ⟨expected, found⟩
  cases found <;> rfl

theorem expression_id : ({} : Relabelling).expression = id :=
  funext fun e => congrArg Expression.mk (List.map_id e.items)

theorem name_id : ({} : Relabelling).name = id :=
  funext fun n => congrArg QualifiedName.mk (List.map_id n.parts)

theorem table_id : ({} : Relabelling).table = id := by
  funext t
  have hsource : ({} : Relabelling).source t.source = t.source := by
    cases t.source with
    | named n => exact congrArg TableSource.named (congrFun name_id n)
    | derived query => exact congrArg TableSource.derived (congrFun expression_id query)
  simp [table, hsource, expression_id]

theorem fromClause_id : ({} : Relabelling).fromClause = id := by
  have hjoin : ({} : Relabelling).join = id := by
    funext j
    simp [join, table_id, expression_id]
  funext f
  simp [fromClause, table_id, hjoin]

/-- **A query over unchanged words is the query.** -/
@[simp] theorem query_id : ({} : Relabelling).query = id := by
  have htop : ({} : Relabelling).top = id := by
    funext t
    simp [top, expression_id]
  funext q
  simp [query, htop, expression_id, name_id, fromClause_id, range]

/-! ## Runs and their ranges -/

theorem expressions_table (t : Table) :
    (r.table t).expressions = t.expressions.map r.expression := by
  obtain ⟨source, asKeyword, aliasName, hints⟩ := t
  cases source <;> cases hints <;> rfl

theorem expressions_join (j : Join) : (r.join j).expressions = j.expressions.map r.expression := by
  simp only [Join.expressions, join, expressions_table, Option.toList_map, List.map_append]

theorem expressions_fromClause (f : FromClause) :
    (r.fromClause f).expressions = f.expressions.map r.expression := by
  simp only [FromClause.expressions, fromClause, expressions_table, List.flatMap_map,
    expressions_join, List.map_append, List.map_flatMap]

/-- **The runs of a relabelled query are its runs, relabelled.** -/
theorem expressions_query (q : Query) :
    (r.query q).expressions = q.expressions.map r.expression := by
  have htop : ∀ v : Option Top, ((v.map r.top).map Top.count).toList =
      (v.map Top.count).toList.map r.expression := by rintro (_ | t) <;> rfl
  have hfrom : ∀ v : Option FromClause, (v.map r.fromClause).elim [] FromClause.expressions =
      (v.elim [] FromClause.expressions).map r.expression := by
    rintro (_ | f)
    · rfl
    · exact r.expressions_fromClause f
  simp only [Query.expressions, query, htop, hfrom, Option.toList_map, List.map_append]

/-- A run keeps its words together if behind each of them the next index follows. -/
theorem range_expression {e : Expression} (he : e.items ≠ [])
    (hnext : ∀ p ∈ e.items, r.index (p.index + 1) = r.index p.index + 1) :
    (r.expression e).range = r.range e.range := by
  obtain ⟨items⟩ := e
  have hlast := hnext _ (List.getLast_mem he)
  simp only [Expression.range, expression, List.head?_map, List.getLast?_map,
    List.head?_eq_some_head he, List.getLast?_eq_some_getLast he, Option.map_some, range]
  rw [hlast]
  rfl

/-- **The runs of a relabelled query cover the relabelled ranges.** -/
theorem ranges_query {q : Query}
    (h : ∀ e ∈ q.expressions, e.items ≠ [] ∧
      ∀ p ∈ e.items, r.index (p.index + 1) = r.index p.index + 1) :
    (r.query q).expressions.map Expression.range =
      q.expressions.map fun e => r.range e.range := by
  rw [expressions_query, List.map_map]
  exact List.map_congr_left fun e he => r.range_expression (h e he).1 (h e he).2

/-- Runs whose words keep their indices cover the ranges they covered. -/
theorem ranges_of_index (hindex : r.index = id) (q : Query) :
    (r.query q).expressions.map Expression.range = q.expressions.map Expression.range := by
  rw [expressions_query, List.map_map]
  refine List.map_congr_left fun e _ => ?_
  simp only [Function.comp_apply, Expression.range, expression, List.head?_map, List.getLast?_map]
  cases e.items.head? <;> cases e.items.getLast? <;> simp [placed, hindex]

end Relabelling

end SqlScript
