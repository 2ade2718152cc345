import SqlScript.Proofs.Query.Balance
import SqlScript.Proofs.Query.Written
import SqlScript.Query.Grammar

/-!
# Query/WellFormed — descriptions of queries that can be written down and read back

A description of a query is **well formed** if its runs are runs of their kind, its groups are
groups, its optional parts go together as the grammar has them, and its first column does not open
with words that a part left out in front of it would take.  All of it is decided by computation.
Every well-formed description is spelled by some words (`Query.WellFormed.exists_written`).
-/

namespace SqlScript

open Grammar

/-! ## Parts -/

/-- A row limit is a group or a single number. -/
def Top.WellFormed (t : Top) : Prop :=
  IsGroup t.count.items ∨ t.count.tokens = [.int] ∨ t.count.tokens = [.float]

instance (t : Top) : Decidable t.WellFormed :=
  inferInstanceAs (Decidable (_ ∨ _))

/-- A name has a part, and a derived table is a group. -/
def TableSource.WellFormed : TableSource → Prop
  | named name => name.parts ≠ []
  | derived query => IsGroup query.items

instance : (s : TableSource) → Decidable s.WellFormed
  | .named name => inferInstanceAs (Decidable (name.parts ≠ []))
  | .derived query => inferInstanceAs (Decidable (IsGroup query.items))

/-- `AS` goes with an alias, and hints are `WITH` and a group. -/
@[mk_iff]
structure Table.WellFormed (t : Table) : Prop where
  source : t.source.WellFormed
  aliasName : t.asKeyword = true → t.aliasName ≠ none
  hints : ∀ e ∈ t.hints, frontToken e.items = .keyword .WITH ∧ IsGroup e.items.tail

instance (t : Table) : Decidable t.WellFormed := decidable_of_iff _ (Table.wellFormed_iff t).symm

/-- Every join but a cross join has a condition. -/
@[mk_iff]
structure Join.WellFormed (j : Join) : Prop where
  table : j.table.WellFormed
  condition : ∀ e ∈ j.condition, IsRun endsCondition e.items
  cross : j.condition = none ↔ j.kind = .cross

instance (j : Join) : Decidable j.WellFormed := decidable_of_iff _ (Join.wellFormed_iff j).symm

/-- The tables of a query are well formed one by one. -/
@[mk_iff]
structure FromClause.WellFormed (f : FromClause) : Prop where
  table : f.table.WellFormed
  joins : ∀ j ∈ f.joins, j.WellFormed

instance (f : FromClause) : Decidable f.WellFormed :=
  decidable_of_iff _ (FromClause.wellFormed_iff f).symm

/-- The body of a trailing clause, if there is one, is a run. -/
def WellFormedBody (body : Option Expression) : Prop :=
  ∀ e : Expression, e ∈ body → IsRun endsBody e.items

instance (body : Option Expression) : Decidable (WellFormedBody body) :=
  inferInstanceAs (Decidable (∀ e : Expression, e ∈ body → IsRun endsBody e.items))

/-! ## Queries -/

/-- The words of the first column. -/
def Query.firstColumn (q : Query) : List Placed := q.columns.head?.elim [] Expression.items

/-- The first column does not open with words that belong in front of the columns: `ALL` and
`DISTINCT` where nothing else stands there, `TOP` without a row limit, and `PERCENT` and `WITH TIES`
behind a row limit that could still take them. -/
@[mk_iff]
structure Query.ColumnsOpen (q : Query) : Prop where
  quantifier : q.quantifier = none → q.top = none →
    frontToken q.firstColumn ≠ .keyword .ALL ∧ frontToken q.firstColumn ≠ .keyword .DISTINCT
  top : q.top = none → frontToken q.firstColumn ≠ .keyword .TOP
  percent : ∀ t ∈ q.top, t.percent = false → t.withTies = false →
    frontToken q.firstColumn ≠ .keyword .PERCENT
  ties : ∀ t ∈ q.top, t.withTies = false →
    ¬ (frontToken q.firstColumn = .keyword .WITH ∧ frontToken q.firstColumn.tail = .keyword .TIES)

instance (q : Query) : Decidable q.ColumnsOpen :=
  decidable_of_iff _ (Query.columnsOpen_iff q).symm

/-- **A well-formed description of a query.** -/
@[mk_iff]
structure Query.WellFormed (q : Query) : Prop where
  top : ∀ t ∈ q.top, t.WellFormed
  columns_ne_nil : q.columns ≠ []
  columns : ∀ e ∈ q.columns, IsRun endsColumn e.items
  open_columns : q.ColumnsOpen
  into : ∀ n ∈ q.into, n.parts ≠ []
  fromClause : ∀ f ∈ q.fromClause, f.WellFormed
  whereClause : WellFormedBody q.whereClause
  groupBy : WellFormedBody q.groupBy
  having : WellFormedBody q.having
  orderBy : WellFormedBody q.orderBy
  options : WellFormedBody q.options

instance (q : Query) : Decidable q.WellFormed := decidable_of_iff _ (Query.wellFormed_iff q).symm

/-! ## Every well-formed description is spelled by some words -/

section Spelled

variable {α : Type} {l m : Language Placed}

theorem exists_written_token (t : Token) : ∃ ws, ws ∈ t.written :=
  ⟨[⟨0, ⟨t, "", ⟨0, 0⟩⟩⟩], _, rfl, rfl⟩

theorem exists_written_ident (name : String) : ∃ ws, ws ∈ identWritten name :=
  ⟨[⟨0, ⟨.ident, name, ⟨0, 0⟩⟩⟩], _, rfl, rfl, rfl⟩

theorem exists_written_mul (hl : ∃ ws, ws ∈ l) (hm : ∃ ws, ws ∈ m) : ∃ ws, ws ∈ l * m := by
  obtain ⟨us, hus⟩ := hl
  obtain ⟨vs, hvs⟩ := hm
  exact ⟨us ++ vs, Language.append_mem_mul hus hvs⟩

theorem exists_written_ite {b : Bool} (hl : ∃ ws, ws ∈ l) : ∃ ws, ws ∈ if b then l else 1 := by
  cases b with
  | true => exact hl
  | false => exact ⟨[], Language.nil_mem_one⟩

theorem exists_written_elim {l : α → Language Placed} (a : Option α)
    (hl : ∀ x ∈ a, ∃ ws, ws ∈ l x) : ∃ ws, ws ∈ a.elim 1 l := by
  cases a with
  | none => exact ⟨[], Language.nil_mem_one⟩
  | some x => exact hl x rfl

theorem exists_written_prod {l : α → Language Placed} (as : List α)
    (hl : ∀ a ∈ as, ∃ ws, ws ∈ l a) : ∃ ws, ws ∈ (as.map l).prod := by
  induction as with
  | nil => exact ⟨[], Language.nil_mem_one⟩
  | cons a as ih =>
    rw [List.map_cons, List.prod_cons]
    exact exists_written_mul (hl a List.mem_cons_self)
      (ih fun b hb => hl b (List.mem_cons_of_mem a hb))

theorem exists_written_separated {t : Token} {l : α → Language Placed} {as : List α}
    (hne : as ≠ []) (hl : ∀ a, ∃ ws, ws ∈ l a) : ∃ ws, ws ∈ separated t l as := by
  cases as with
  | nil => exact absurd rfl hne
  | cons a as =>
    exact exists_written_mul (hl a) (exists_written_prod as fun b _ =>
      exists_written_mul (exists_written_token t) (hl b))

end Spelled

theorem Expression.exists_written (e : Expression) : ∃ ws, ws ∈ e.written := ⟨e.items, rfl⟩

theorem Top.exists_written (t : Top) : ∃ ws, ws ∈ t.written :=
  exists_written_mul
    (exists_written_mul t.count.exists_written (exists_written_ite (exists_written_token _)))
    (exists_written_ite (exists_written_mul (exists_written_token _) (exists_written_token _)))

theorem QualifiedName.exists_written {n : QualifiedName} (h : n.parts ≠ []) :
    ∃ ws, ws ∈ n.written := exists_written_separated h exists_written_ident

theorem TableSource.WellFormed.exists_written {s : TableSource} (h : s.WellFormed) :
    ∃ ws, ws ∈ s.written := by
  cases s with
  | named name => exact QualifiedName.exists_written h
  | derived query => exact query.exists_written

theorem Table.WellFormed.exists_written {t : Table} (h : t.WellFormed) : ∃ ws, ws ∈ t.written := by
  refine exists_written_mul (exists_written_mul (exists_written_mul h.source.exists_written ?_) ?_)
    ?_
  · exact exists_written_ite (exists_written_token _)
  · exact exists_written_elim _ fun name _ => exists_written_ident name
  · exact exists_written_elim _ fun e _ => e.exists_written

theorem exists_written_clause {α : Type} {k : Keyword} {l : α → Language Placed} (a : Option α)
    (hl : ∀ x ∈ a, ∃ ws, ws ∈ l x) : ∃ ws, ws ∈ clauseWritten k l a :=
  exists_written_elim a fun x hx => exists_written_mul (exists_written_token _) (hl x hx)

theorem Join.WellFormed.exists_written {j : Join} (h : j.WellFormed) : ∃ ws, ws ∈ j.written := by
  refine exists_written_mul (exists_written_mul ?_ h.table.exists_written) ?_
  · obtain ⟨ws, hws⟩ := exists_written_prod j.kind.keywords fun k _ =>
      exists_written_token (.keyword k)
    exact ⟨ws, .inl hws⟩
  · exact exists_written_clause _ fun e _ => e.exists_written

theorem FromClause.WellFormed.exists_written {f : FromClause} (h : f.WellFormed) :
    ∃ ws, ws ∈ f.written :=
  exists_written_mul h.table.exists_written
    (exists_written_prod f.joins fun j hj => (h.joins j hj).exists_written)

/-- **Every well-formed description is spelled by some words.** -/
theorem Query.WellFormed.exists_written {q : Query} (h : q.WellFormed) : ∃ ws, ws ∈ q.written := by
  have hbody : ∀ (k : Keyword) (body : Option Expression),
      ∃ ws, ws ∈ clauseWritten k Expression.written body :=
    fun k body => exists_written_clause body fun e _ => e.exists_written
  have hquantifier : ∃ ws, ws ∈ q.quantifier.elim 1 fun d => d.keyword.written :=
    exists_written_elim _ fun d _ => exists_written_token _
  have htop : ∃ ws, ws ∈ clauseWritten .TOP Top.written q.top :=
    exists_written_clause _ fun t _ => t.exists_written
  have hcolumns : ∃ ws, ws ∈ separated (.symbol .comma) Expression.written q.columns :=
    exists_written_separated h.columns_ne_nil Expression.exists_written
  have hinto : ∃ ws, ws ∈ clauseWritten .INTO QualifiedName.written q.into :=
    exists_written_clause _ fun n hn => QualifiedName.exists_written (h.into n hn)
  have hfrom : ∃ ws, ws ∈ clauseWritten .FROM FromClause.written q.fromClause :=
    exists_written_clause _ fun f hf => (h.fromClause f hf).exists_written
  refine exists_written_mul (exists_written_token _) ?_
  have hhead := exists_written_mul (exists_written_mul hquantifier htop) hcolumns
  have htables := exists_written_mul (exists_written_mul hhead hinto) hfrom
  have hgroups := exists_written_mul (exists_written_mul htables (hbody .WHERE q.whereClause))
    (hbody .GROUP_BY q.groupBy)
  have horder := exists_written_mul (exists_written_mul hgroups (hbody .HAVING q.having))
    (hbody .ORDER_BY q.orderBy)
  exact exists_written_mul horder (hbody .OPTION q.options)

end SqlScript
