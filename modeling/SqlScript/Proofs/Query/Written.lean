import Mathlib.Computability.Language
import SqlScript.Query.Run

/-!
# Query/Written — the words that spell a query

A query leaves open how its keywords are cased and where its words stand, and nothing else but that
an inner join may be opened by `JOIN` alone.  So the words that spell it form a **language** over
placed words, put together part by part in the order of the statement.

`Reads l ws rest` says that `ws` begins with a word of the language `l` and goes on with `rest`; it
turns products of languages into words read one part behind the other.  `Holds l m` says that the
words of `l` have words of `m` inside: a query holds the names of its tables (`Query.holds_name`),
and the words of a name make up its text (`QualifiedName.flatMap_literal`).
-/

namespace SqlScript

/-! ## Words -/

/-- A single word with a given token. -/
def Token.written (t : Token) : Language Placed := {ws | ∃ p : Placed, p.token = t ∧ ws = [p]}

/-- A keyword in any casing. -/
def Keyword.written (k : Keyword) : Language Placed := (Token.keyword k).written

/-- An identifier with a given spelling. -/
def identWritten (name : String) : Language Placed :=
  {ws | ∃ p : Placed, p.token = .ident ∧ p.word.literal = name ∧ ws = [p]}

/-- A run is spelled by its own words. -/
def Expression.written (e : Expression) : Language Placed := {e.items}

/-- One part or more, with a token between them. -/
def separated {α : Type} (t : Token) (l : α → Language Placed) : List α → Language Placed
  | [] => 0
  | a :: as => l a * (as.map fun b => t.written * l b).prod

/-- The words of a clause: its keyword and its body, or none. -/
def clauseWritten {α : Type} (k : Keyword) (l : α → Language Placed) (a : Option α) :
    Language Placed := a.elim 1 fun body => k.written * l body

/-! ## The parts of a query -/

/-- The words of a row limit behind `TOP`. -/
def Top.written (t : Top) : Language Placed :=
  t.count.written * (if t.percent then Keyword.PERCENT.written else 1) *
    (if t.withTies then Keyword.WITH.written * Keyword.TIES.written else 1)

/-- The words of a name: its parts with points between them. -/
def QualifiedName.written (n : QualifiedName) : Language Placed :=
  separated (.symbol .period) identWritten n.parts

/-- The words of a source: its name, or its run with the parentheses. -/
def TableSource.written : TableSource → Language Placed
  | named name => name.written
  | derived query => query.written

/-- The words of a table; the `WITH` of its hints is part of their run. -/
def Table.written (t : Table) : Language Placed :=
  t.source.written * (if t.asKeyword then Keyword.AS.written else 1) *
    t.aliasName.elim 1 identWritten * t.hints.elim 1 Expression.written

/-- The words of a kind of join, in full. -/
def JoinKind.written (k : JoinKind) : Language Placed := (k.keywords.map Keyword.written).prod

/-- The words in front of a joined table: the kind of the join in full, or `JOIN` alone for an inner
join with a table that has a name. -/
def Join.opening (j : Join) : Language Placed :=
  j.kind.written + if j.kind = .inner ∧ ¬ j.table.source.isDerived then Keyword.JOIN.written else 0

/-- The words of a join. -/
def Join.written (j : Join) : Language Placed :=
  j.opening * j.table.written * clauseWritten .ON Expression.written j.condition

/-- The words of the tables of a query behind `FROM`. -/
def FromClause.written (f : FromClause) : Language Placed :=
  f.table.written * (f.joins.map Join.written).prod

/-- The words of a query behind `SELECT`. -/
def Query.writtenBody (q : Query) : Language Placed :=
  q.quantifier.elim 1 (fun d => d.keyword.written) *
    clauseWritten .TOP Top.written q.top *
    separated (.symbol .comma) Expression.written q.columns *
    clauseWritten .INTO QualifiedName.written q.into *
    clauseWritten .FROM FromClause.written q.fromClause *
    clauseWritten .WHERE Expression.written q.whereClause *
    clauseWritten .GROUP_BY Expression.written q.groupBy *
    clauseWritten .HAVING Expression.written q.having *
    clauseWritten .ORDER_BY Expression.written q.orderBy *
    clauseWritten .OPTION Expression.written q.options

/-- **The words of a query.** -/
def Query.written (q : Query) : Language Placed := Keyword.SELECT.written * q.writtenBody

/-- The words of a query between `SELECT` and the tables. -/
def Query.writtenHead (q : Query) : Language Placed :=
  q.quantifier.elim 1 (fun d => d.keyword.written) *
    clauseWritten .TOP Top.written q.top *
    separated (.symbol .comma) Expression.written q.columns

/-- The words of the clauses behind the tables of a query. -/
def Query.writtenTrail (q : Query) : Language Placed :=
  clauseWritten .WHERE Expression.written q.whereClause *
    clauseWritten .GROUP_BY Expression.written q.groupBy *
    clauseWritten .HAVING Expression.written q.having *
    clauseWritten .ORDER_BY Expression.written q.orderBy *
    clauseWritten .OPTION Expression.written q.options

/-- The tables stand between the head of a query and its trailing clauses. -/
theorem Query.writtenBody_eq (q : Query) :
    q.writtenBody = q.writtenHead * clauseWritten .INTO QualifiedName.written q.into *
      clauseWritten .FROM FromClause.written q.fromClause * q.writtenTrail := by
  simp only [writtenBody, writtenHead, writtenTrail, mul_assoc]

/-! ## Reading a language off the front -/

/-- Some words begin with a word of a language and go on with `rest`. -/
def Reads (l : Language Placed) (ws rest : List Placed) : Prop := ∃ us ∈ l, us ++ rest = ws

section Reads

variable {l m : Language Placed} {ws rest : List Placed}

/-- A language is read to the end from its own words. -/
theorem reads_nil_iff : Reads l ws [] ↔ ws ∈ l := by
  simp [Reads]

@[simp] theorem reads_zero : ¬ Reads 0 ws rest := by
  rintro ⟨us, hus, -⟩
  exact Language.notMem_zero us hus

@[simp] theorem reads_one : Reads 1 ws rest ↔ ws = rest := by
  constructor
  · rintro ⟨us, hus, rfl⟩
    rw [(Language.mem_one us).mp hus, List.nil_append]
  · rintro rfl
    exact ⟨[], Language.nil_mem_one, rfl⟩

@[simp] theorem reads_add : Reads (l + m) ws rest ↔ Reads l ws rest ∨ Reads m ws rest := by
  constructor
  · rintro ⟨us, hus | hus, happend⟩
    · exact .inl ⟨us, hus, happend⟩
    · exact .inr ⟨us, hus, happend⟩
  · rintro (⟨us, hus, happend⟩ | ⟨us, hus, happend⟩)
    · exact ⟨us, .inl hus, happend⟩
    · exact ⟨us, .inr hus, happend⟩

/-- **A product is read one factor behind the other.** -/
@[simp] theorem reads_mul :
    Reads (l * m) ws rest ↔ ∃ mid, Reads l ws mid ∧ Reads m mid rest := by
  constructor
  · rintro ⟨us, hus, rfl⟩
    obtain ⟨a, ha, b, hb, rfl⟩ := Language.mem_mul.mp hus
    exact ⟨b ++ rest, ⟨a, ha, (List.append_assoc a b rest).symm⟩, ⟨b, hb, rfl⟩⟩
  · rintro ⟨mid, ⟨a, ha, rfl⟩, ⟨b, hb, rfl⟩⟩
    exact ⟨a ++ b, Language.append_mem_mul ha hb, List.append_assoc a b rest⟩

theorem Reads.mul {mid : List Placed} (hl : Reads l ws mid) (hm : Reads m mid rest) :
    Reads (l * m) ws rest := reads_mul.mpr ⟨mid, hl, hm⟩

@[simp] theorem reads_token {t : Token} :
    Reads t.written ws rest ↔ ∃ p : Placed, p.token = t ∧ ws = p :: rest := by
  constructor
  · rintro ⟨us, ⟨p, hp, rfl⟩, rfl⟩
    exact ⟨p, hp, rfl⟩
  · rintro ⟨p, hp, rfl⟩
    exact ⟨[p], ⟨p, hp, rfl⟩, rfl⟩

@[simp] theorem reads_keyword {k : Keyword} :
    Reads k.written ws rest ↔ ∃ p : Placed, p.token = .keyword k ∧ ws = p :: rest := reads_token

@[simp] theorem reads_ident {name : String} :
    Reads (identWritten name) ws rest ↔
      ∃ p : Placed, p.token = .ident ∧ p.word.literal = name ∧ ws = p :: rest := by
  constructor
  · rintro ⟨us, ⟨p, hp, hname, rfl⟩, rfl⟩
    exact ⟨p, hp, hname, rfl⟩
  · rintro ⟨p, hp, hname, rfl⟩
    exact ⟨[p], ⟨p, hp, hname, rfl⟩, rfl⟩

@[simp] theorem reads_expression {e : Expression} :
    Reads e.written ws rest ↔ ws = e.items ++ rest := by
  constructor
  · rintro ⟨us, hus, rfl⟩
    rw [Set.mem_singleton_iff.mp hus]
  · rintro rfl
    exact ⟨e.items, Set.mem_singleton _, rfl⟩

end Reads

/-! ## Names inside a query -/

/-- Every word of `l` has a word of `m` inside it. -/
def Holds (l m : Language Placed) : Prop := ∀ ws ∈ l, ∃ us ∈ m, us <:+: ws

section Holds

variable {l m k : Language Placed}

theorem holds_self (l : Language Placed) : Holds l l := fun ws hws => ⟨ws, hws, List.infix_refl ws⟩

theorem Holds.mul_right (h : Holds l k) : Holds (l * m) k := by
  intro ws hws
  obtain ⟨as, has, bs, -, rfl⟩ := Language.mem_mul.mp hws
  obtain ⟨us, hus, hinside⟩ := h as has
  exact ⟨us, hus, hinside.trans (List.prefix_append as bs).isInfix⟩

theorem Holds.mul_left (h : Holds m k) : Holds (l * m) k := by
  intro ws hws
  obtain ⟨as, -, bs, hbs, rfl⟩ := Language.mem_mul.mp hws
  obtain ⟨us, hus, hinside⟩ := h bs hbs
  exact ⟨us, hus, hinside.trans (List.suffix_append as bs).isInfix⟩

theorem Holds.prod {ls : List (Language Placed)} (h : Holds l k) (hl : l ∈ ls) :
    Holds ls.prod k := by
  obtain ⟨front, behind, rfl⟩ := List.append_of_mem hl
  rw [List.prod_append, List.prod_cons]
  exact h.mul_right.mul_left

end Holds

/-- The name of a source that has one. -/
def TableSource.name? : TableSource → Option QualifiedName
  | named name => some name
  | derived _ => none

/-- The tables of a query. -/
def Query.tables (q : Query) : List Table :=
  q.fromClause.elim [] fun f => f.table :: f.joins.map Join.table

/-- The names in a query: of the table it fills, and of the tables it reads. -/
def Query.names (q : Query) : List QualifiedName :=
  q.into.toList ++ q.tables.filterMap (·.source.name?)

theorem Table.holds_name {t : Table} {n : QualifiedName} (h : t.source.name? = some n) :
    Holds t.written n.written := by
  have hsource : Holds t.source.written n.written := by
    cases hs : t.source with
    | named name =>
      obtain rfl : name = n := by simpa [hs, TableSource.name?] using h
      exact holds_self _
    | derived query => simp [hs, TableSource.name?] at h
  exact hsource.mul_right.mul_right.mul_right

theorem FromClause.holds_table {f : FromClause} {t : Table}
    (h : t ∈ f.table :: f.joins.map Join.table) {k : Language Placed} (ht : Holds t.written k) :
    Holds f.written k := by
  rcases List.mem_cons.mp h with rfl | hjoin
  · exact ht.mul_right
  · obtain ⟨j, hj, rfl⟩ := List.mem_map.mp hjoin
    have hheld : Holds j.written k := ht.mul_left.mul_right
    exact (hheld.prod (List.mem_map_of_mem hj)).mul_left

/-- **A query holds its names**: words that spell it have words inside that spell each of them. -/
theorem Query.holds_name {q : Query} {n : QualifiedName} (h : n ∈ q.names) :
    Holds q.written n.written := by
  rw [written, writtenBody_eq]
  rcases List.mem_append.mp h with hinto | htable
  · have hclause : Holds (clauseWritten .INTO QualifiedName.written q.into) n.written := by
      rw [Option.mem_toList.mp hinto]
      exact (holds_self _).mul_left
    exact hclause.mul_left.mul_right.mul_right.mul_left
  · obtain ⟨t, ht, hname⟩ := List.mem_filterMap.mp htable
    have hclause : Holds (clauseWritten .FROM FromClause.written q.fromClause) n.written := by
      cases hf : q.fromClause with
      | none => simp [tables, hf] at ht
      | some f =>
        rw [tables, hf] at ht
        exact (FromClause.holds_table ht (Table.holds_name hname)).mul_left
    exact hclause.mul_left.mul_right.mul_left

/-- **The literals of the words of a name, taken together, are its text**, where points are spelled
as points. -/
theorem QualifiedName.flatMap_literal {n : QualifiedName} {ws : List Placed} (h : ws ∈ n.written)
    (hpoint : ∀ p ∈ ws, p.token = .symbol .period → p.word.literal = ".") :
    ws.flatMap (fun p => p.word.literal.toList) = n.text.toList := by
  obtain ⟨parts⟩ := n
  rw [QualifiedName.text, String.toList_intercalate]
  induction parts generalizing ws with
  | nil => exact absurd h (Language.notMem_zero ws)
  | cons part parts ih =>
    obtain ⟨mid, hpart, hparts⟩ := reads_mul.mp (reads_nil_iff.mpr h)
    obtain ⟨p, -, rfl, rfl⟩ := reads_ident.mp hpart
    cases parts with
    | nil =>
      obtain rfl := reads_one.mp hparts
      simp
    | cons next parts =>
      rw [List.map_cons, List.prod_cons] at hparts
      simp only [reads_mul] at hparts
      obtain ⟨ws₂, ⟨ws₁, hseparator, hnext⟩, hmore⟩ := hparts
      obtain ⟨d, hd, rfl⟩ := reads_token.mp hseparator
      have hrec := ih (fun q hq => hpoint q (by simp [hq])) (reads_nil_iff.mp (hnext.mul hmore))
      have hspelled : d.word.literal = "." := hpoint d (by simp) hd
      rw [List.map_cons, List.map_cons, List.intercalate_cons_cons, ← List.map_cons, ← hrec,
        List.flatMap_cons, List.flatMap_cons, hspelled, List.append_assoc]

end SqlScript
