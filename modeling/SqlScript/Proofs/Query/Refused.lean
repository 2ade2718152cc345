import SqlScript.Proofs.Query.ReadBack
import SqlScript.Proofs.Query.Sight
import SqlScript.Script.Outline

/-!
# Query/Refused — what is read behind a table clause that cannot be

    SELECT a FROM   WHERE b          no table, and the condition is read
    SELECT a FROM 1 WHERE b          no table, and the query ends in front of 1

A table clause with no table behind its keyword is refused: its fault is noted, the clause is left
out, and the words stay where they are (`fromClause_refused`, `intoClause_refused`).  The clauses
behind it are tried at that place.  So they are read back if they stand there, and one stray word in
front of them hides all of them (`Session.select?_refused`).
-/

namespace SqlScript

/-- **Stray words**: none of them ends the columns of a query, and the first begins no table. -/
@[mk_iff]
structure IsStray (bad : List Placed) : Prop where
  front : frontToken bad ≠ .ident ∧ frontToken bad ≠ .symbol .lparen
  inside : ∀ p ∈ bad, p.token.endsColumns = false ∧ p.token.endsStatement = false

instance (bad : List Placed) : Decidable (IsStray bad) := decidable_of_iff _ (isStray_iff bad).symm

/-- A query without the clauses behind its tables. -/
def Query.withoutTrail (q : Query) : Query :=
  { q with whereClause := none, groupBy := none, having := none, orderBy := none, options := none }

/-- Stray words have no rank among the clauses. -/
theorem IsStray.clauseRank_eq {bad ws : List Placed} (h : IsStray bad) (hne : bad ≠ []) :
    (frontToken (bad ++ ws)).clauseRank = 0 := by
  cases bad with
  | nil => exact absurd rfl hne
  | cons p ps =>
    obtain ⟨hcolumns, hstatement⟩ := h.inside p List.mem_cons_self
    by_contra hrank
    rcases Token.endsColumns_of_clauseRank_pos (Nat.pos_of_ne_zero hrank) with hends | hends
    · exact absurd hends (Bool.eq_false_iff.mp hstatement)
    · exact absurd hends (Bool.eq_false_iff.mp hcolumns)

namespace Grammar

open Parse

variable {α β : Type} {ws mid rest : List Placed}

/-! ## Refusals -/

/-- A part read with faults keeps them in front of one read cleanly. -/
theorem bind_of_faults {p : Parse α} {f : α → Parse β} {a : α} {b : β} {faults : List SyntaxFault}
    (hp : p ws = ⟨a, faults, mid⟩) (hf : f a mid = ⟨b, [], rest⟩) :
    (p >>= f) ws = ⟨b, faults, rest⟩ := by
  show andThen p f ws = _
  simp only [andThen, hp, hf, List.append_nil]

/-- A clause is absent where its keyword is not. -/
theorem clause_absent {k : Keyword} {body : Parse (Option α)}
    (h : frontToken ws ≠ .keyword k) : clause k body ws = ⟨none, [], ws⟩ :=
  clause_eq_clean_iff.mpr (.inr ⟨h, rfl, rfl⟩)

/-- **`INTO` without a name is refused in front of the word behind it.** -/
theorem intoClause_refused (h : Reads Keyword.INTO.written ws rest)
    (hrest : frontToken rest ≠ .ident) : intoClause ws = refuse .tableAfterInto rest := by
  rw [intoClause, clause, bind_of_clean (accept_of_reads h), if_pos rfl, token_bind]
  cases hfront : frontToken rest with
  | ident => exact absurd hfront hrest
  | _ => rfl

/-- **`FROM` without a table is refused in front of the word behind it.** -/
theorem fromClause_refused (h : Reads Keyword.FROM.written ws rest)
    (hrest : frontToken rest ≠ .ident ∧ frontToken rest ≠ .symbol .lparen) :
    fromClause ws = refuse .tableAfterFrom rest := by
  have hsource : tableSource .tableAfterFrom rest = refuse .tableAfterFrom rest := by
    rw [tableSource, token_bind]
    cases hfront : frontToken rest with
    | ident => exact absurd hfront hrest.1
    | symbol s =>
      cases s with
      | lparen => exact absurd hfront hrest.2
      | _ => rfl
    | _ => rfl
  have htable : table .tableAfterFrom rest = refuse .tableAfterFrom rest :=
    bind_of_faults hsource rfl
  rw [fromClause, clause, bind_of_clean (accept_of_reads h), if_pos rfl]
  exact bind_of_faults htable rfl

/-- **In front of a word without a rank there are no trailing clauses.** -/
theorem trailing_of_unranked (size start : Nat) (q : Query)
    (h : (frontToken ws).clauseRank = 0) :
    trailing size start q ws =
      ⟨{ q.withoutTrail with range := ⟨start, offset size ws⟩ }, [], ws⟩ := by
  have habsent : ∀ k : Keyword, 0 < (Token.keyword k).clauseRank → bodyOf k ws = ⟨none, [], ws⟩ :=
    fun k hk => clause_absent fun hfront => absurd h (hfront ▸ hk.ne')
  refine bind_eq_clean_iff.mpr ⟨none, ws, habsent .WHERE (by decide), ?_⟩
  refine bind_eq_clean_iff.mpr ⟨none, ws, habsent .GROUP_BY (by decide), ?_⟩
  refine bind_eq_clean_iff.mpr ⟨none, ws, habsent .HAVING (by decide), ?_⟩
  refine bind_eq_clean_iff.mpr ⟨none, ws, habsent .ORDER_BY (by decide), ?_⟩
  exact bind_eq_clean_iff.mpr ⟨none, ws, habsent .OPTION (by decide), rfl⟩

/-! ## Queries -/

/-- A query whose `FROM` is refused goes on with its trailing clauses. -/
theorem query_of_refusedFrom {size start : Nat} {q v : Query} (hq : q.WellFormed)
    (hnone : q.fromClause = none)
    (h : Reads (q.writtenHead * clauseWritten .INTO QualifiedName.written q.into *
      Keyword.FROM.written) ws mid)
    (hmid : frontToken mid ≠ .ident ∧ frontToken mid ≠ .symbol .lparen)
    (htrail : trailing size start q mid = ⟨v, [], rest⟩) :
    query size start ws = ⟨v, [⟨.tableAfterFrom, mid.head?.map Placed.word⟩], rest⟩ := by
  obtain ⟨ws₂, h, hfrom⟩ := reads_mul.mp h
  obtain ⟨ws₁, hhead, hinto⟩ := reads_mul.mp h
  have hrank₂ : 1 < (frontToken ws₂).clauseRank := by
    rw [opensWith_token hfrom]
    decide
  have hrank₁ : 0 < (frontToken ws₁).clauseRank := le_clauseRank_of_reads_clause hinto hrank₂
  rw [query_of_head hq hhead hrank₁, bind_of_clean (intoClause_eq hinto hrank₂)]
  refine bind_of_faults (fromClause_refused hfrom hmid) ?_
  rw [← hnone]
  exact htrail

/-- A query whose `INTO` is refused goes on with its tables and its trailing clauses. -/
theorem query_of_refusedInto {size start : Nat} {q v : Query} (hq : q.WellFormed)
    (hnone : q.into = none) (h : Reads (q.writtenHead * Keyword.INTO.written) ws mid)
    (hmid : frontToken mid ≠ .ident)
    (hbehind : (do
      let fromClause ← fromClause
      trailing size start { q with fromClause }) mid = ⟨v, [], rest⟩) :
    query size start ws = ⟨v, [⟨.tableAfterInto, mid.head?.map Placed.word⟩], rest⟩ := by
  obtain ⟨ws₁, hhead, hinto⟩ := reads_mul.mp h
  have hrank₁ : 0 < (frontToken ws₁).clauseRank := by
    rw [opensWith_token hinto]
    decide
  rw [query_of_head hq hhead hrank₁]
  refine bind_of_faults (intoClause_refused hinto hmid) ?_
  rw [← hnone]
  exact hbehind

end Grammar

/-! ## Sessions -/

namespace Session

/-- **A session refuses a table clause** in front of the words `bad`, with the words `ws` of later
clauses behind them: it notes the one fault, at the first word behind the keyword, … -/
structure Refuses (s : Session) (expected : Expectation) (bad ws rest : List Placed)
    (q cut : Query) : Prop where
  /-- …where a later clause stands there reads the rest of the query, … -/
  resumed : bad = [] → s.select? =
    (some { q with range := ⟨s.offset, Grammar.offset s.size rest⟩ },
      ⟨s.size, rest, s.faults ++ [⟨expected, ws.head?.map Placed.word⟩]⟩)
  /-- …and elsewhere reads nothing more. -/
  stuck : bad ≠ [] → s.select? =
    (some { cut with range := ⟨s.offset, Grammar.offset s.size (bad ++ ws)⟩ },
      ⟨s.size, bad ++ ws, s.faults ++ [⟨expected, (bad ++ ws).head?.map Placed.word⟩]⟩)

/-- A session in front of `SELECT` reads the query behind it. -/
theorem select?_of_query {s : Session} {ws rest : List Placed} {q : Query}
    {faults : List SyntaxFault} (h : Reads Keyword.SELECT.written s.rest ws)
    (hquery : Grammar.query s.size s.offset ws = ⟨q, faults, rest⟩) :
    s.select? = (some q, ⟨s.size, rest, s.faults ++ faults⟩) := by
  obtain ⟨p, hp, hcons⟩ := reads_keyword.mp h
  rw [offset, hcons] at hquery
  have hread : Grammar.query s.size p.index ws = ⟨q, faults, rest⟩ := hquery
  rw [select?, run, hcons, Grammar.select_cons hp, hread]

/-- **Behind a refused table clause the query goes on at the very next word, or not at all.**  The
clause is absent and its fault is noted either way; the clauses behind it are read back where they
follow the keyword of the refused one, and stray words between the two end the query. -/
theorem select?_refused {q : Query} (hq : q.WellFormed) {bad : List Placed} (hbad : IsStray bad)
    {s : Session} {ws rest : List Placed} (hrest : (frontToken rest).closesQuery = true) :
    (q.fromClause = none →
      Reads (Keyword.SELECT.written * (q.writtenHead *
        clauseWritten .INTO QualifiedName.written q.into * Keyword.FROM.written))
        s.rest (bad ++ ws) →
      Reads q.writtenTrail ws rest →
        s.Refuses .tableAfterFrom bad ws rest q q.withoutTrail) ∧
    (q.into = none →
      Reads (Keyword.SELECT.written * (q.writtenHead * Keyword.INTO.written)) s.rest (bad ++ ws) →
      Reads (clauseWritten .FROM FromClause.written q.fromClause * q.writtenTrail) ws rest →
        s.Refuses .tableAfterInto bad ws rest q { q.withoutTrail with fromClause := none }) := by
  refine ⟨fun hnone hread htrail => ?_, fun hnone hread hbehind => ?_⟩
  · obtain ⟨body, hselect, hread⟩ := reads_mul.mp hread
    obtain ⟨hrank, hclean⟩ := Grammar.trailing_eq s.size s.offset hq htrail hrest
    constructor
    · rintro rfl
      refine select?_of_query hselect (Grammar.query_of_refusedFrom hq hnone hread ?_ hclean)
      exact ⟨Token.ne_of_clauseRank_lt (Nat.zero_lt_of_lt hrank),
        Token.ne_of_clauseRank_lt (Nat.zero_lt_of_lt hrank)⟩
    · intro hne
      refine select?_of_query hselect (Grammar.query_of_refusedFrom hq hnone hread ?_ ?_)
      · rw [frontToken_append hne]
        exact hbad.front
      · exact Grammar.trailing_of_unranked _ _ q (hbad.clauseRank_eq hne)
  · obtain ⟨body, hselect, hread⟩ := reads_mul.mp hread
    obtain ⟨mid, hfrom, htrail⟩ := reads_mul.mp hbehind
    obtain ⟨hrank, hclean⟩ := Grammar.trailing_eq s.size s.offset hq htrail hrest
    constructor
    · rintro rfl
      have hfront : 1 < (frontToken ws).clauseRank :=
        Grammar.le_clauseRank_of_reads_clause hfrom hrank
      refine select?_of_query hselect (Grammar.query_of_refusedInto hq hnone hread ?_ ?_)
      · exact Token.ne_of_clauseRank_lt (Nat.zero_lt_of_lt hfront)
      · exact (Parse.bind_of_clean (Grammar.fromClause_eq hq.fromClause hfrom hrank)).trans hclean
    · intro hne
      have hunranked : (frontToken (bad ++ ws)).clauseRank = 0 := hbad.clauseRank_eq hne
      refine select?_of_query hselect (Grammar.query_of_refusedInto hq hnone hread ?_ ?_)
      · rw [frontToken_append hne]
        exact hbad.front.1
      · have habsent : Grammar.fromClause (bad ++ ws) = ⟨none, [], bad ++ ws⟩ :=
          Grammar.clause_absent fun hfront => absurd hunranked (by rw [hfront]; decide)
        exact (Parse.bind_of_clean habsent).trans (Grammar.trailing_of_unranked _ _ _ hunranked)

/-- A number and a name behind `FROM` hide the condition; nothing behind `INTO` hides nothing. -/
theorem select?_refused_number :
    let word (i : Nat) (t : Token) (literal : String) : Placed := ⟨i, ⟨t, literal, ⟨i, i + 1⟩⟩⟩
    let a := word 1 .ident "a"
    let b := word 6 .ident "b"
    let bad : List Placed := [word 3 .int "1", word 4 .ident "x"]
    let condition : List Placed := [word 5 (.keyword .WHERE) "where", b]
    let tables : List Placed := [word 3 (.keyword .FROM) "from", word 4 .ident "t"]
    let q : Query :=
      { quantifier := none
        top := none
        columns := [⟨[a]⟩]
        into := none
        fromClause := none
        whereClause := some ⟨[b]⟩
        groupBy := none
        having := none
        orderBy := none
        options := none
        range := {} }
    let r : Query := { q with fromClause := some ⟨⟨.named ⟨["t"]⟩, false, none, none⟩, []⟩ }
    let front : List Placed := [word 0 (.keyword .SELECT) "select", a]
    let s : Session := ⟨7, front ++ [word 2 (.keyword .FROM) "from"] ++ (bad ++ condition), []⟩
    let t : Session := ⟨7, front ++ [word 2 (.keyword .INTO) "into"] ++ (tables ++ condition), []⟩
    q.WellFormed ∧ r.WellFormed ∧ IsStray bad ∧ IsStray [] ∧
      s.select? = (some { q.withoutTrail with range := ⟨0, 3⟩ },
        ⟨7, bad ++ condition, [⟨.tableAfterFrom, some ⟨.int, "1", ⟨3, 4⟩⟩⟩]⟩) ∧
      t.select? = (some { r with range := ⟨0, 7⟩ },
        ⟨7, [], [⟨.tableAfterInto, some ⟨.keyword .FROM, "from", ⟨3, 4⟩⟩⟩]⟩) := by
  intro word a b bad condition tables q r front s t
  have hq : q.WellFormed := by decide +kernel
  have hr : r.WellFormed := by decide +kernel
  have hbad : IsStray bad := by decide +kernel
  have hnil : IsStray [] := by decide +kernel
  have hfrom : Reads (Keyword.SELECT.written * (q.writtenHead *
      clauseWritten .INTO QualifiedName.written q.into * Keyword.FROM.written)) s.rest
      (bad ++ condition) := by
    simp [q, s, front, a, word, Query.writtenHead, clauseWritten, separated, Placed.token]
  have hinto : Reads (Keyword.SELECT.written * (r.writtenHead * Keyword.INTO.written)) t.rest
      ([] ++ (tables ++ condition)) := by
    simp [r, q, t, front, a, word, Query.writtenHead, clauseWritten, separated, Placed.token]
  have htrail : Reads q.writtenTrail condition [] := by
    simp [q, condition, b, word, Query.writtenTrail, clauseWritten, Placed.token]
  have htables : Reads (clauseWritten .FROM FromClause.written r.fromClause * r.writtenTrail)
      (tables ++ condition) [] := by
    simp [r, q, tables, condition, b, word, Query.writtenTrail, clauseWritten, FromClause.written,
      Table.written, TableSource.written, QualifiedName.written, separated, Placed.token]
  exact ⟨hq, hr, hbad, hnil, ((select?_refused hq hbad rfl).1 rfl hfrom htrail).stuck (by decide),
    ((select?_refused hr hnil rfl).2 rfl hinto htables).resumed rfl⟩

end Session

/-- **One number behind `FROM` or `INTO` hides every clause that follows**: reading does not go on
at the next of them, although the refusal is noted. -/
theorem Outline.not_resumed_behind_number :
    let refusedFrom := Outline.parse "t.sql" "SELECT a FROM 1 WHERE b"
    let refusedInto := Outline.parse "t.sql" "SELECT a INTO 1 FROM t WHERE b"
    refusedFrom.script.words.map Word.token =
        [.keyword .SELECT, .ident, .keyword .FROM, .int, .keyword .WHERE, .ident] ∧
      refusedFrom.faults.map SyntaxFault.expected = [.tableAfterFrom] ∧
      refusedFrom.queries.map (fun q => (q.fromClause, q.whereClause)) = [(none, none)] ∧
      refusedInto.script.words.map Word.token =
        [.keyword .SELECT, .ident, .keyword .INTO, .int, .keyword .FROM, .ident, .keyword .WHERE,
          .ident] ∧
      refusedInto.faults.map SyntaxFault.expected = [.tableAfterInto] ∧
      refusedInto.queries.map (fun q => (q.into, q.fromClause, q.whereClause)) =
        [(none, none, none)] := by
  decide +kernel

end SqlScript
