import SqlScript.Proofs.Query.Clean
import SqlScript.Proofs.Query.WellFormed

/-!
# Query/Follow — what may stand behind a part of a query, and how its end is recognised

A clause that is present is recognised by its keyword, and a clause that is absent by the word in
its place.  What carries this through a statement is the **rank** of that word: clauses have ranks
in the order of the statement, and behind a clause only words of higher ranks can stand, up to those
that close the query.  A word with a rank ends columns, tables, conditions and bodies alike, so runs
and clauses are read back in front of it (`run_eq`, `clause_eq`).
-/

namespace SqlScript

/-! ## Ranks -/

namespace Token

/-- Tokens that close a query wherever it is complete: those that end the statement, open another
one or continue it, and a closing parenthesis. -/
def closesQuery : Token → Bool
  | keyword .SELECT | keyword .UPDATE | keyword .INSERT | keyword .DELETE | keyword .TRUNCATE
  | keyword .UNION | keyword .EXCEPT | keyword .INTERSECT
  | symbol .rparen => true
  | t => t.endsStatement

/-- The place of a token among those that can stand behind the columns, from 1; 0 for others. -/
def clauseRank : Token → Nat
  | keyword .INTO => 1
  | keyword .FROM => 2
  | keyword .WHERE => 3
  | keyword .GROUP_BY => 4
  | keyword .HAVING => 5
  | keyword .ORDER_BY => 6
  | keyword .OPTION => 7
  | t => if t.closesQuery then 8 else 0

/-- Tokens in front of which a table ends: all that are no part of one behind its first word. -/
def endsTable (t : Token) : Bool :=
  t ≠ symbol .period && t ≠ keyword .AS && t ≠ ident && t ≠ keyword .WITH

/-- A word that closes a query comes behind every clause. -/
theorem clauseRank_of_closesQuery {t : Token} (h : t.closesQuery = true) : t.clauseRank = 8 :=
  (by decide : ∀ t ∈ all, t.closesQuery = true → t.clauseRank = 8) t t.mem_all h

/-- A word with a higher rank than another is not that word. -/
theorem ne_of_clauseRank_lt {t u : Token} (h : u.clauseRank < t.clauseRank) : t ≠ u :=
  fun heq => Nat.lt_irrefl _ (heq ▸ h)

/-- **A ranked word ends columns.** -/
theorem endsColumns_of_clauseRank_pos {t : Token} (h : 0 < t.clauseRank) :
    t.endsStatement = true ∨ t.endsColumns = true :=
  (by decide : ∀ t ∈ all, 0 < t.clauseRank → t.endsStatement = true ∨ t.endsColumns = true)
    t t.mem_all h

/-- A ranked word ends a table in front of it, and opens no join. -/
theorem endsTable_of_clauseRank_pos {t : Token} (h : 0 < t.clauseRank) :
    t.endsTable = true ∧ t.startsJoin = false :=
  (by decide : ∀ t ∈ all, 0 < t.clauseRank → t.endsTable = true ∧ t.startsJoin = false)
    t t.mem_all h

/-- A join ends a table in front of it. -/
theorem endsTable_of_startsJoin {t : Token} (h : t.startsJoin = true) : t.endsTable = true :=
  (by decide : ∀ t ∈ all, t.startsJoin = true → t.endsTable = true) t t.mem_all h

/-- **A word ranked behind the tables ends bodies and conditions.** -/
theorem endsClause_of_two_lt_clauseRank {t : Token} (h : 2 < t.clauseRank) :
    t.endsStatement = true ∨ t.endsClause = true :=
  (by decide : ∀ t ∈ all, 2 < t.clauseRank → t.endsStatement = true ∨ t.endsClause = true)
    t t.mem_all h

end Token

/-! ## The first word of a part -/

/-- Words in front of others show their own first token. -/
theorem frontToken_append {ws rest : List Placed} (h : ws ≠ []) :
    frontToken (ws ++ rest) = frontToken ws := by
  cases ws with
  | nil => exact absurd rfl h
  | cons p ps => rfl

/-- Every word of a language begins with a given token. -/
def OpensWith (l : Language Placed) (t : Token) : Prop :=
  ∀ ⦃ws rest⦄, Reads l ws rest → frontToken ws = t

section OpensWith

variable {α : Type} {t u : Token} {l m : Language Placed} {ws mid rest : List Placed}

theorem opensWith_token : OpensWith t.written t := by
  intro ws rest h
  obtain ⟨p, hp, rfl⟩ := reads_token.mp h
  exact hp

theorem opensWith_ident {name : String} : OpensWith (identWritten name) .ident := by
  intro ws rest h
  obtain ⟨p, hp, -, rfl⟩ := reads_ident.mp h
  exact hp

theorem opensWith_expression {e : Expression} (h : frontToken e.items = t) (ht : t ≠ .eof) :
    OpensWith e.written t := by
  intro ws rest hread
  obtain ⟨p, ps, hitems, hp⟩ := exists_cons_of_frontToken h ht
  rw [reads_expression.mp hread, hitems]
  exact hp

theorem OpensWith.mul (h : OpensWith l t) : OpensWith (l * m) t := by
  intro ws rest hread
  obtain ⟨mid, hl, -⟩ := reads_mul.mp hread
  exact h hl

/-- A table that is not derived opens with an identifier. -/
theorem opensWith_table {t : Table} (h : ¬ t.source.isDerived = true) :
    OpensWith t.written .ident := by
  refine OpensWith.mul (OpensWith.mul (OpensWith.mul fun ws rest hread => ?_))
  generalize t.source = source at h hread
  cases source with
  | derived query => exact absurd rfl h
  | named name =>
    obtain ⟨parts⟩ := name
    cases parts with
    | nil => exact absurd hread reads_zero
    | cons part parts => exact OpensWith.mul opensWith_ident hread

/-- In front of an option that may be left out stands its own first word or the word behind it. -/
theorem OpensWith.ite {b : Bool} (h : OpensWith l t) (hread : Reads (if b then l else 1) ws rest) :
    frontToken ws = t ∨ ws = rest := by
  cases b with
  | false => exact .inr (reads_one.mp hread)
  | true => exact .inl (h hread)

theorem OpensWith.elim {l : α → Language Placed} {v : Option α} (h : ∀ a ∈ v, OpensWith (l a) t)
    (hread : Reads (v.elim 1 l) ws rest) : frontToken ws = t ∨ ws = rest := by
  cases v with
  | none => exact .inr (reads_one.mp hread)
  | some a => exact .inl (h a rfl hread)

theorem frontToken_of_reads_clause {k : Keyword} {l : α → Language Placed} {v : Option α}
    (h : Reads (clauseWritten k l v) ws rest) : frontToken ws = .keyword k ∨ ws = rest :=
  OpensWith.elim (fun _ _ => OpensWith.mul opensWith_token) h

/-- A token that neither opens a part nor stands behind it is not at its front. -/
theorem frontToken_ne (h : frontToken ws = t ∨ ws = rest) (ht : t ≠ u)
    (hrest : frontToken rest ≠ u) : frontToken ws ≠ u := by
  rcases h with hfront | rfl
  · rw [hfront]
    exact ht
  · exact hrest

end OpensWith

namespace Parse

variable {α : Type} {ws rest : List Placed}

/-! ## Runs and clauses -/

theorem run_eq {stops : Token → Token → Bool} {x : Expectation} {e : Expression}
    (hstops : Settled stops) (he : IsRun stops e.items) (h : Reads e.written ws rest)
    (hrest : EndsRun stops rest) : run stops x ws = ⟨some e, [], rest⟩ := by
  obtain rfl := reads_expression.mp h
  exact run_eq_clean_iff.mpr
    ⟨e.items, he.ne_nil, rfl, takeRun_append_eq hstops he.toRunsFrom hrest⟩

theorem group_eq {e : Expression} (he : IsGroup e.items) :
    group (e.items ++ rest) = ⟨some e, [], rest⟩ :=
  group_eq_clean_iff.mpr ⟨e.items, rfl, takeGroup_append_eq he.toGroupsFrom⟩

theorem accept_of_reads {k : Keyword} (h : Reads k.written ws rest) :
    accept k ws = ⟨true, [], rest⟩ := by
  obtain ⟨p, hp, rfl⟩ := reads_keyword.mp h
  exact accept_eq_clean_iff.mpr (.inl ⟨p, hp, rfl, rfl⟩)

/-- An option is read back if the word behind it is not the option again. -/
theorem accept_eq {k : Keyword} {b : Bool} (h : Reads (if b then k.written else 1) ws rest)
    (hrest : b = false → frontToken rest ≠ .keyword k) : accept k ws = ⟨b, [], rest⟩ := by
  cases b with
  | true => exact accept_of_reads h
  | false =>
    obtain rfl := reads_one.mp h
    exact accept_eq_clean_iff.mpr (.inr ⟨hrest rfl, rfl, rfl⟩)

theorem acceptPair_eq {k l : Keyword} {b : Bool}
    (h : Reads (if b then k.written * l.written else 1) ws rest)
    (hrest : b = false → ¬ (frontToken rest = .keyword k ∧ frontToken rest.tail = .keyword l)) :
    acceptPair k l ws = ⟨b, [], rest⟩ := by
  cases b with
  | true =>
    obtain ⟨mid, hk, hl⟩ := reads_mul.mp h
    obtain ⟨p, hp, rfl⟩ := reads_keyword.mp hk
    obtain ⟨q, hq, rfl⟩ := reads_keyword.mp hl
    exact acceptPair_eq_clean_iff.mpr (.inl ⟨p, q, hp, hq, rfl, rfl⟩)
  | false =>
    obtain rfl := reads_one.mp h
    exact acceptPair_eq_clean_iff.mpr (.inr ⟨hrest rfl, rfl, rfl⟩)

/-- **A clause is read back** if its body is, and if the word behind it is not its keyword where it
is left out. -/
theorem clause_eq {k : Keyword} {l : α → Language Placed} {body : Parse (Option α)} {v : Option α}
    (h : Reads (clauseWritten k l v) ws rest)
    (hbody : ∀ a ∈ v, ∀ {ws}, Reads (l a) ws rest → body ws = ⟨some a, [], rest⟩)
    (hrest : v = none → frontToken rest ≠ .keyword k) : clause k body ws = ⟨v, [], rest⟩ := by
  cases v with
  | none =>
    obtain rfl := reads_one.mp h
    exact clause_eq_clean_iff.mpr (.inr ⟨hrest rfl, rfl, rfl⟩)
  | some a =>
    obtain ⟨mid, hk, ha⟩ := reads_mul.mp h
    obtain ⟨p, hp, rfl⟩ := reads_keyword.mp hk
    exact clause_eq_clean_iff.mpr (.inl ⟨p, mid, hp, rfl, hbody a rfl ha⟩)

end Parse

namespace Grammar

open Parse

variable {ws rest : List Placed}

/-! ## Boundaries -/

theorem settled_endsColumn : Settled endsColumn := fun _ _ h => h

theorem settled_endsBody : Settled endsBody := by
  intro t next h
  obtain ⟨hclause, hwith⟩ := Bool.or_eq_false_iff.mp h
  have hne : decide (t = .keyword .WITH) = false := by simpa [Token.continuesWith] using hwith
  rw [endsBody, hclause, hne, Bool.false_and, Bool.or_self]

theorem settled_endsCondition : Settled endsCondition := by
  intro t next h
  obtain ⟨hbody, hjoin⟩ := Bool.or_eq_false_iff.mp h
  have hstarts : t.startsJoin = false := by simpa [Token.opensJoin] using hjoin
  rw [endsCondition, settled_endsBody t next hbody, Token.opensJoin, hstarts, Bool.false_and,
    Bool.or_self]

theorem endsRun_endsColumn (h : 0 < (frontToken ws).clauseRank) : EndsRun endsColumn ws :=
  (Token.endsColumns_of_clauseRank_pos h).imp_right fun hends =>
    Bool.or_eq_true_iff.mpr (.inr hends)

theorem endsRun_endsBody (h : 2 < (frontToken ws).clauseRank) : EndsRun endsBody ws :=
  (Token.endsClause_of_two_lt_clauseRank h).imp_right fun hends =>
    Bool.or_eq_true_iff.mpr (.inl hends)

theorem endsRun_endsCondition (h : atJoin ws = true ∨ 2 < (frontToken ws).clauseRank) :
    EndsRun endsCondition ws := by
  rcases h with hjoin | hrank
  · exact .inr (Bool.or_eq_true_iff.mpr (.inr hjoin))
  · exact (endsRun_endsBody hrank).imp_right fun hends => Bool.or_eq_true_iff.mpr (.inl hends)

end Grammar

end SqlScript
