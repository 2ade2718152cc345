import SqlScript.Proofs.Query.Clean
import SqlScript.Proofs.Query.Cursor
import SqlScript.Proofs.Query.Visible
import SqlScript.Proofs.Query.Written
import SqlScript.Proofs.Script.Spelling

/-!
# Query/Faithful — a clean reading passes over exactly the words of what it gives

A parser is **faithful** to a family of languages if every clean reading of `a` reads a word of the
language of `a`.  Faithfulness goes from the parts of a statement to the whole, clause by clause
and, for the lists of columns and joins, by induction along the loop.  So every early return of the
grammar has to note a fault: a part that is required and absent would have to be spelled by the
empty language `0`.

Of a script, the words passed carry the names of the query as well: the literals of the words of a
name, taken together, are the text of the name (`Script.exists_literals_of_mem_names`).
-/

namespace SqlScript

/-! ## Faithful parsers and their composition -/

namespace Parse

variable {α β : Type} {ws rest : List Placed}

/-- Every clean reading passes over words that spell the value it gives. -/
def Faithful (p : Parse α) (l : α → Language Placed) : Prop :=
  ∀ ⦃ws a rest⦄, p ws = ⟨a, [], rest⟩ → Reads (l a) ws rest

theorem faithful_accept (k : Keyword) :
    Faithful (accept k) fun b => if b then k.written else 1 := by
  intro ws b rest h
  rcases accept_eq_clean_iff.mp h with ⟨p, hp, rfl, rfl⟩ | ⟨-, rfl, rfl⟩
  · exact reads_keyword.mpr ⟨p, hp, rfl⟩
  · exact reads_one.mpr rfl

theorem faithful_acceptPair (k l : Keyword) :
    Faithful (acceptPair k l) fun b => if b then k.written * l.written else 1 := by
  intro ws b rest h
  rcases acceptPair_eq_clean_iff.mp h with ⟨p, q, hp, hq, rfl, rfl⟩ | ⟨-, rfl, rfl⟩
  · exact (reads_keyword.mpr ⟨p, hp, rfl⟩).mul (reads_keyword.mpr ⟨q, hq, rfl⟩)
  · exact reads_one.mpr rfl

/-- A clean reading of a part that must be there gives the part. -/
theorem Faithful.exists_some {p : Parse (Option α)} {l : α → Language Placed}
    (hp : Faithful p (·.elim 0 l)) {v : Option α} (h : p ws = ⟨v, [], rest⟩) :
    ∃ a, v = some a ∧ Reads (l a) ws rest := by
  cases v with
  | none => exact absurd (hp h) reads_zero
  | some a => exact ⟨a, rfl, hp h⟩

/-- The same of a reading whose faults are known to be none. -/
theorem Faithful.exists_value {p : Parse (Option α)} {l : α → Language Placed}
    (hp : Faithful p (·.elim 0 l)) (h : (p ws).faults = []) :
    ∃ a, (p ws).value = some a ∧ Reads (l a) ws (p ws).rest :=
  hp.exists_some (by rw [← h])

/-- **A clause is faithful if its body is**, which must not be left out behind the keyword. -/
theorem Faithful.clause {k : Keyword} {body : Parse (Option α)} {l : α → Language Placed}
    (h : Faithful body (·.elim 0 l)) : Faithful (clause k body) (clauseWritten k l) := by
  intro ws a rest hclause
  rcases clause_eq_clean_iff.mp hclause with ⟨p, ps, hp, rfl, hbody⟩ | ⟨-, rfl, rfl⟩
  · obtain ⟨a, rfl, hread⟩ := h.exists_some hbody
    exact (reads_keyword.mpr ⟨p, hp, rfl⟩).mul hread
  · exact reads_one.mpr rfl

/-- Behind a part that must be there, a clean reading has read that part. -/
theorem Faithful.exists_of_andThenSome {p : Parse (Option α)} {f : α → Parse (Option β)}
    {l : α → Language Placed} (hp : Faithful p (·.elim 0 l)) {b : Option β}
    (h : andThenSome p f ws = ⟨b, [], rest⟩) :
    ∃ a mid, p ws = ⟨some a, [], mid⟩ ∧ Reads (l a) ws mid ∧ f a mid = ⟨b, [], rest⟩ := by
  rcases andThenSome_eq_clean_iff.mp h with ⟨a, mid, hread, hf⟩ | ⟨hread, -⟩
  · exact ⟨a, mid, hread, hp hread, hf⟩
  · exact absurd (hp hread) reads_zero

theorem faithful_group : Faithful group (·.elim 0 Expression.written) := by
  intro ws e rest h
  obtain ⟨items, rfl, hgroup⟩ := group_eq_clean_iff.mp h
  have happend := takeGroup_append 0 ws
  rw [hgroup] at happend
  exact reads_expression.mpr happend.symm

theorem faithful_run (stops : Token → Token → Bool) (x : Expectation) :
    Faithful (run stops x) (·.elim 0 Expression.written) := by
  intro ws e rest h
  obtain ⟨items, -, rfl, hrun⟩ := run_eq_clean_iff.mp h
  have happend := takeRun_append stops 0 ws
  rw [hrun] at happend
  exact reads_expression.mpr happend.symm

theorem faithful_single : Faithful single (·.elim 0 Expression.written) := by
  intro ws e rest h
  obtain ⟨rfl, -, rfl⟩ := Step.mk.inj h
  exact reads_expression.mpr (by rw [← List.drop_one, List.take_append_drop])

end Parse

namespace Grammar

open Parse

variable {ws rest : List Placed}

/-! ## In front of the columns -/

theorem faithful_quantifier :
    Faithful quantifier (·.elim 1 fun d => d.keyword.written) := by
  intro ws d rest h
  obtain ⟨isAll, mid, hall, h⟩ := bind_eq_clean_iff.mp h
  cases isAll with
  | true =>
    obtain ⟨rfl, rfl⟩ := done_eq_clean_iff.mp h
    exact faithful_accept .ALL hall
  | false =>
    obtain rfl : ws = mid := reads_one.mp (faithful_accept .ALL hall)
    obtain ⟨isDistinct, mid, hdistinct, h⟩ := bind_eq_clean_iff.mp h
    cases isDistinct with
    | true =>
      obtain ⟨rfl, rfl⟩ := done_eq_clean_iff.mp h
      exact faithful_accept .DISTINCT hdistinct
    | false =>
      obtain ⟨rfl, rfl⟩ := done_eq_clean_iff.mp h
      exact faithful_accept .DISTINCT hdistinct

theorem faithful_topCount : Faithful topCount (·.elim 0 Expression.written) := by
  intro ws e rest h
  rw [topCount, token_bind] at h
  generalize frontToken ws = t at h
  split at h
  · exact faithful_group h
  · exact faithful_single h
  · exact faithful_single h
  · exact absurd h not_clean_refuse

theorem faithful_top : Faithful top (clauseWritten .TOP Top.written) := by
  refine Faithful.clause fun ws t rest h => ?_
  obtain ⟨count, ws₁, -, hcount, h⟩ := faithful_topCount.exists_of_andThenSome h
  obtain ⟨percent, ws₂, hpercent, h⟩ := bind_eq_clean_iff.mp h
  obtain ⟨withTies, ws₃, hties, h⟩ := bind_eq_clean_iff.mp h
  obtain ⟨rfl, rfl⟩ := done_eq_clean_iff.mp h
  exact (hcount.mul (faithful_accept .PERCENT hpercent)).mul
    (faithful_acceptPair .WITH .TIES hties)

/-! ## Columns -/

/-- One more part in front of a list of parts, with the token between them. -/
theorem reads_separated_cons {α : Type} {t : Token} {l : α → Language Placed} {a : α} {as : List α}
    {p : Placed} {ps : List Placed} (hp : p.token = t) (ha : Reads (l a) ws (p :: ps))
    (has : Reads (separated t l as) ps rest) : Reads (separated t l (a :: as)) ws rest := by
  cases as with
  | nil => exact absurd has reads_zero
  | cons b bs =>
    obtain ⟨mid, hb, hbs⟩ := reads_mul.mp has
    have hseparator : Reads t.written (p :: ps) ps := reads_token.mpr ⟨p, hp, rfl⟩
    rw [separated, List.map_cons, List.prod_cons]
    exact ha.mul ((hseparator.mul hb).mul hbs)

/-- **Columns are faithful**, by induction along them. -/
theorem faithful_columns : Faithful columns (separated (.symbol .comma) Expression.written) := by
  intro ws
  fun_induction columns ws
  case case1 ws column hrest =>
    intro es rest h
    obtain ⟨rfl, hfaults, rfl⟩ := Step.mk.inj h
    obtain ⟨e, he, hread⟩ := (faithful_run endsColumn .column).exists_value hfaults
    rw [show column.value = some e from he]
    exact hread.mul (reads_one.mpr hrest)
  case case2 ws column p ps hrest hcomma more ih =>
    intro es rest h
    obtain ⟨rfl, hfaults, rfl⟩ := Step.mk.inj h
    obtain ⟨hfirst, hmore⟩ := List.append_eq_nil_iff.mp hfaults
    obtain ⟨e, he, hread⟩ := (faithful_run endsColumn .column).exists_value hfirst
    have hrec : columns ps = ⟨more.value, [], more.rest⟩ := by rw [← hmore]
    rw [show column.value = some e from he]
    exact reads_separated_cons hcomma (hrest ▸ hread) (ih hrec)
  case case3 ws column p ps hrest hcomma =>
    intro es rest h
    obtain ⟨rfl, hfaults, rfl⟩ := Step.mk.inj h
    obtain ⟨e, he, hread⟩ := (faithful_run endsColumn .column).exists_value hfaults
    rw [show column.value = some e from he]
    exact hread.mul (reads_one.mpr hrest)

/-! ## Tables -/

/-- The further parts of a name are read off with their points. -/
theorem reads_takeDotted (ws : List Placed) :
    Reads ((takeDotted ws).1.map fun n => (Token.symbol .period).written * identWritten n).prod
      ws (takeDotted ws).2 := by
  fun_induction takeDotted ws with
  | case1 d p ps h more ih =>
    have hpoint : Reads (Token.symbol .period).written (d :: p :: ps) (p :: ps) :=
      reads_token.mpr ⟨d, h.1, rfl⟩
    have hpart : Reads (identWritten p.word.literal) (p :: ps) ps :=
      reads_ident.mpr ⟨p, h.2, rfl, rfl⟩
    rw [List.map_cons, List.prod_cons]
    exact (hpoint.mul hpart).mul ih
  | case2 d p ps h => exact reads_one.mpr rfl
  | case3 ws h => exact reads_one.mpr rfl

/-- A name is read faithfully where an identifier is at the front. -/
theorem reads_qualifiedName {n : QualifiedName} (hfront : frontToken ws = .ident)
    (h : qualifiedName ws = ⟨n, [], rest⟩) : Reads n.written ws rest := by
  obtain ⟨p, ps, rfl, hp⟩ := exists_cons_of_frontToken hfront (by simp)
  obtain ⟨rfl, -, rfl⟩ := Step.mk.inj h
  have hfirst : Reads (identWritten p.word.literal) (p :: ps) ps :=
    reads_ident.mpr ⟨p, hp, rfl, rfl⟩
  exact hfirst.mul (reads_takeDotted ps)

theorem faithful_intoClause : Faithful intoClause (clauseWritten .INTO QualifiedName.written) := by
  refine Faithful.clause fun ws n rest h => ?_
  rw [token_bind] at h
  generalize hfront : frontToken ws = t at h
  split at h
  · obtain ⟨n, hname, rfl⟩ := map_eq_clean_iff.mp h
    exact reads_qualifiedName hfront hname
  · exact absurd h not_clean_refuse

/-- A source is read faithfully, and only a parenthesis opens a derived one. -/
theorem reads_tableSource {e : Expectation} {v : Option TableSource}
    (h : tableSource e ws = ⟨v, [], rest⟩) :
    Reads (v.elim 0 TableSource.written) ws rest ∧
      ∀ s ∈ v, s.isDerived = true → frontToken ws = .symbol .lparen := by
  rw [tableSource, token_bind] at h
  generalize hfront : frontToken ws = t at h ⊢
  split at h
  · obtain ⟨n, hname, rfl⟩ := map_eq_clean_iff.mp h
    exact ⟨reads_qualifiedName hfront hname, by rintro s ⟨⟩ ⟨⟩⟩
  · obtain ⟨v, hgroup, rfl⟩ := map_eq_clean_iff.mp h
    obtain ⟨q, rfl, hq⟩ := faithful_group.exists_some hgroup
    exact ⟨reads_expression.mpr (reads_expression.mp hq), fun _ _ _ => rfl⟩
  · exact absurd h not_clean_refuse

theorem faithful_tableSource (e : Expectation) :
    Faithful (tableSource e) (·.elim 0 TableSource.written) :=
  fun _ _ _ h => (reads_tableSource h).1

theorem faithful_aliasName (asKeyword : Bool) :
    Faithful (aliasName asKeyword) (·.elim 1 identWritten) := by
  intro ws name rest h
  cases ws with
  | nil =>
    cases asKeyword with
    | true => exact absurd h not_clean_refuse
    | false =>
      obtain ⟨rfl, -, rfl⟩ := Step.mk.inj h
      exact reads_one.mpr rfl
  | cons p ps =>
    rw [aliasName] at h
    split at h
    · next hident =>
      obtain ⟨rfl, -, rfl⟩ := Step.mk.inj h
      exact reads_ident.mpr ⟨p, hident, rfl, rfl⟩
    · split at h
      · exact absurd h not_clean_refuse
      · obtain ⟨rfl, -, rfl⟩ := Step.mk.inj h
        exact reads_one.mpr rfl

theorem faithful_hints : Faithful hints (·.elim 1 Expression.written) := by
  intro ws e rest h
  cases ws with
  | nil =>
    obtain ⟨rfl, -, rfl⟩ := Step.mk.inj h
    exact reads_one.mpr rfl
  | cons p ps =>
    rw [hints] at h
    split at h
    · obtain ⟨rfl, hfaults, rfl⟩ := Step.mk.inj h
      obtain ⟨e, he, hread⟩ := faithful_group.exists_value hfaults
      rw [he]
      exact reads_expression.mpr (congrArg (p :: ·) (reads_expression.mp hread))
    · obtain ⟨rfl, -, rfl⟩ := Step.mk.inj h
      exact reads_one.mpr rfl

/-- A table is read faithfully, and only a parenthesis opens a derived one. -/
theorem reads_table {e : Expectation} {v : Option Table} (h : table e ws = ⟨v, [], rest⟩) :
    ∃ t, v = some t ∧ Reads t.written ws rest ∧
      (t.source.isDerived = true → frontToken ws = .symbol .lparen) := by
  obtain ⟨source, ws₁, hsource, hread, h⟩ := (faithful_tableSource e).exists_of_andThenSome h
  obtain ⟨asKeyword, ws₂, has, h⟩ := bind_eq_clean_iff.mp h
  obtain ⟨name, ws₃, hname, h⟩ := bind_eq_clean_iff.mp h
  obtain ⟨hint, ws₄, hhint, h⟩ := bind_eq_clean_iff.mp h
  obtain ⟨rfl, rfl⟩ := done_eq_clean_iff.mp h
  refine ⟨⟨source, asKeyword, name, hint⟩, rfl, ?_, (reads_tableSource hsource).2 source rfl⟩
  exact ((hread.mul (faithful_accept .AS has)).mul (faithful_aliasName asKeyword hname)).mul
    (faithful_hints hhint)

theorem faithful_table (e : Expectation) : Faithful (table e) (·.elim 0 Table.written) := by
  intro ws v rest h
  obtain ⟨t, rfl, hread, -⟩ := reads_table h
  exact hread

/-! ## Joins -/

/-- A keyword that names a kind of join spells it together with `JOIN`. -/
theorem keywords_of_ofToken? {t : Token} {kind : JoinKind}
    (h : JoinKind.ofToken? t = some kind) :
    ∃ k, t = .keyword k ∧ kind.keywords = [k, .JOIN] ∧
      ∀ outer ∈ kind.outer?, outer.keywords = [k, .OUTER, .JOIN] := by
  unfold JoinKind.ofToken? at h
  split at h
  case h_6 => cases h
  all_goals
    obtain rfl := Option.some.inj h
    exact ⟨_, rfl, rfl, by decide⟩

/-- A kind of join is kept, or marked by `OUTER`. -/
theorem reads_outerKind {kind found : JoinKind} (h : outerKind kind ws = ⟨found, [], rest⟩) :
    found = kind ∧ ws = rest ∨ found ∈ kind.outer? ∧ Reads Keyword.OUTER.written ws rest := by
  unfold outerKind at h
  cases houter : kind.outer? with
  | none =>
    rw [houter] at h
    obtain ⟨rfl, rfl⟩ := done_eq_clean_iff.mp h
    exact .inl ⟨rfl, rfl⟩
  | some outer =>
    rw [houter] at h
    obtain ⟨marked, mid, haccept, h⟩ := bind_eq_clean_iff.mp h
    have hmark := faithful_accept .OUTER haccept
    cases marked with
    | true =>
      obtain ⟨rfl, rfl⟩ := done_eq_clean_iff.mp h
      exact .inr ⟨rfl, hmark⟩
    | false =>
      obtain ⟨rfl, rfl⟩ := done_eq_clean_iff.mp h
      exact .inl ⟨rfl, reads_one.mp hmark⟩

/-- In front of `JOIN`, the kind of a join is spelled in full, or it is inner and not spelled. -/
theorem reads_joinKind {kind : JoinKind} {p : Placed} (hp : p.token = .keyword .JOIN)
    (h : joinKind ws = ⟨kind, [], p :: rest⟩) :
    Reads kind.written ws rest ∨ kind = .inner ∧ ws = p :: rest := by
  have hjoin : Reads Keyword.JOIN.written (p :: rest) rest := reads_keyword.mpr ⟨p, hp, rfl⟩
  unfold joinKind at h
  split at h
  · obtain ⟨rfl, rfl⟩ := done_eq_clean_iff.mp h
    exact .inr ⟨rfl, rfl⟩
  · next named hnamed =>
    obtain ⟨k, hfront, hplain, houter⟩ := keywords_of_ofToken? hnamed
    obtain ⟨q, qs, rfl, hq⟩ := exists_cons_of_frontToken hfront (by simp)
    have hkeyword : Reads k.written (q :: qs) qs := reads_keyword.mpr ⟨q, hq, rfl⟩
    left
    rcases reads_outerKind h with ⟨rfl, rfl⟩ | ⟨hmarked, hmark⟩
    · rw [JoinKind.written, hplain]
      exact hkeyword.mul (hjoin.mul (reads_one.mpr rfl))
    · rw [JoinKind.written, houter kind hmarked]
      exact hkeyword.mul (hmark.mul (hjoin.mul (reads_one.mpr rfl)))

theorem faithful_joinCondition (kind : JoinKind) :
    Faithful (joinCondition kind) (clauseWritten .ON Expression.written) := by
  intro ws e rest h
  unfold joinCondition at h
  split at h
  · obtain ⟨rfl, rfl⟩ := done_eq_clean_iff.mp h
    exact reads_one.mpr rfl
  · obtain ⟨present, mid, haccept, h⟩ := bind_eq_clean_iff.mp h
    cases present with
    | true =>
      obtain ⟨e, rfl, hread⟩ := (faithful_run endsCondition .joinCondition).exists_some h
      exact (faithful_accept .ON haccept).mul hread
    | false => exact absurd h not_clean_refuse

/-- **A join is faithful where one stands**: behind `JOIN` alone there is no parenthesis, so the
table has a name. -/
theorem reads_join {v : Option Join} (hat : atJoin ws = true) (h : join ws = ⟨v, [], rest⟩) :
    ∃ j, v = some j ∧ Reads j.written ws rest := by
  obtain ⟨kind, ws₁, hkind, h⟩ := bind_eq_clean_iff.mp h
  obtain ⟨present, ws₂, haccept, h⟩ := bind_eq_clean_iff.mp h
  rcases accept_eq_clean_iff.mp haccept with ⟨p, hp, rfl, rfl⟩ | ⟨-, rfl, rfl⟩
  · obtain ⟨t, ws₃, htable, hread, h⟩ :=
      (faithful_table .tableAfterJoin).exists_of_andThenSome h
    obtain ⟨condition, ws₄, hcondition, h⟩ := bind_eq_clean_iff.mp h
    obtain ⟨rfl, rfl⟩ := done_eq_clean_iff.mp h
    refine ⟨⟨kind, t, condition⟩, rfl, ?_⟩
    refine (Reads.mul ?_ hread).mul (faithful_joinCondition kind hcondition)
    rcases reads_joinKind hp hkind with hfull | ⟨rfl, rfl⟩
    · exact reads_add.mpr (.inl hfull)
    · have hnext : frontToken ws₂ ≠ .symbol .lparen := by
        simp only [atJoin, Token.opensJoin, Bool.and_eq_true, bne_iff_ne] at hat
        exact hat.2
      obtain ⟨t', ht, -, hderived⟩ := reads_table htable
      obtain rfl := Option.some.inj ht
      have hnamed : ¬ t.source.isDerived = true := fun hsource => hnext (hderived hsource)
      refine reads_add.mpr (.inr ?_)
      rw [if_pos ⟨rfl, hnamed⟩]
      exact reads_keyword.mpr ⟨p, hp, rfl⟩
  · exact absurd h not_clean_refuse

/-- **Joins are faithful**, by induction along them. -/
theorem faithful_joins : Faithful joins fun js => (js.map Join.written).prod := by
  intro ws
  fun_induction joins ws
  case case1 ws hat first hnone =>
    intro js rest h
    obtain ⟨rfl, hfaults, rfl⟩ := Step.mk.inj h
    have hfirst : join ws = ⟨none, [], first.rest⟩ := by rw [← hfaults, ← hnone]
    obtain ⟨j, hj, -⟩ := reads_join hat hfirst
    cases hj
  case case2 ws hat first found hsome more ih =>
    intro js rest h
    obtain ⟨rfl, hfaults, rfl⟩ := Step.mk.inj h
    obtain ⟨hnone, hmore⟩ := List.append_eq_nil_iff.mp hfaults
    have hfirst : join ws = ⟨some found, [], first.rest⟩ := by rw [← hnone, ← hsome]
    have hrec : joins first.rest = ⟨more.value, [], more.rest⟩ := by rw [← hmore]
    obtain ⟨j, hj, hread⟩ := reads_join hat hfirst
    obtain rfl := Option.some.inj hj
    show Reads ((found :: more.value).map Join.written).prod ws more.rest
    rw [List.map_cons, List.prod_cons]
    exact hread.mul (ih hrec)
  case case3 ws hat =>
    intro js rest h
    obtain ⟨rfl, -, rfl⟩ := Step.mk.inj h
    exact reads_one.mpr rfl

/-! ## Statements -/

theorem faithful_fromClause : Faithful fromClause (clauseWritten .FROM FromClause.written) := by
  refine Faithful.clause fun ws f rest h => ?_
  obtain ⟨t, ws₁, -, htable, h⟩ := (faithful_table .tableAfterFrom).exists_of_andThenSome h
  obtain ⟨js, ws₂, hjoins, h⟩ := bind_eq_clean_iff.mp h
  obtain ⟨rfl, rfl⟩ := done_eq_clean_iff.mp h
  exact htable.mul (faithful_joins hjoins)

theorem faithful_bodyOf (k : Keyword) :
    Faithful (bodyOf k) (clauseWritten k Expression.written) :=
  (faithful_run endsBody (.bodyAfter k)).clause

/-- **A query is faithful**: a clean reading passes over its words behind `SELECT`, and stops where
its range does. -/
theorem reads_query {size start : Nat} {q : Query} (h : query size start ws = ⟨q, [], rest⟩) :
    Reads q.writtenBody ws rest ∧ q.range = ⟨start, offset size rest⟩ := by
  obtain ⟨quantifier, ws₁, hquantifier, h⟩ := bind_eq_clean_iff.mp h
  obtain ⟨top, ws₂, htop, h⟩ := bind_eq_clean_iff.mp h
  obtain ⟨columns, ws₃, hcolumns, h⟩ := bind_eq_clean_iff.mp h
  obtain ⟨into, ws₄, hinto, h⟩ := bind_eq_clean_iff.mp h
  obtain ⟨fromClause, ws₅, hfrom, h⟩ := bind_eq_clean_iff.mp h
  obtain ⟨whereClause, ws₆, hwhere, h⟩ := bind_eq_clean_iff.mp h
  obtain ⟨groupBy, ws₇, hgroupBy, h⟩ := bind_eq_clean_iff.mp h
  obtain ⟨having, ws₈, hhaving, h⟩ := bind_eq_clean_iff.mp h
  obtain ⟨orderBy, ws₉, horderBy, h⟩ := bind_eq_clean_iff.mp h
  obtain ⟨options, ws₁₀, hoptions, h⟩ := bind_eq_clean_iff.mp h
  obtain ⟨rfl, -, rfl⟩ := Step.mk.inj h
  refine ⟨?_, rfl⟩
  have hhead := (faithful_quantifier hquantifier).mul (faithful_top htop)
  have hcolumns := hhead.mul (faithful_columns hcolumns)
  have hfrom := (hcolumns.mul (faithful_intoClause hinto)).mul (faithful_fromClause hfrom)
  have hgroupBy := (hfrom.mul (faithful_bodyOf _ hwhere)).mul (faithful_bodyOf _ hgroupBy)
  have horderBy := (hgroupBy.mul (faithful_bodyOf _ hhaving)).mul (faithful_bodyOf _ horderBy)
  exact horderBy.mul (faithful_bodyOf _ hoptions)

/-- A clean reading at `SELECT` gives a query, faithfully, and its range ends where reading does. -/
theorem reads_select {size : Nat} {v : Option Query} (hfront : frontToken ws = .keyword .SELECT)
    (h : select size ws = ⟨v, [], rest⟩) :
    ∃ q, v = some q ∧ Reads q.written ws rest ∧ q.range = ⟨offset size ws, offset size rest⟩ := by
  obtain ⟨p, ps, rfl, hp⟩ := exists_cons_of_frontToken hfront (by simp)
  rw [select, if_pos hp] at h
  obtain ⟨q, hquery, rfl⟩ := map_eq_clean_iff.mp h
  obtain ⟨hbody, hrange⟩ := reads_query hquery
  exact ⟨q, rfl, (reads_keyword.mpr ⟨p, hp, rfl⟩).mul hbody, hrange⟩

end Grammar

/-! ## Sessions -/

namespace Session

/-- **A statement read without a fault loses no word.**  Wherever a session stands at `SELECT` in a
script, if reading the statement adds no fault, then the words passed are the visible words of the
range of the query, and they spell the query. -/
theorem written_of_faults_eq {words : List Word} {s : Session} (hover : s.Over words)
    (hfront : frontToken s.rest = .keyword .SELECT) (hclean : s.select?.2.faults = s.faults) :
    ∃ q, s.select?.1 = some q ∧ s.rest = q.range.visible words ++ s.select?.2.rest ∧
      q.range.visible words ∈ q.written := by
  have hnone : (Grammar.select s.size s.rest).faults = [] := List.append_right_eq_self.mp hclean
  have hselect : Grammar.select s.size s.rest = ⟨s.select?.1, [], s.select?.2.rest⟩ := by
    rw [← hnone]
    rfl
  obtain ⟨q, hq, ⟨us, hus, happend⟩, hrange⟩ := Grammar.reads_select hfront hselect
  have hwords : q.range.visible words = us := by
    rw [hrange]
    exact hover.visible_range happend.symm
  refine ⟨q, hq, ?_, ?_⟩
  · rw [hwords, happend]
  · rw [hwords]
    exact hus

/-- With a comment inside, hints on one table, and an inner join that is not spelled in full. -/
theorem written_of_inner_join :
    let words := (Script.scan "orders.sql" ("SELECT DISTINCT o.Id, Total /* net */ " ++
      "FROM dbo.Orders AS o WITH (NOLOCK) JOIN Lines ON o.Id = Parent WHERE Total > 1;")).words
    let s := ofWords words
    s.Over words ∧ frontToken s.rest = .keyword .SELECT ∧ s.select?.2.faults = s.faults ∧
      ∃ q, s.select?.1 = some q ∧ s.rest = q.range.visible words ++ s.select?.2.rest ∧
        q.range.visible words ∈ q.written := by
  intro words s
  have hover : s.Over words := over_ofWords words
  have hfront : frontToken s.rest = .keyword .SELECT := by decide +kernel
  have hclean : s.select?.2.faults = s.faults := by decide +kernel
  exact ⟨hover, hfront, hclean, written_of_faults_eq hover hfront hclean⟩

end Session

/-! ## Names -/

/-- **The name of a table is what its words spell.**  Where the words of a range of a script spell a
query, as those of a statement read without a fault do, the words of each of its names stand in the
range one behind the other, and their literals, taken together, are the text of the name. -/
theorem Script.exists_literals_of_mem_names {name source : String} {r : WordRange} {q : Query}
    (hwritten : r.visible (scan name source).words ∈ q.written) {n : QualifiedName}
    (hn : n ∈ q.names) :
    ∃ us ∈ n.written, us <:+: r.visible (scan name source).words ∧
      us.flatMap (fun p => p.word.literal.toList) = n.text.toList := by
  obtain ⟨us, hus, hinside⟩ := q.holds_name hn _ hwritten
  refine ⟨us, hus, hinside, QualifiedName.flatMap_literal hus fun p hp hperiod => ?_⟩
  have hvisible : p ∈ Placed.visible (scan name source).words :=
    List.mem_of_mem_filter (hinside.subset hp)
  have hword := (mem_visible_iff.mp hvisible).1
  exact literal_of_symbol (List.mem_of_getElem? hword) hperiod (by decide)

end SqlScript
