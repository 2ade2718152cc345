import SqlScript.Proofs.Query.Carried
import SqlScript.Proofs.Query.ReadBack
import SqlScript.Proofs.Query.Visible

/-!
# Query/BareJoin — `JOIN` alone opens an inner join, but not in front of a parenthesis

    SELECT … FROM t …   JOIN       u ON …
    SELECT … FROM t …   INNER JOIN u ON …

A query whose last part so far is its tables is read up to a join behind them, whatever that join
holds, and from there reading depends on the joins alone (`query_eq_behindTables`).  Behind `INNER`
the keyword `JOIN` opens the join it opens by itself, so the two spellings have the same statements,
one word apart, and the same faults (`Session.statements_bareJoin`).

The one look-ahead that tells `LEFT JOIN` from the function `LEFT(…)` is made for `JOIN` as well,
which names no function.  So `JOIN (…)` opens no join: the derived table is left unread, and its own
`SELECT` is found as a statement (`Session.not_bareJoin_derived`).
-/

namespace SqlScript

/-- The tables are the last part of a query. -/
@[mk_iff]
structure Query.EndsInTables (q : Query) : Prop where
  fromClause : q.fromClause ≠ none
  whereClause : q.whereClause = none
  groupBy : q.groupBy = none
  having : q.having = none
  orderBy : q.orderBy = none
  options : q.options = none

instance (q : Query) : Decidable q.EndsInTables :=
  decidable_of_iff _ (Query.endsInTables_iff q).symm

/-- Indices with one more word at `n`. -/
def Relabelling.insertAt (n : Nat) : Relabelling := { index := fun i => if i < n then i else i + 1 }

namespace Grammar

open Parse

variable {ws rest : List Placed}

/-! ## Reading up to a join -/

/-- `FROM` and its tables are read up to a join behind them. -/
theorem fromClause_append {f : FromClause} (hf : f.WellFormed)
    (h : Reads (clauseWritten .FROM FromClause.written (some f)) ws rest)
    (hat : atJoin rest = true) :
    fromClause ws =
      ⟨some ⟨f.table, f.joins ++ (joins rest).value⟩, (joins rest).faults, (joins rest).rest⟩ := by
  obtain ⟨ws₁, hfrom, hread⟩ := reads_mul.mp h
  obtain ⟨ws₂, htable, hmore⟩ := reads_mul.mp hread
  obtain ⟨hnext, hjoins⟩ := joins_append hf.joins hmore (.inl hat)
  have htable := table_eq (x := .tableAfterFrom) hf.table htable (endsTable_of_follows hnext)
  rw [fromClause, clause, bind_of_clean (accept_of_reads hfrom)]
  show andThenSome _ _ ws₁ = _
  rw [andThenSome, bind_of_clean htable]
  show andThen joins _ ws₂ = _
  simp only [andThen, hjoins, done, List.append_nil]

/-- What is left to read of a query behind its tables `f`: further joins and the trailing
clauses. -/
def behindTables (size start : Nat) (q : Query) (f : FromClause) : Parse Query := do
  let more ← joins
  let whereClause ← bodyOf .WHERE
  let groupBy ← bodyOf .GROUP_BY
  let having ← bodyOf .HAVING
  let orderBy ← bodyOf .ORDER_BY
  let options ← bodyOf .OPTION
  fun ws =>
    ⟨{ q with
       fromClause := some ⟨f.table, f.joins ++ more⟩
       whereClause, groupBy, having, orderBy, options
       range := ⟨start, offset size ws⟩ }, [], ws⟩

/-- **A query is read back up to a join behind its tables**, and the rest of it is read from
there. -/
theorem query_eq_behindTables {size start : Nat} {q : Query} {f : FromClause} (hq : q.WellFormed)
    (hends : q.EndsInTables) (hf : q.fromClause = some f) (h : Reads q.writtenBody ws rest)
    (hat : atJoin rest = true) : query size start ws = behindTables size start q f rest := by
  have hnone : ∀ k : Keyword, clauseWritten k Expression.written none = 1 := fun _ => rfl
  rw [Query.writtenBody, hends.whereClause, hends.groupBy, hends.having, hends.orderBy,
    hends.options, hf] at h
  simp only [hnone, mul_one] at h
  obtain ⟨ws₄, h, hfrom⟩ := reads_mul.mp h
  obtain ⟨ws₃, hhead, hinto⟩ := reads_mul.mp h
  have hrank₄ : 1 < (frontToken ws₄).clauseRank := by
    rw [OpensWith.mul opensWith_token hfrom]
    decide
  have hrank₃ : 0 < (frontToken ws₃).clauseRank := le_clauseRank_of_reads_clause hinto hrank₄
  have htables := fromClause_append (hq.fromClause f hf) hfrom hat
  rw [query_of_head hq hhead hrank₃, bind_of_clean (intoClause_eq hinto hrank₄), behindTables]
  simp only [bind, andThen, htables, trailing]

/-! ## The two spellings -/

/-- Joins are read alike from words that open the same join. -/
theorem joins_congr {ws' : List Placed} (hat : atJoin ws = true) (hat' : atJoin ws' = true)
    (h : join ws = join ws') : joins ws = joins ws' := by
  rw [joins, dif_pos hat, joins, dif_pos hat', h]

/-- **Behind `INNER` the keyword `JOIN` opens the join it opens alone.** -/
theorem join_inner {i j : Placed} {ps : List Placed} (hi : i.token = .keyword .INNER)
    (hj : j.token = .keyword .JOIN) : join (i :: j :: ps) = join (j :: ps) := by
  have hbare : joinKind (j :: ps) = ⟨.inner, [], j :: ps⟩ := by
    simp [joinKind, frontToken, hj, JoinKind.ofToken?, done]
  have hfull : joinKind (i :: j :: ps) = ⟨.inner, [], j :: ps⟩ :=
    joinKind_of_ofToken? hi rfl
  rw [join, bind_of_clean hbare, bind_of_clean hfull]

/-- The statements that begin with a query up to its tables are the same for either spelling of the
inner join behind them. -/
theorem statements_inner {size : Nat} {q : Query} (hq : q.WellFormed) (hends : q.EndsInTables)
    {us : List Placed} (hus : us ∈ q.written) {i j : Placed} {ps : List Placed}
    (hi : i.token = .keyword .INNER) (hj : j.token = .keyword .JOIN)
    (hps : frontToken ps ≠ .symbol .lparen) :
    statements size (us ++ i :: j :: ps) = statements size (us ++ j :: ps) := by
  obtain ⟨f, hf⟩ := Option.ne_none_iff_exists'.mp hends.fromClause
  obtain ⟨_, ⟨p, hp, rfl⟩, body, hbody, rfl⟩ := Language.mem_mul.mp hus
  have hbare : atJoin (j :: ps) = true := atJoin_cons (hj ▸ rfl) hps
  have hfull : atJoin (i :: j :: ps) = true := atJoin_cons (hi ▸ rfl) (by simp [frontToken, hj])
  have hread : query size p.index (body ++ i :: j :: ps) =
      query size p.index (body ++ j :: ps) := by
    rw [query_eq_behindTables hq hends hf ⟨body, hbody, rfl⟩ hfull,
      query_eq_behindTables hq hends hf ⟨body, hbody, rfl⟩ hbare]
    simp only [behindTables, bind, andThen, joins_congr hfull hbare (join_inner hi hj)]
  rw [List.append_assoc, List.append_assoc, List.singleton_append, List.singleton_append,
    statements, if_pos hp, statements, if_pos hp, hread]

/-! ## One word apart -/

/-- **One more word moves up the words behind it.** -/
theorem visible_insertAt {w : Word} (hw : w.isComment = false) (us vs : List Word) :
    (Placed.visible (us ++ [w] ++ vs)).map (Relabelling.insertAt us.length).placed =
      Placed.visible us ++ ⟨us.length + 1, w⟩ ::
        (Placed.visible vs).map (Relabelling.shift (us.length + 2)).placed := by
  let insert := Relabelling.insertAt us.length
  have hfront : (Placed.visible us).map insert.placed = Placed.visible us := by
    refine (List.map_congr_left fun p hp => ?_).trans (List.map_id _)
    have hindex : insert.index p.index = p.index := if_pos (index_lt_of_mem_visible hp)
    exact congrArg (Placed.mk · p.word) hindex
  have hself : insert.index us.length = us.length + 1 := if_neg (Nat.lt_irrefl _)
  have hbehind : insert.placed ∘ (Relabelling.shift (us.length + 1)).placed =
      (Relabelling.shift (us.length + 2)).placed := by
    funext p
    have hindex : insert.index (p.index + (us.length + 1)) = p.index + (us.length + 2) :=
      if_neg (by omega)
    exact congrArg (Placed.mk · p.word) hindex
  rw [visible_around hw, List.map_append, List.map_cons, List.map_map, hfront, hbehind]
  exact congrArg (fun i => Placed.visible us ++ Placed.mk i w :: _) hself

end Grammar

namespace Session

/-- **`JOIN` alone is `INNER JOIN`**, behind the tables of a query and in front of anything but an
opening parenthesis: the two spellings have the same queries, in which every index behind `INNER` is
moved up by one, and the same faults. -/
theorem statements_bareJoin {q : Query} (hq : q.WellFormed) (hends : q.EndsInTables)
    {front rest : List Word} (hfront : Placed.visible front ∈ q.written) {inner join : Word}
    (hinner : inner.token = .keyword .INNER) (hjoin : join.token = .keyword .JOIN)
    (hrest : frontToken (Placed.visible rest) ≠ .symbol .lparen) :
    let insert := Relabelling.insertAt front.length
    let bare := (ofWords (front ++ [join] ++ rest)).statements
    let full := (ofWords (front ++ [inner, join] ++ rest)).statements
    full.1 = bare.1.map insert.query ∧ full.2.faults = bare.2.faults := by
  intro insert bare full
  have hcomment : inner.isComment = false ∧ join.isComment = false := by
    simp [Word.isComment, hinner, hjoin]
  have hwords : Placed.visible (front ++ [inner, join] ++ rest) = Placed.visible front ++
      ⟨front.length, inner⟩ :: ⟨front.length + 1, join⟩ ::
        (Placed.visible rest).map (Relabelling.shift (front.length + 2)).placed := by
    rw [List.append_cons front inner [join], visible_around hcomment.2,
      visible_concat hcomment.1, List.length_append, List.append_assoc]
    rfl
  have hsize : insert.index (front ++ [join] ++ rest).length =
      (front ++ [inner, join] ++ rest).length := by
    have hindex : ¬ (front ++ [join] ++ rest).length < front.length := by simp
    rw [show insert.index _ = _ from if_neg hindex]
    simp only [List.length_append, List.length_cons, List.length_nil]
    omega
  have hnext : frontToken ((Placed.visible rest).map (Relabelling.shift (front.length + 2)).placed)
      ≠ .symbol .lparen := by
    cases hvisible : Placed.visible rest with
    | nil => simp [frontToken]
    | cons p ps => rwa [hvisible] at hrest
  obtain ⟨hvalue, hfaults⟩ := Grammar.statements_relabel insert (front ++ [join] ++ rest).length
    (Placed.visible (front ++ [join] ++ rest))
  rw [Grammar.visible_insertAt hcomment.2, hsize,
    ← Grammar.statements_inner hq hends hfront (i := ⟨front.length, inner⟩)
      (j := ⟨front.length + 1, join⟩) hinner hjoin hnext,
    ← hwords] at hvalue hfaults
  rw [show insert.fault = id from Relabelling.fault_of_index _, List.map_id] at hfaults
  exact ⟨hvalue, hfaults⟩

/-- Behind a join whose condition calls the function `LEFT`, with a comment in front of `INNER`, and
in front of a table without a condition. -/
theorem statements_bareJoin_behind_condition :
    let word (t : Token) (literal : String) : Word := ⟨t, literal, {}⟩
    let call : List Word :=
      [word (.keyword .LEFT) "left", word (.symbol .lparen) "(", word .ident "b",
        word (.symbol .rparen) ")"]
    let front : List Word :=
      [word (.keyword .SELECT) "select", word .ident "a", word (.keyword .FROM) "from",
        word .ident "t", word (.keyword .LEFT) "left", word (.keyword .JOIN) "join",
        word .ident "u", word (.keyword .ON) "on"] ++ call ++ [word .comment "--"]
    let rest : List Word := [word .ident "v", word (.keyword .WHERE) "where", word .ident "c"]
    let condition : List Placed := (call.zipIdx 8).map fun p => ⟨p.2, p.1⟩
    let inner := word (.keyword .INNER) "inner"
    let join := word (.keyword .JOIN) "join"
    let q : Query :=
      { quantifier := none
        top := none
        columns := [⟨[⟨1, word .ident "a"⟩]⟩]
        into := none
        fromClause := some ⟨⟨.named ⟨["t"]⟩, false, none, none⟩,
          [⟨.left, ⟨.named ⟨["u"]⟩, false, none, none⟩, some ⟨condition⟩⟩]⟩
        whereClause := none
        groupBy := none
        having := none
        orderBy := none
        options := none
        range := {} }
    let bare := (ofWords (front ++ [join] ++ rest)).statements
    let full := (ofWords (front ++ [inner, join] ++ rest)).statements
    q.WellFormed ∧ q.EndsInTables ∧ Placed.visible front ∈ q.written ∧
      frontToken (Placed.visible rest) ≠ .symbol .lparen ∧
      full.1 = bare.1.map (Relabelling.insertAt front.length).query ∧
      full.2.faults = bare.2.faults := by
  intro word call front rest condition inner join q bare full
  have hq : q.WellFormed := by decide +kernel
  have hends : q.EndsInTables := by decide +kernel
  have hfront : Placed.visible front ∈ q.written := by
    rw [← reads_nil_iff]
    simp [q, front, call, condition, word, Placed.visible, Word.isComment, Query.written,
      Query.writtenBody, clauseWritten, separated, FromClause.written, Table.written,
      TableSource.written, QualifiedName.written, Join.written, Join.opening, JoinKind.written,
      JoinKind.keywords, Placed.token]
  have hrest : frontToken (Placed.visible rest) ≠ .symbol .lparen := by decide +kernel
  exact ⟨hq, hends, hfront, hrest, statements_bareJoin hq hends hfront rfl rfl hrest⟩

/-- **In front of a derived table `JOIN` alone opens no join**: `INNER JOIN` makes one query of the
words, and `JOIN` alone two. -/
theorem not_bareJoin_derived :
    let word (t : Token) (literal : String) : Word := ⟨t, literal, {}⟩
    let front : List Word :=
      [word (.keyword .SELECT) "SELECT", word .ident "a", word (.keyword .FROM) "FROM",
        word .ident "t"]
    let rest : List Word :=
      [word (.symbol .lparen) "(", word (.keyword .SELECT) "SELECT", word .ident "b",
        word (.keyword .FROM) "FROM", word .ident "u", word (.symbol .rparen) ")", word .ident "s",
        word (.keyword .ON) "ON", word .ident "a", word (.symbol .eq) "=", word .ident "b"]
    let inner := word (.keyword .INNER) "INNER"
    let join := word (.keyword .JOIN) "JOIN"
    let q : Query :=
      { quantifier := none
        top := none
        columns := [⟨[⟨1, word .ident "a"⟩]⟩]
        into := none
        fromClause := some ⟨⟨.named ⟨["t"]⟩, false, none, none⟩, []⟩
        whereClause := none
        groupBy := none
        having := none
        orderBy := none
        options := none
        range := {} }
    let bare := (ofWords (front ++ [join] ++ rest)).statements
    let full := (ofWords (front ++ [inner, join] ++ rest)).statements
    q.WellFormed ∧ q.EndsInTables ∧ Placed.visible front ∈ q.written ∧
      full.1.length = 1 ∧ full.1.map (fun q => q.fromClause.map (·.joins.length)) = [some 1] ∧
      bare.1.length = 2 ∧ bare.1.map (fun q => q.fromClause.map (·.joins.length)) = [some 0, some 0]
      := by
  intro word front rest inner join q bare full
  have hfront : Placed.visible front ∈ q.written := by
    rw [← reads_nil_iff]
    simp [q, front, word, Placed.visible, Word.isComment, Query.written, Query.writtenBody,
      clauseWritten, separated, FromClause.written, Table.written, TableSource.written,
      QualifiedName.written, Placed.token]
  refine ⟨by decide +kernel, by decide +kernel, hfront, ?_⟩
  decide +kernel

end Session

end SqlScript
