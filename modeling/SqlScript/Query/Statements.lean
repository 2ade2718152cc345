import SqlScript.Query.Grammar

/-!
# Query/Statements — the SELECT statements of a script

A script is searched from its start for the keyword `SELECT`; each one found is read as a query, and
the search goes on where the query ends.  Every clause leaves a suffix of its words
(`forward_query`), so the search ends too.
-/

namespace SqlScript.Grammar

open SqlScript.Parse

/-! ## Clauses move forward -/

theorem forward_quantifier : quantifier.Forward :=
  (forward_accept .ALL).bind fun present => by
    cases present
    · exact (forward_accept .DISTINCT).bind fun present => by
        cases present <;> exact forward_done _
    · exact forward_done _

theorem forward_topCount : topCount.Forward :=
  forward_token.bind fun t => by
    split
    · exact forward_group
    · exact forward_single
    · exact forward_single
    · exact forward_refuse _

theorem forward_top : top.Forward :=
  forward_clause <| forward_andThenSome forward_topCount fun _ =>
    (forward_accept .PERCENT).bind fun _ => (forward_acceptPair .WITH .TIES).bind fun _ =>
      forward_done _

theorem forward_columns : Forward columns := fun ws => by
  fun_induction columns ws with
  | case1 ws column _ => exact List.nil_suffix
  | case2 ws column p ps hrest hcomma more ih =>
    have hcolumn : column.rest <:+ ws := forward_run endsColumn .column ws
    rw [hrest] at hcolumn
    exact (ih.trans (List.suffix_cons p ps)).trans hcolumn
  | case3 ws column p ps hrest hcomma =>
    have hcolumn : column.rest <:+ ws := forward_run endsColumn .column ws
    rw [hrest] at hcolumn
    exact hcolumn

theorem forward_intoClause : intoClause.Forward :=
  forward_clause <| forward_token.bind fun t => by
    split
    · exact forward_map _ forward_qualifiedName
    · exact forward_refuse _

theorem forward_joins : Forward joins := fun ws => by
  fun_induction joins ws with
  | case1 ws _ first _ => exact forward_join ws
  | case2 ws _ first found _ more ih => exact ih.trans (forward_join ws)
  | case3 ws _ => exact List.suffix_refl ws

theorem forward_fromClause : fromClause.Forward :=
  forward_clause <| forward_andThenSome (forward_table _) fun _ =>
    Forward.bind forward_joins fun _ => forward_done _

theorem forward_bodyOf (k : Keyword) : (bodyOf k).Forward := forward_clause (forward_run _ _)

/-- **A query leaves a suffix of its words.** -/
theorem forward_query (size start : Nat) : (query size start).Forward :=
  forward_quantifier.bind fun _ => forward_top.bind fun _ => Forward.bind forward_columns fun _ =>
    forward_intoClause.bind fun _ => forward_fromClause.bind fun _ =>
      (forward_bodyOf _).bind fun _ => (forward_bodyOf _).bind fun _ =>
        (forward_bodyOf _).bind fun _ => (forward_bodyOf _).bind fun _ =>
          (forward_bodyOf _).bind fun _ => List.suffix_refl

/-! ## The search -/

/-- The queries of a script of `size` words, from the words at hand to the end. -/
def statements (size : Nat) : List Placed → Step (List Query)
  | [] => ⟨[], [], []⟩
  | p :: ps =>
    if p.token = .keyword .SELECT then
      let found := query size p.index ps
      let more := statements size found.rest
      ⟨found.value :: more.value, found.faults ++ more.faults, more.rest⟩
    else statements size ps
termination_by ws => ws.length
decreasing_by
  · exact Nat.lt_succ_of_le ((forward_query size p.index).length_le ps)
  · exact Nat.lt_succ_self _

end SqlScript.Grammar
