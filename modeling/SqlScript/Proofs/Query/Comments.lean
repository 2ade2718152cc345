import SqlScript.Proofs.Query.Carried
import SqlScript.Proofs.Query.Visible

/-!
# Query/Comments — comments are invisible to the grammar

Leaving all comments out of a script leaves its visible words as they are, only counted anew.  So
the script has the same queries, in which every index counts the visible words in front of it, and
the same faults (`Session.statements_uncommented`), wherever the comments stood.
-/

namespace SqlScript

/-- The end of a script without its comments. -/
theorem length_uncommented (words : List Word) :
    (words.filter (!·.isComment)).length = visibleBefore words words.length := by
  rw [visibleBefore, List.take_length, List.countP_eq_length_filter]

/-- Behind the words of a run of a query no comment is skipped in counting. -/
theorem visibleBefore_succ_of_mem {words : List Word} {q : Query} {e : Expression} {p : Placed}
    (hq : q ∈ (Session.ofWords words).statements.1) (he : e ∈ q.expressions) (hp : p ∈ e.items) :
    visibleBefore words (p.index + 1) = visibleBefore words p.index + 1 :=
  visibleBefore_succ ((Grammar.isInfix_of_mem_statements hq he).2.subset hp)

/-- **Comments change nothing but indices.**  A script without its comments has the queries of the
script, with every index replaced by the number of words before it that are no comments, in the
ranges of queries and of runs alike; and the faults are the same. -/
theorem Session.statements_uncommented (words : List Word) :
    let recount := Relabelling.uncommented words
    let commented := (ofWords words).statements
    let bare := (ofWords (words.filter (!·.isComment))).statements
    bare.1 = commented.1.map recount.query ∧
      (∀ q ∈ commented.1, (recount.query q).expressions.map Expression.range =
        q.expressions.map fun e => recount.range e.range) ∧
      bare.2.faults = commented.2.faults := by
  intro recount commented bare
  have hsize : recount.index words.length = (words.filter (!·.isComment)).length :=
    (length_uncommented words).symm
  have hrecount : recount.fault = id := Relabelling.fault_of_index _
  obtain ⟨hvalue, hfaults⟩ := Grammar.statements_relabel recount words.length (Placed.visible words)
  rw [hsize, ← visible_uncommented] at hvalue hfaults
  rw [hrecount, List.map_id] at hfaults
  refine ⟨hvalue, fun q hq => recount.ranges_query fun e he => ?_, hfaults⟩
  exact ⟨(Grammar.isInfix_of_mem_statements hq he).1, fun p => visibleBefore_succ_of_mem hq he⟩

end SqlScript
