import SqlScript.Proofs.Query.Carried
import SqlScript.Proofs.Query.Visible

/-!
# Query/Isolation — a terminator keeps the statements on its two sides apart

A semicolon or `GO` ends a statement as the end of the script does, whatever is open in front of it,
and no parser looks past it.  So the statements of a script with a terminator in it are those of the
words in front of it and those of the words behind it, the latter with their indices moved up
(`Session.statements_terminated`); a fault at the end of the words in front now names the
terminator.
-/

namespace SqlScript

namespace Grammar

/-- **The statements around a terminator**: those in front of it, whose faults at the end now name
it, and those behind it, moved up. -/
theorem statements_around {t : Word} (hends : t.token.endsStatement = true)
    (hcomment : t.isComment = false) (us vs : List Word) :
    let first := statements us.length (Placed.visible us)
    let second := statements vs.length (Placed.visible vs)
    let whole := statements (us ++ [t] ++ vs).length (Placed.visible (us ++ [t] ++ vs))
    whole.value =
        first.value ++ second.value.map (Relabelling.shift (us.length + 1)).query ∧
      whole.faults = first.faults.map (fun f => { f with found := f.found.or (some t) }) ++
        second.faults := by
  intro first second whole
  let shift := Relabelling.shift (us.length + 1)
  let s : Setting :=
    { tail := ⟨us.length, t⟩ :: (Placed.visible vs).map shift.placed, ends := hends }
  have hsize : (us ++ [t] ++ vs).length = shift.index vs.length := by
    simp [shift, Relabelling.shift, Nat.add_left_comm]
  have hwords : Placed.visible (us ++ [t] ++ vs) = s.place (Placed.visible us) := by
    rw [visible_around hcomment, s.place_of_id rfl]
  -- The search passes the terminator.
  have hpass : statements (shift.index vs.length) s.tail =
      statements (shift.index vs.length) ((Placed.visible vs).map shift.placed) := by
    rw [statements, if_neg]
    intro hselect
    rw [show t.token = .keyword .SELECT from hselect] at hends
    cases hends
  have hfault : s.faultPlaced = fun f => { f with found := f.found.or (some t) } := by
    funext f
    obtain ⟨expected, found⟩ := f
    cases found <;> rfl
  have hquery : s.query = id := Relabelling.query_id
  have hshift : shift.fault = id := Relabelling.fault_of_index _
  obtain ⟨hvalue, hfaults⟩ := statements_relabel shift vs.length (Placed.visible vs)
  have htail : offset (shift.index vs.length) s.tail = s.index us.length := rfl
  have hplace := statements_place htail (Placed.visible us)
  simp only [hpass, hvalue, hfaults, hfault, hquery, hshift, List.map_id] at hplace
  have hwhole : whole = statements (shift.index vs.length) (s.place (Placed.visible us)) := by
    rw [← hwords, ← hsize]
  rw [hwhole, hplace]
  exact ⟨rfl, rfl⟩

end Grammar

namespace Session

/-- **A terminator isolates statements.**  With a semicolon or `GO` between two lists of words, the
queries are those of the first list and those of the second with every range moved up, and there are
as many faults as in both. -/
theorem statements_terminated {t : Word}
    (ht : t.token = .symbol .semicolon ∨ t.token = .keyword .GO) (first second : List Word) :
    let shift := Relabelling.shift (first.length + 1)
    let before := (ofWords first).statements
    let behind := (ofWords second).statements
    let whole := (ofWords (first ++ [t] ++ second)).statements
    whole.1 = before.1 ++ behind.1.map shift.query ∧
      (∀ q ∈ behind.1, (shift.query q).expressions.map Expression.range =
        q.expressions.map fun e => shift.range e.range) ∧
      whole.2.faults.length = before.2.faults.length + behind.2.faults.length := by
  intro shift before behind whole
  have hends : t.token.endsStatement = true := by rcases ht with h | h <;> rw [h] <;> rfl
  have hcomment : t.isComment = false := by rcases ht with h | h <;> simp [Word.isComment, h]
  obtain ⟨hqueries, hfaults⟩ := Grammar.statements_around hends hcomment first second
  refine ⟨hqueries, fun q hq => shift.ranges_query fun e he => ?_, ?_⟩
  · exact ⟨(Grammar.isInfix_of_mem_statements hq he).1, fun p _ => Nat.add_right_comm _ _ _⟩
  · rw [show whole.2.faults = _ from hfaults, List.length_append, List.length_map]
    rfl

/-- A terminator inside an open parenthesis, and a fault on each side of it. -/
theorem statements_terminated_in_parenthesis :
    let word (t : Token) : Word := ⟨t, "", {}⟩
    let first := [word (.keyword .SELECT), word .ident, word (.keyword .FROM), word .comment,
      word (.symbol .lparen), word .ident]
    let second := [word .comment, word (.keyword .SELECT), word (.keyword .FROM), word .ident]
    let t := word (.keyword .GO)
    (t.token = .symbol .semicolon ∨ t.token = .keyword .GO) ∧
      let shift := Relabelling.shift (first.length + 1)
      let before := (ofWords first).statements
      let behind := (ofWords second).statements
      let whole := (ofWords (first ++ [t] ++ second)).statements
      whole.1 = before.1 ++ behind.1.map shift.query ∧
        (∀ q ∈ behind.1, (shift.query q).expressions.map Expression.range =
          q.expressions.map fun e => shift.range e.range) ∧
        whole.2.faults.length = before.2.faults.length + behind.2.faults.length := by
  intro word first second t
  exact ⟨.inr rfl, statements_terminated (.inr rfl) first second⟩

end Session

end SqlScript
