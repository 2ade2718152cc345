import SqlScript.Query.Grammar

/-!
# Query/Clean — readings that note no fault

A reading `p ws = ⟨a, [], rest⟩` is **clean**: it gives `a`, notes nothing and leaves `rest`.  A
compound parser reads cleanly exactly where its parts do, one behind the other, so a clean reading
of a statement is a chain of clean readings of its clauses.
-/

namespace SqlScript

/-! ## The word at the front -/

/-- A token other than the end of the script stands at the front only as a word. -/
theorem exists_cons_of_frontToken {t : Token} {ws : List Placed} (h : frontToken ws = t)
    (ht : t ≠ .eof) : ∃ p ps, ws = p :: ps ∧ p.token = t := by
  cases ws with
  | nil => exact absurd h.symm ht
  | cons p ps => exact ⟨p, ps, rfl, h⟩

namespace Parse

variable {α β : Type} {ws rest : List Placed} {k l : Keyword}

/-! ## Composition -/

theorem done_eq_clean_iff {a b : α} : done a ws = ⟨b, [], rest⟩ ↔ a = b ∧ ws = rest := by
  simp [done]

/-- **Two parts read cleanly together exactly where each does in turn.** -/
theorem bind_eq_clean_iff {p : Parse α} {f : α → Parse β} {b : β} :
    (p >>= f) ws = ⟨b, [], rest⟩ ↔
      ∃ a mid, p ws = ⟨a, [], mid⟩ ∧ f a mid = ⟨b, [], rest⟩ := by
  constructor
  · intro h
    obtain ⟨hvalue, hfaults, hrest⟩ := Step.mk.inj h
    obtain ⟨hfirst, hsecond⟩ := List.append_eq_nil_iff.mp hfaults
    refine ⟨(p ws).value, (p ws).rest, ?_, ?_⟩
    · rw [← hfirst]
    · rw [← hvalue, ← hsecond, ← hrest]
  · rintro ⟨a, mid, hp, hf⟩
    show andThen p f ws = _
    simp [andThen, hp, hf]

/-- Behind a part read cleanly the next one is read alone. -/
theorem bind_of_clean {p : Parse α} {f : α → Parse β} {a : α} (h : p ws = ⟨a, [], rest⟩) :
    (p >>= f) ws = f a rest := by
  show andThen p f ws = _
  simp [andThen, h]

theorem map_eq_clean_iff {p : Parse α} {f : α → β} {b : β} :
    (f <$> p) ws = ⟨b, [], rest⟩ ↔ ∃ a, p ws = ⟨a, [], rest⟩ ∧ f a = b := by
  constructor
  · intro h
    obtain ⟨a, mid, hp, hdone⟩ := bind_eq_clean_iff.mp h
    obtain ⟨rfl, rfl⟩ := done_eq_clean_iff.mp hdone
    exact ⟨a, hp, rfl⟩
  · rintro ⟨a, hp, rfl⟩
    exact bind_eq_clean_iff.mpr ⟨a, rest, hp, rfl⟩

/-- A parser that looks at the token in front goes on from the same words. -/
theorem token_bind {f : Token → Parse α} : (token >>= f) ws = f (frontToken ws) ws := rfl

/-- A refusal is a fault. -/
theorem not_clean_refuse {e : Expectation} {a : Option α} : refuse e ws ≠ ⟨a, [], rest⟩ := by
  simp [refuse]

/-- **A part goes on exactly where it is there.** -/
theorem andThenSome_eq_clean_iff {p : Parse (Option α)} {f : α → Parse (Option β)} {b : Option β} :
    andThenSome p f ws = ⟨b, [], rest⟩ ↔
      (∃ a mid, p ws = ⟨some a, [], mid⟩ ∧ f a mid = ⟨b, [], rest⟩) ∨
        (p ws = ⟨none, [], rest⟩ ∧ b = none) := by
  refine bind_eq_clean_iff.trans ⟨?_, ?_⟩
  · rintro ⟨a | a, mid, hp, hf⟩
    · obtain ⟨rfl, rfl⟩ := done_eq_clean_iff.mp hf
      exact .inr ⟨hp, rfl⟩
    · exact .inl ⟨a, mid, hp, hf⟩
  · rintro (⟨a, mid, hp, hf⟩ | ⟨hp, rfl⟩)
    · exact ⟨some a, mid, hp, hf⟩
    · exact ⟨none, rest, hp, rfl⟩

/-! ## Keywords -/

/-- **A keyword is passed exactly where it stands.** -/
theorem accept_eq_clean_iff {b : Bool} :
    accept k ws = ⟨b, [], rest⟩ ↔
      (∃ p, p.token = .keyword k ∧ ws = p :: rest ∧ b = true) ∨
        (frontToken ws ≠ .keyword k ∧ ws = rest ∧ b = false) := by
  by_cases h : frontToken ws = .keyword k
  · rw [accept, if_pos h]
    obtain ⟨p, ps, rfl, hp⟩ := exists_cons_of_frontToken h (by simp)
    constructor
    · intro hstep
      obtain ⟨rfl, -, rfl⟩ := Step.mk.inj hstep
      exact .inl ⟨p, hp, rfl, rfl⟩
    · rintro (⟨q, -, hcons, rfl⟩ | ⟨hfront, -, -⟩)
      · rw [hcons, List.tail_cons]
      · exact absurd h hfront
  · rw [accept, if_neg h]
    constructor
    · intro hstep
      obtain ⟨rfl, -, rfl⟩ := Step.mk.inj hstep
      exact .inr ⟨h, rfl, rfl⟩
    · rintro (⟨q, hq, rfl, -⟩ | ⟨-, rfl, rfl⟩)
      · exact absurd hq h
      · rfl

/-- **Two keywords are passed exactly where both stand.** -/
theorem acceptPair_eq_clean_iff {b : Bool} :
    acceptPair k l ws = ⟨b, [], rest⟩ ↔
      (∃ p q, p.token = .keyword k ∧ q.token = .keyword l ∧ ws = p :: q :: rest ∧ b = true) ∨
        (¬ (frontToken ws = .keyword k ∧ frontToken ws.tail = .keyword l) ∧ ws = rest ∧
          b = false) := by
  by_cases h : frontToken ws = .keyword k ∧ frontToken ws.tail = .keyword l
  · rw [acceptPair, if_pos h]
    obtain ⟨p, ps, rfl, hp⟩ := exists_cons_of_frontToken h.1 (by simp)
    obtain ⟨q, qs, hqs, hq⟩ := exists_cons_of_frontToken h.2 (by simp)
    obtain rfl : ps = q :: qs := hqs
    constructor
    · intro hstep
      obtain ⟨rfl, -, rfl⟩ := Step.mk.inj hstep
      exact .inl ⟨p, q, hp, hq, rfl, rfl⟩
    · rintro (⟨p', q', -, -, hcons, rfl⟩ | ⟨hfront, -, -⟩)
      · rw [hcons, List.tail_cons, List.tail_cons]
      · exact absurd h hfront
  · rw [acceptPair, if_neg h]
    constructor
    · intro hstep
      obtain ⟨rfl, -, rfl⟩ := Step.mk.inj hstep
      exact .inr ⟨h, rfl, rfl⟩
    · rintro (⟨p, q, hp, hq, rfl, -⟩ | ⟨-, rfl, rfl⟩)
      · exact absurd ⟨hp, hq⟩ h
      · rfl

/-- **A clause is read exactly where its keyword stands**, and is absent elsewhere. -/
theorem clause_eq_clean_iff {body : Parse (Option α)} {a : Option α} :
    clause k body ws = ⟨a, [], rest⟩ ↔
      (∃ p ps, p.token = .keyword k ∧ ws = p :: ps ∧ body ps = ⟨a, [], rest⟩) ∨
        (frontToken ws ≠ .keyword k ∧ ws = rest ∧ a = none) := by
  refine bind_eq_clean_iff.trans ⟨?_, ?_⟩
  · rintro ⟨present, mid, haccept, hbody⟩
    rcases accept_eq_clean_iff.mp haccept with ⟨p, hp, rfl, rfl⟩ | ⟨hfront, rfl, rfl⟩
    · exact .inl ⟨p, mid, hp, rfl, hbody⟩
    · obtain ⟨rfl, rfl⟩ := done_eq_clean_iff.mp hbody
      exact .inr ⟨hfront, rfl, rfl⟩
  · rintro (⟨p, ps, hp, rfl, hbody⟩ | ⟨hfront, rfl, rfl⟩)
    · exact ⟨true, ps, accept_eq_clean_iff.mpr (.inl ⟨p, hp, rfl, rfl⟩), hbody⟩
    · exact ⟨false, ws, accept_eq_clean_iff.mpr (.inr ⟨hfront, rfl, rfl⟩), rfl⟩

/-! ## Runs -/

/-- A group is read cleanly exactly where its parentheses close. -/
theorem group_eq_clean_iff {e : Option Expression} :
    group ws = ⟨e, [], rest⟩ ↔
      ∃ items, e = some ⟨items⟩ ∧ takeGroup 0 ws = ⟨items, rest, true⟩ := by
  unfold group
  simp only
  split
  · next hclosed =>
    constructor
    · intro h
      obtain ⟨hitems, -, hrest⟩ := Step.mk.inj h
      exact ⟨(takeGroup 0 ws).items, hitems.symm, by rw [← hrest, ← hclosed]⟩
    · rintro ⟨items, rfl, hgroup⟩
      rw [hgroup]
  · next hclosed =>
    constructor
    · exact fun h => absurd h not_clean_refuse
    · rintro ⟨items, rfl, hgroup⟩
      exact absurd (by rw [hgroup]) hclosed

/-- A run is read cleanly exactly where it has a word. -/
theorem run_eq_clean_iff {stops : Token → Token → Bool} {x : Expectation} {e : Option Expression} :
    run stops x ws = ⟨e, [], rest⟩ ↔
      ∃ items, items ≠ [] ∧ e = some ⟨items⟩ ∧ takeRun stops 0 ws = (items, rest) := by
  unfold run
  simp only
  split
  · next hempty =>
    constructor
    · exact fun h => absurd h not_clean_refuse
    · rintro ⟨items, hne, rfl, hrun⟩
      rw [hrun, List.isEmpty_iff] at hempty
      exact absurd hempty hne
  · next hempty =>
    constructor
    · intro h
      obtain ⟨hitems, -, hrest⟩ := Step.mk.inj h
      exact ⟨(takeRun stops 0 ws).1, fun hnil => hempty (List.isEmpty_iff.mpr hnil),
        hitems.symm, by rw [← hrest]⟩
    · rintro ⟨items, -, rfl, hrun⟩
      rw [hrun]

end Parse

end SqlScript
