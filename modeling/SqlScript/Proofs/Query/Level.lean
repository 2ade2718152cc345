import SqlScript.Proofs.Query.Clean
import SqlScript.Query.Statements

/-!
# Query/Level — a query closes the parentheses it opens, or reads to the end of the statement

Parentheses are counted from the last end of a statement, and one that closes none is not counted
(`openParens`).  Words are **level** if as many are open behind them as in front, however many that
is.  Runs and groups count the parentheses they open and go on until these are closed or the
statement is at its end; all else that a parser takes is no parenthesis.  So what a query reads is
level, unless reading stopped at an end (`levels_query`), and that holds with faults as without.
-/

namespace SqlScript

/-! ## Open parentheses -/

/-- How many parentheses are open behind a token; at the end of a statement none are. -/
def Token.depthBehind (t : Token) (depth : Nat) : Nat :=
  if t.endsStatement then 0 else depthAfter depth t

/-- How many parentheses are open behind some tokens, with `depth` open in front of them. -/
def openParens (depth : Nat) (ts : List Token) : Nat := ts.foldl (fun d t => t.depthBehind d) depth

@[simp] theorem openParens_nil (depth : Nat) : openParens depth [] = depth := rfl

@[simp] theorem openParens_cons (depth : Nat) (t : Token) (ts : List Token) :
    openParens depth (t :: ts) = openParens (t.depthBehind depth) ts := rfl

@[simp] theorem openParens_append (depth : Nat) (ts us : List Token) :
    openParens depth (ts ++ us) = openParens (openParens depth ts) us := List.foldl_append

theorem Token.depthBehind_of_not_ends {t : Token} (h : t.endsStatement = false) (depth : Nat) :
    t.depthBehind depth = depthAfter depth t := by
  simp [depthBehind, h]

theorem Token.depthBehind_of_ends {t : Token} (h : t.endsStatement = true) (depth : Nat) :
    t.depthBehind depth = 0 := by
  simp [depthBehind, h]

/-- Behind the end of a statement it is all one how many parentheses were open. -/
theorem Token.depthBehind_congr {t : Token} {depth depth' : Nat}
    (h : depth = depth' ∨ t.endsStatement = true) : t.depthBehind depth = t.depthBehind depth' := by
  rcases h with rfl | hends
  · rfl
  · rw [depthBehind_of_ends hends, depthBehind_of_ends hends]

/-- A token counts alike with more parentheses open, unless it closes one of them. -/
theorem depthAfter_add {depth : Nat} {t : Token} (h : t = .symbol .rparen → 0 < depth)
    (base : Nat) : depthAfter (base + depth) t = base + depthAfter depth t := by
  unfold depthAfter
  split
  · rfl
  · exact Nat.add_sub_assoc (h rfl) base
  · rfl

/-! ## Level words -/

/-- Words behind which as many parentheses are open as in front of them. -/
def Level (ws : List Placed) : Prop := ∀ depth, openParens depth (ws.map Placed.token) = depth

theorem level_nil : Level [] := fun _ => rfl

theorem Level.append {us vs : List Placed} (hu : Level us) (hv : Level vs) : Level (us ++ vs) := by
  intro depth
  rw [List.map_append, openParens_append, hu, hv]

/-- A word that neither is a parenthesis nor ends a statement is level. -/
theorem level_singleton {p : Placed} {t : Token} (hp : p.token = t)
    (ht : ∀ depth, t.depthBehind depth = depth) : Level [p] := by
  subst hp
  exact ht

/-- Level words do not begin with the end of a statement, which forgets what is open. -/
theorem Level.endsStatement_eq {p : Placed} {ps : List Placed} (h : Level (p :: ps)) :
    p.token.endsStatement = false := by
  rw [Bool.eq_false_iff]
  intro hends
  have hzero := h 0
  have hone := h 1
  rw [List.map_cons, openParens_cons, Token.depthBehind_of_ends hends] at hzero hone
  exact Nat.zero_ne_one (hzero.symm.trans hone)

/-- Reading from some words to others took level words, or stopped at the end of the statement. -/
def LevelTo (ws rest : List Placed) : Prop :=
  ∃ front, front ++ rest = ws ∧ (Level front ∨ (frontToken rest).endsStatement = true)

namespace LevelTo

variable {ws mid rest : List Placed}

theorem refl (ws : List Placed) : LevelTo ws ws := ⟨[], rfl, .inl level_nil⟩

/-- **Level readings compose**: behind the end of a statement no level word is read. -/
theorem trans (h : LevelTo ws mid) (h' : LevelTo mid rest) : LevelTo ws rest := by
  obtain ⟨us, rfl, hus⟩ := h
  obtain ⟨vs, rfl, hvs⟩ := h'
  refine ⟨us ++ vs, List.append_assoc us vs rest, ?_⟩
  rcases hvs with hlevel | hends
  · rcases hus with hfirst | hends
    · exact .inl (hfirst.append hlevel)
    · cases vs with
      | nil => exact .inr hends
      | cons p ps => exact absurd (hlevel.endsStatement_eq.symm.trans hends) Bool.false_ne_true
  · exact .inr hends

/-- One more word in front that is neither a parenthesis nor an end. -/
theorem cons {p : Placed} {t : Token} (hp : p.token = t) (ht : ∀ depth, t.depthBehind depth = depth)
    (h : LevelTo ws rest) : LevelTo (p :: ws) rest :=
  trans ⟨[p], rfl, .inl (level_singleton hp ht)⟩ h

end LevelTo

/-! ## Runs and groups -/

/-- **A group takes words until the parentheses open are closed**, or to the end of the
statement. -/
theorem takeGroup_levels {depth : Nat} (hdepth : 0 < depth) (ws : List Placed) :
    (∀ base, openParens (base + depth) ((takeGroup depth ws).items.map Placed.token) = base) ∨
      (frontToken (takeGroup depth ws).rest).endsStatement = true := by
  induction ws generalizing depth with
  | nil => exact .inr rfl
  | cons p ps ih =>
    by_cases hends : p.token.endsStatement = true
    · rw [takeGroup, if_pos hends]
      exact .inr hends
    · have hbehind := Token.depthBehind_of_not_ends (Bool.eq_false_iff.mpr hends)
      have hadd := depthAfter_add (t := p.token) fun _ => hdepth
      rw [takeGroup, if_neg hends]
      split
      · next hclosed =>
        refine .inl fun base => ?_
        simp [hbehind, hadd, hclosed]
      · next hopen =>
        rcases ih (Nat.pos_of_ne_zero hopen) with hmore | hstop
        · refine .inl fun base => ?_
          simp [hbehind, hadd, hmore]
        · exact .inr hstop

/-- **A run takes words until a boundary outside parentheses**, or to the end of the statement, if a
closing parenthesis is a boundary. -/
theorem takeRun_levels {stops : Token → Token → Bool}
    (hstops : ∀ next, stops (.symbol .rparen) next = true) (depth : Nat) (ws : List Placed) :
    (∀ base, openParens (base + depth) ((takeRun stops depth ws).1.map Placed.token) = base) ∨
      (frontToken (takeRun stops depth ws).2).endsStatement = true := by
  induction ws generalizing depth with
  | nil => exact .inr rfl
  | cons p ps ih =>
    by_cases hends : p.token.endsStatement = true
    · rw [takeRun, if_pos (by simp [hends])]
      exact .inr hends
    · by_cases hstop : (depth == 0 && stops p.token (frontToken ps)) = true
      · obtain ⟨hzero, -⟩ := Bool.and_eq_true_iff.mp hstop
        rw [takeRun, if_pos (by simp [hstop])]
        refine .inl fun base => ?_
        simp [beq_iff_eq.mp hzero]
      · have hbehind := Token.depthBehind_of_not_ends (Bool.eq_false_iff.mpr hends)
        -- A parenthesis that closes none of the run's own would have stopped it.
        have hopen : p.token = .symbol .rparen → 0 < depth := by
          intro hp
          refine Nat.pos_of_ne_zero fun hzero => hstop ?_
          simp [hzero, hp, hstops]
        have hadd := depthAfter_add hopen
        rw [takeRun, if_neg (by simp [hends, hstop])]
        rcases ih (depthAfter depth p.token) with hmore | hstop
        · refine .inl fun base => ?_
          simp [hbehind, hadd, hmore]
        · exact .inr hstop

/-! ## Level parsers -/

namespace Parse

variable {α β : Type}

/-- **Whatever a parser reads is level, or it stops at the end of the statement.** -/
def Levels (p : Parse α) : Prop := ∀ ws, LevelTo ws (p ws).rest

theorem levels_done (a : α) : (done a).Levels := fun ws => .refl ws

theorem Levels.bind {p : Parse α} {f : α → Parse β} (hp : p.Levels) (hf : ∀ a, (f a).Levels) :
    (p >>= f).Levels := fun ws => (hp ws).trans (hf (p ws).value (p ws).rest)

theorem levels_token_bind {f : Token → Parse α}
    (h : ∀ t ws, frontToken ws = t → LevelTo ws (f t ws).rest) : (token >>= f).Levels :=
  fun ws => h (frontToken ws) ws rfl

theorem levels_refuse (e : Expectation) : (refuse e : Parse (Option α)).Levels :=
  fun ws => .refl ws

theorem levels_accept {k : Keyword} (hk : (Token.keyword k).endsStatement = false) :
    (accept k).Levels := by
  intro ws
  unfold accept
  split
  · next h =>
    obtain ⟨p, ps, rfl, hp⟩ := exists_cons_of_frontToken h (by simp)
    exact .cons hp (Token.depthBehind_of_not_ends hk) (.refl ps)
  · exact .refl ws

theorem levels_acceptPair {k l : Keyword} (hk : (Token.keyword k).endsStatement = false)
    (hl : (Token.keyword l).endsStatement = false) : (acceptPair k l).Levels := by
  intro ws
  unfold acceptPair
  split
  · next h =>
    obtain ⟨p, ps, rfl, hp⟩ := exists_cons_of_frontToken h.1 (by simp)
    obtain ⟨q, qs, hqs, hq⟩ := exists_cons_of_frontToken h.2 (by simp)
    obtain rfl : ps = q :: qs := hqs
    exact .cons hp (Token.depthBehind_of_not_ends hk)
      (.cons hq (Token.depthBehind_of_not_ends hl) (.refl qs))
  · exact .refl ws

theorem Levels.clause {k : Keyword} {body : Parse (Option α)}
    (hk : (Token.keyword k).endsStatement = false) (h : body.Levels) : (clause k body).Levels :=
  (levels_accept hk).bind fun present => by
    cases present
    · exact levels_done none
    · exact h

theorem Levels.andThenSome {p : Parse (Option α)} {f : α → Parse (Option β)} (hp : p.Levels)
    (hf : ∀ a, (f a).Levels) : (andThenSome p f).Levels :=
  hp.bind fun found => by
    cases found
    · exact levels_done none
    · exact hf _

/-- A group that begins with a parenthesis is level. -/
theorem group_levelTo {ws : List Placed} (h : frontToken ws = .symbol .lparen) :
    LevelTo ws (group ws).rest := by
  obtain ⟨p, ps, rfl, hp⟩ := exists_cons_of_frontToken h (by simp)
  have hopen : takeGroup 0 (p :: ps) =
      ⟨p :: (takeGroup 1 ps).items, (takeGroup 1 ps).rest, (takeGroup 1 ps).closed⟩ := by
    simp [takeGroup, hp, Token.endsStatement, depthAfter]
  have hrest : (group (p :: ps)).rest = (takeGroup 1 ps).rest := by
    unfold group
    simp only [hopen]
    split <;> rfl
  refine ⟨p :: (takeGroup 1 ps).items, ?_, ?_⟩
  · rw [hrest, List.cons_append, takeGroup_append]
  · rw [hrest]
    refine (takeGroup_levels Nat.one_pos ps).imp_left fun hlevel depth => ?_
    rw [List.map_cons, openParens_cons, hp]
    exact hlevel depth

theorem levels_run {stops : Token → Token → Bool} (x : Expectation)
    (hstops : ∀ next, stops (.symbol .rparen) next = true) : (run stops x).Levels := by
  intro ws
  have hrest : (run stops x ws).rest = (takeRun stops 0 ws).2 := by
    unfold run
    simp only
    split <;> rfl
  exact ⟨(takeRun stops 0 ws).1, hrest ▸ takeRun_append stops 0 ws,
    hrest ▸ takeRun_levels hstops 0 ws⟩

end Parse

namespace Grammar

open Parse

/-! ## The clauses of a query -/

theorem levels_quantifier : quantifier.Levels :=
  (levels_accept rfl).bind fun present => by
    cases present
    · exact (levels_accept rfl).bind fun present => by
        cases present <;> exact levels_done _
    · exact levels_done _

theorem levels_topCount : topCount.Levels :=
  levels_token_bind fun t ws ht => by
    have hsingle : t ≠ .eof → (∀ depth, t.depthBehind depth = depth) →
        LevelTo ws (single ws).rest := by
      intro hne hneutral
      obtain ⟨p, ps, rfl, hp⟩ := exists_cons_of_frontToken ht hne
      exact .cons hp hneutral (.refl ps)
    split
    · exact group_levelTo ht
    · exact hsingle (by simp) fun _ => rfl
    · exact hsingle (by simp) fun _ => rfl
    · exact .refl ws

theorem levels_top : top.Levels :=
  Levels.clause rfl <| levels_topCount.andThenSome fun _ =>
    (levels_accept rfl).bind fun _ => (levels_acceptPair rfl rfl).bind fun _ => levels_done _

/-- **Columns are level**, by induction along them. -/
theorem levels_columns : Levels columns := by
  intro ws
  fun_induction columns ws with
  | case1 ws column hrest =>
    have hcolumn : LevelTo ws column.rest := levels_run .column (fun _ => rfl) ws
    rwa [hrest] at hcolumn
  | case2 ws column p ps hrest hcomma more ih =>
    have hcolumn : LevelTo ws column.rest := levels_run .column (fun _ => rfl) ws
    rw [hrest] at hcolumn
    exact hcolumn.trans (.cons hcomma (fun _ => rfl) ih)
  | case3 ws column p ps hrest hcomma =>
    have hcolumn : LevelTo ws column.rest := levels_run .column (fun _ => rfl) ws
    rwa [hrest] at hcolumn

theorem takeDotted_levelTo (ws : List Placed) : LevelTo ws (takeDotted ws).2 := by
  fun_induction takeDotted ws with
  | case1 d p ps h more ih => exact .cons h.1 (fun _ => rfl) (.cons h.2 (fun _ => rfl) ih)
  | case2 d p ps h => exact .refl _
  | case3 ws h => exact .refl _

/-- A name is level where an identifier is at the front. -/
theorem qualifiedName_levelTo {ws : List Placed} (h : frontToken ws = .ident) :
    LevelTo ws (qualifiedName ws).rest := by
  obtain ⟨p, ps, rfl, hp⟩ := exists_cons_of_frontToken h (by simp)
  exact .cons hp (fun _ => rfl) (takeDotted_levelTo ps)

theorem levels_intoClause : intoClause.Levels :=
  Levels.clause rfl <| levels_token_bind fun t ws ht => by
    split
    · exact qualifiedName_levelTo ht
    · exact .refl ws

theorem levels_tableSource (e : Expectation) : (tableSource e).Levels :=
  levels_token_bind fun t ws ht => by
    split
    · exact qualifiedName_levelTo ht
    · exact group_levelTo ht
    · exact .refl ws

theorem levels_aliasName (asKeyword : Bool) : (aliasName asKeyword).Levels := by
  intro ws
  unfold aliasName
  split
  · split <;> exact .refl _
  · next p ps =>
    split
    · next hp => exact .cons hp (fun _ => rfl) (.refl ps)
    · split <;> exact .refl _

theorem levels_hints : hints.Levels := by
  intro ws
  unfold hints
  split
  · exact .refl _
  · next p ps =>
    split
    · next h => exact .cons h.1 (fun _ => rfl) (group_levelTo h.2)
    · exact .refl _

theorem levels_table (e : Expectation) : (table e).Levels :=
  (levels_tableSource e).andThenSome fun _ => (levels_accept rfl).bind fun asKeyword =>
    (levels_aliasName asKeyword).bind fun _ => levels_hints.bind fun _ => levels_done _

theorem levels_outerKind (kind : JoinKind) : (outerKind kind).Levels := by
  unfold outerKind
  split
  · exact levels_done _
  · exact (levels_accept rfl).bind fun present => by
      cases present <;> exact levels_done _

/-- A keyword that names a kind of join is level. -/
theorem depthBehind_of_ofToken? {t : Token} {kind : JoinKind}
    (h : JoinKind.ofToken? t = some kind) (depth : Nat) : t.depthBehind depth = depth := by
  unfold JoinKind.ofToken? at h
  split at h
  case h_6 => cases h
  all_goals rfl

theorem levels_joinKind : joinKind.Levels := by
  intro ws
  unfold joinKind
  split
  · exact .refl ws
  · next kind hkind =>
    cases ws with
    | nil => cases hkind
    | cons p ps => exact .cons rfl (depthBehind_of_ofToken? hkind) (levels_outerKind kind ps)

theorem levels_joinCondition (kind : JoinKind) : (joinCondition kind).Levels := by
  unfold joinCondition
  split
  · exact levels_done none
  · exact (levels_accept rfl).bind fun present => by
      cases present
      · exact levels_refuse _
      · exact levels_run _ fun _ => rfl

theorem levels_join : join.Levels :=
  levels_joinKind.bind fun kind => (levels_accept rfl).bind fun present => by
    cases present
    · exact levels_refuse _
    · exact (levels_table _).andThenSome fun _ =>
        (levels_joinCondition kind).bind fun _ => levels_done _

/-- **Joins are level**, by induction along them. -/
theorem levels_joins : Levels joins := by
  intro ws
  fun_induction joins ws with
  | case1 ws _ first _ => exact levels_join ws
  | case2 ws _ first found _ more ih => exact (levels_join ws).trans ih
  | case3 ws _ => exact .refl ws

theorem levels_fromClause : fromClause.Levels :=
  Levels.clause rfl <| (levels_table _).andThenSome fun _ =>
    Levels.bind levels_joins fun _ => levels_done _

theorem levels_bodyOf {k : Keyword} (hk : (Token.keyword k).endsStatement = false) :
    (bodyOf k).Levels := Levels.clause hk (levels_run _ fun _ => rfl)

/-- **A query closes the parentheses it opens**, or it reads to the end of the statement. -/
theorem levels_query (size start : Nat) : (query size start).Levels :=
  levels_quantifier.bind fun _ => levels_top.bind fun _ => Levels.bind levels_columns fun _ =>
    levels_intoClause.bind fun _ => levels_fromClause.bind fun _ =>
      (levels_bodyOf rfl).bind fun _ => (levels_bodyOf rfl).bind fun _ =>
        (levels_bodyOf rfl).bind fun _ => (levels_bodyOf rfl).bind fun _ =>
          (levels_bodyOf rfl).bind fun _ ws => .refl ws

end Grammar

end SqlScript
