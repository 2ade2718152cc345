import SqlScript.Proofs.Query.Clean
import SqlScript.Query.Session

/-!
# Query/Pieces — the runs of a query are cut from its words one after the other

A query keeps most of its parts as runs of words (`Query.expressions`).  Whatever the words, and
with or without faults, these runs are **pieces** of the words read: none is empty, each is a
stretch without gaps, and they follow each other in the order in which the query lists them
(`pieces_query`).  Runs are only ever added behind those already cut, so it is enough to look at one
parser at a time (`Parse.Collects`).
-/

namespace SqlScript

/-! ## The runs of a query -/

/-- The runs of a table: its query in parentheses and its hints. -/
def Table.expressions (t : Table) : List Expression := t.source.query?.toList ++ t.hints.toList

/-- The runs of a join: those of its table, and its condition. -/
def Join.expressions (j : Join) : List Expression := j.table.expressions ++ j.condition.toList

/-- The runs of the tables of a query. -/
def FromClause.expressions (f : FromClause) : List Expression :=
  f.table.expressions ++ f.joins.flatMap Join.expressions

/-- **Every run of a query**, in the order of its clauses. -/
def Query.expressions (q : Query) : List Expression :=
  (q.top.map Top.count).toList ++ q.columns ++ q.fromClause.elim [] FromClause.expressions ++
    q.whereClause.toList ++ q.groupBy.toList ++ q.having.toList ++ q.orderBy.toList ++
    q.options.toList

/-! ## Pieces -/

/-- Runs that are cut from `ws` one after the other, in front of the words `rest` that are left. -/
inductive Pieces : List Expression → (ws rest : List Placed) → Prop
  | nil {ws rest : List Placed} (h : rest <:+ ws) : Pieces [] ws rest
  | cons {gap mid rest : List Placed} {e : Expression} {es : List Expression} (he : e.items ≠ [])
      (h : Pieces es mid rest) : Pieces (e :: es) (gap ++ (e.items ++ mid)) rest

namespace Pieces

variable {es fs : List Expression} {e : Expression} {ws mid rest : List Placed}

/-- More words in front are a wider gap. -/
theorem of_suffix (h : Pieces es mid rest) (hmid : mid <:+ ws) : Pieces es ws rest := by
  cases h with
  | nil h => exact .nil (h.trans hmid)
  | cons he h =>
    obtain ⟨front, rfl⟩ := hmid
    rw [← List.append_assoc]
    exact .cons he h

theorem append (h : Pieces es ws mid) (h' : Pieces fs mid rest) : Pieces (es ++ fs) ws rest := by
  induction h with
  | nil h => exact h'.of_suffix h
  | cons he _ ih => exact .cons he (ih h')

/-- The words at the front are a piece. -/
theorem of_append {items : List Placed} (hne : items ≠ []) (h : items ++ rest = ws) :
    Pieces [⟨items⟩] ws rest := by
  have hpiece : Pieces [⟨items⟩] ([] ++ (items ++ rest)) rest :=
    .cons hne (.nil (List.suffix_refl rest))
  rwa [List.nil_append, h] at hpiece

/-- What stands behind a piece is left of the words it was cut from. -/
theorem suffix_mid (gap items mid : List Placed) : mid <:+ gap ++ (items ++ mid) :=
  (List.suffix_append _ _).trans (List.suffix_append _ _)

/-- **A piece has a word, and is a stretch of the words it was cut from.** -/
theorem isInfix_of_mem (h : Pieces es ws rest) (he : e ∈ es) :
    e.items ≠ [] ∧ e.items <:+: ws := by
  induction h with
  | nil h => exact absurd he List.not_mem_nil
  | @cons gap mid rest f es hf _ ih =>
    rcases List.mem_cons.mp he with rfl | hmem
    · exact ⟨hf, gap, mid, List.append_assoc gap _ _⟩
    · obtain ⟨hne, hinfix⟩ := ih hmem
      exact ⟨hne, hinfix.trans (suffix_mid gap f.items mid).isInfix⟩

end Pieces

/-! ## Parsers that cut pieces -/

namespace Parse

variable {α β : Type} {before : List Expression}

/-- What a parser reads off `ws` adds pieces of these words to the runs cut `before`. -/
def CollectsAt (ws : List Placed) (before : List Expression) (runs : α → List Expression)
    (p : Parse α) : Prop :=
  ∃ es, runs (p ws).value = before ++ es ∧ Pieces es ws (p ws).rest

/-- The same of any words. -/
def Collects (before : List Expression) (runs : α → List Expression) (p : Parse α) : Prop :=
  ∀ ws, CollectsAt ws before runs p

theorem collects_done {runs : α → List Expression} {a : α} (h : runs a = before) :
    Collects before runs (done a) :=
  fun ws => ⟨[], by rw [List.append_nil]; exact h, .nil (List.suffix_refl ws)⟩

/-- **Pieces of one part come before those of the next.** -/
theorem Collects.bind {runs : α → List Expression} {runs' : β → List Expression} {p : Parse α}
    {f : α → Parse β} (hp : Collects [] runs p)
    (hf : ∀ a, Collects (before ++ runs a) runs' (f a)) : Collects before runs' (p >>= f) := by
  intro ws
  obtain ⟨es, hes, hpieces⟩ := hp ws
  obtain ⟨fs, hfs, hpieces'⟩ := hf (p ws).value (p ws).rest
  refine ⟨es ++ fs, ?_, hpieces.append hpieces'⟩
  rw [hes, List.nil_append, List.append_assoc] at hfs
  exact hfs

/-- Parsers of words that no run keeps. -/
theorem Forward.collects {p : Parse α} (h : p.Forward) : Collects [] (fun _ => []) p :=
  fun ws => ⟨[], rfl, .nil (h ws)⟩

/-- A part whose runs do not count goes by. -/
theorem Collects.bind_forward {runs : β → List Expression} {p : Parse α} {f : α → Parse β}
    (hp : p.Forward) (hf : ∀ a, Collects before runs (f a)) : Collects before runs (p >>= f) :=
  Collects.bind hp.collects fun a => by
    rw [List.append_nil]
    exact hf a

theorem Collects.map {runs : α → List Expression} {runs' : β → List Expression} {p : Parse α}
    {g : α → β} (hp : Collects [] runs p) (hg : ∀ a, runs' (g a) = runs a) :
    Collects [] runs' (g <$> p) :=
  Collects.bind hp fun a => collects_done (hg a)

/-- Words are told apart by their first token. -/
theorem collects_token_bind {runs : α → List Expression} {f : Token → Parse α}
    (h : ∀ t ws, frontToken ws = t → CollectsAt ws before runs (f t)) :
    Collects before runs (token >>= f) := fun ws => h (frontToken ws) ws rfl

section Option

variable {runs : Option α → List Expression} {runs' : Option β → List Expression}

theorem collects_refuse (e : Expectation) (hnone : runs none = []) : Collects [] runs (refuse e) :=
  fun ws => ⟨[], hnone, .nil (List.suffix_refl ws)⟩

theorem Collects.clause {k : Keyword} {body : Parse (Option α)} (hnone : runs none = [])
    (h : Collects [] runs body) : Collects [] runs (clause k body) :=
  Collects.bind_forward (forward_accept k) fun present => by
    cases present
    · exact collects_done hnone
    · exact h

theorem Collects.andThenSome {p : Parse (Option α)} {f : α → Parse (Option β)}
    (hnone : runs none = []) (hnone' : runs' none = []) (hp : Collects [] runs p)
    (hf : ∀ a, Collects (runs (some a)) runs' (f a)) : Collects [] runs' (andThenSome p f) :=
  Collects.bind hp fun v => by
    cases v with
    | none => exact collects_done (hnone'.trans hnone.symm)
    | some a => exact hf a

end Option

/-- A group that closes has a word. -/
theorem items_ne_nil_of_closed {depth : Nat} {ws : List Placed}
    (h : (takeGroup depth ws).closed = true) : (takeGroup depth ws).items ≠ [] := by
  cases ws with
  | nil => cases h
  | cons p ps =>
    rw [takeGroup] at h ⊢
    split at h
    · cases h
    · next hgoesOn =>
      rw [if_neg hgoesOn]
      split <;> exact List.cons_ne_nil _ _

theorem collects_group : Collects [] Option.toList group := by
  intro ws
  unfold CollectsAt group
  simp only
  split
  · next hclosed =>
    exact ⟨_, rfl, .of_append (items_ne_nil_of_closed hclosed) (takeGroup_append 0 ws)⟩
  · exact ⟨[], rfl, .nil ⟨_, takeGroup_append 0 ws⟩⟩

theorem collects_run (stops : Token → Token → Bool) (x : Expectation) :
    Collects [] Option.toList (run stops x) := by
  intro ws
  unfold CollectsAt run
  simp only
  split
  · exact ⟨[], rfl, .nil ⟨_, takeRun_append stops 0 ws⟩⟩
  · next hempty =>
    have hne : (takeRun stops 0 ws).1 ≠ [] := fun hnil => hempty (List.isEmpty_iff.mpr hnil)
    exact ⟨_, rfl, .of_append hne (takeRun_append stops 0 ws)⟩

end Parse

namespace Grammar

open Parse

/-! ## The clauses of a query -/

theorem collects_topCount : Collects [] Option.toList topCount :=
  collects_token_bind fun t ws ht => by
    -- A number can only be at the front if there is a word.
    have hsingle : t ≠ .eof → CollectsAt ws [] Option.toList single := by
      intro hne
      obtain ⟨p, ps, rfl, -⟩ := exists_cons_of_frontToken ht hne
      exact ⟨_, rfl, .of_append (List.cons_ne_nil p []) rfl⟩
    split
    · exact collects_group ws
    · exact hsingle (by simp)
    · exact hsingle (by simp)
    · exact collects_refuse _ rfl ws

theorem collects_top : Collects [] (fun v => (v.map Top.count).toList) top :=
  Collects.clause rfl <| Collects.andThenSome rfl rfl collects_topCount fun _ =>
    Collects.bind_forward (forward_accept .PERCENT) fun _ =>
      Collects.bind_forward (forward_acceptPair .WITH .TIES) fun _ => collects_done rfl

/-- **Columns are pieces**, by induction along them. -/
theorem collects_columns : Collects [] id columns := by
  intro ws
  unfold CollectsAt
  fun_induction columns ws with
  | case1 ws column hrest =>
    obtain ⟨es, hes, hpieces⟩ := collects_run endsColumn .column ws
    exact ⟨es, hes, hrest ▸ hpieces⟩
  | case2 ws column p ps hrest hcomma more ih =>
    obtain ⟨es, hes, hpieces⟩ := collects_run endsColumn .column ws
    obtain ⟨fs, hfs, hmore⟩ := ih
    refine ⟨es ++ fs, ?_, ?_⟩
    · show column.value.toList ++ more.value = [] ++ (es ++ fs)
      rw [show column.value.toList = es from hes, show more.value = fs from hfs, List.nil_append]
    · exact hpieces.append (hrest ▸ hmore.of_suffix (List.suffix_cons p ps))
  | case3 ws column p ps hrest hcomma =>
    obtain ⟨es, hes, hpieces⟩ := collects_run endsColumn .column ws
    exact ⟨es, hes, hrest ▸ hpieces⟩

theorem collects_tableSource (e : Expectation) :
    Collects [] (fun v => v.elim [] fun s => s.query?.toList) (tableSource e) :=
  collects_token_bind fun t ws _ => by
    split
    · exact Collects.map forward_qualifiedName.collects (fun _ => rfl) ws
    · exact Collects.map collects_group (fun v => by cases v <;> rfl) ws
    · exact collects_refuse e rfl ws

theorem collects_hints : Collects [] Option.toList hints := by
  intro ws
  cases ws with
  | nil => exact ⟨[], rfl, .nil (List.suffix_refl _)⟩
  | cons p ps =>
    have happend := takeGroup_append 0 ps
    unfold CollectsAt hints group
    simp only
    split
    · split
      · refine ⟨_, rfl, .of_append (List.cons_ne_nil p _) ?_⟩
        rw [List.cons_append, happend]
      · exact ⟨[], rfl, .nil (List.IsSuffix.trans ⟨_, happend⟩ (List.suffix_cons p ps))⟩
    · exact ⟨[], rfl, .nil (List.suffix_refl _)⟩

theorem collects_table (e : Expectation) :
    Collects [] (·.elim [] Table.expressions) (table e) :=
  Collects.andThenSome rfl rfl (collects_tableSource e) fun _ =>
    Collects.bind_forward (forward_accept .AS) fun asKeyword =>
      Collects.bind_forward (forward_aliasName asKeyword) fun _ =>
        Collects.bind collects_hints fun _ => collects_done rfl

theorem collects_joinCondition (kind : JoinKind) :
    Collects [] Option.toList (joinCondition kind) := by
  unfold joinCondition
  split
  · exact collects_done rfl
  · exact Collects.bind_forward (forward_accept .ON) fun present => by
      cases present
      · exact collects_refuse _ rfl
      · exact collects_run _ _

theorem collects_join : Collects [] (·.elim [] Join.expressions) join :=
  Collects.bind_forward forward_joinKind fun kind =>
    Collects.bind_forward (forward_accept .JOIN) fun present => by
      cases present
      · exact collects_refuse _ rfl
      · exact Collects.andThenSome rfl rfl (collects_table _) fun _ =>
          Collects.bind (collects_joinCondition kind) fun _ => collects_done rfl

/-- **The runs of joins are pieces**, by induction along the joins. -/
theorem collects_joins : Collects [] (·.flatMap Join.expressions) joins := by
  intro ws
  unfold CollectsAt
  fun_induction joins ws with
  | case1 ws hjoin first hnone => exact ⟨[], rfl, .nil (forward_join ws)⟩
  | case2 ws hjoin first found hfound more ih =>
    obtain ⟨es, hes, hpieces⟩ := collects_join ws
    obtain ⟨fs, hfs, hmore⟩ := ih
    refine ⟨es ++ fs, ?_, hpieces.append hmore⟩
    rw [show (join ws).value = some found from hfound] at hes
    show (found :: more.value).flatMap Join.expressions = [] ++ (es ++ fs)
    rw [List.flatMap_cons, show found.expressions = es from hes,
      show more.value.flatMap Join.expressions = fs from hfs, List.nil_append]
  | case3 ws hjoin => exact ⟨[], rfl, .nil (List.suffix_refl ws)⟩

theorem collects_fromClause : Collects [] (·.elim [] FromClause.expressions) fromClause :=
  Collects.clause rfl <| Collects.andThenSome rfl rfl (collects_table _) fun _ =>
    Collects.bind collects_joins fun _ => collects_done rfl

theorem collects_bodyOf (k : Keyword) : Collects [] Option.toList (bodyOf k) :=
  Collects.clause rfl (collects_run _ _)

/-- **The runs of a query are pieces of its words**, in the order in which it lists them. -/
theorem pieces_query (size start : Nat) (ws : List Placed) :
    Pieces (query size start ws).value.expressions ws (query size start ws).rest := by
  have hcollects : Collects [] Query.expressions (query size start) :=
    Collects.bind_forward forward_quantifier fun _ => Collects.bind collects_top fun _ =>
      Collects.bind collects_columns fun _ => Collects.bind_forward forward_intoClause fun _ =>
        Collects.bind collects_fromClause fun _ => Collects.bind (collects_bodyOf _) fun _ =>
          Collects.bind (collects_bodyOf _) fun _ => Collects.bind (collects_bodyOf _) fun _ =>
            Collects.bind (collects_bodyOf _) fun _ => Collects.bind (collects_bodyOf _) fun _ ws =>
              ⟨[], (List.append_nil _).symm, .nil (List.suffix_refl ws)⟩
  obtain ⟨es, hes, hpieces⟩ := hcollects ws
  rw [hes]
  exact hpieces

/-! ## Scripts -/

/-- **A query of a script is read behind a `SELECT` of the script.** -/
theorem exists_query_of_mem {size : Nat} {ws : List Placed} {q : Query}
    (hq : q ∈ (statements size ws).value) :
    ∃ p ps, p :: ps <:+ ws ∧ p.token = .keyword .SELECT ∧ q = (query size p.index ps).value := by
  fun_induction statements size ws with
  | case1 => exact absurd hq List.not_mem_nil
  | case2 p ps hselect found more ih =>
    rcases List.mem_cons.mp hq with rfl | hmore
    · exact ⟨p, ps, List.suffix_refl _, hselect, rfl⟩
    · obtain ⟨p', ps', hsuffix, hfound⟩ := ih hmore
      have hrest : found.rest <:+ p :: ps :=
        (forward_query size p.index ps).trans (List.suffix_cons p ps)
      exact ⟨p', ps', hsuffix.trans hrest, hfound⟩
  | case3 p ps hselect ih =>
    obtain ⟨p', ps', hsuffix, hfound⟩ := ih hq
    exact ⟨p', ps', hsuffix.trans (List.suffix_cons p ps), hfound⟩

/-- **Every run of every query of a script has a word, and is a stretch of the words.** -/
theorem isInfix_of_mem_statements {size : Nat} {ws : List Placed} {q : Query} {e : Expression}
    (hq : q ∈ (statements size ws).value) (he : e ∈ q.expressions) :
    e.items ≠ [] ∧ e.items <:+: ws := by
  obtain ⟨p, ps, hsuffix, -, rfl⟩ := exists_query_of_mem hq
  obtain ⟨hne, hinfix⟩ := (pieces_query size p.index ps).isInfix_of_mem he
  exact ⟨hne, hinfix.trans ((List.suffix_cons p ps).trans hsuffix).isInfix⟩

end Grammar

end SqlScript
