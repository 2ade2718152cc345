import SqlScript.Query.Parse

/-!
# Query/Grammar — the clauses of a SELECT statement

Each clause is recognised by the token at the front, with one token of look-ahead where a word has
two uses: `WITH` opens ties, hints or the next statement, and `LEFT` opens a join or names a
function.  A clause that cannot be read is left out, its fault is noted, and the next clause is
tried where the words stand.
-/

namespace SqlScript.Grammar

open SqlScript.Parse

/-! ## Boundaries -/

/-- A column ends at a comma and where the columns end. -/
def endsColumn (token _next : Token) : Bool := token = .symbol .comma || token.endsColumns

/-- The body of a clause ends at the next clause, and at a `WITH` that does not belong to it. -/
def endsBody (token next : Token) : Bool :=
  token.endsClause || (token = .keyword .WITH && !next.continuesWith)

/-- A join condition ends where the body of a clause does, and at the next join. -/
def endsCondition (token next : Token) : Bool := endsBody token next || token.opensJoin next

/-! ## In front of the columns -/

/-- `ALL` or `DISTINCT`. -/
def quantifier : Parse (Option Quantifier) := do
  if ← accept .ALL then done (some .all)
  else if ← accept .DISTINCT then done (some .distinct)
  else done none

/-- What `TOP` is given: a group in parentheses or a single number. -/
def topCount : Parse (Option Expression) := do
  match ← token with
  | .symbol .lparen => group
  | .int | .float => single
  | _ => refuse .topArgument

/-- `TOP`, its count, and its two options. -/
def top : Parse (Option Top) :=
  clause .TOP <| andThenSome topCount fun count => do
    let percent ← accept .PERCENT
    let withTies ← acceptPair .WITH .TIES
    done (some ⟨count, percent, withTies⟩)

/-! ## Columns -/

/-- The columns, with commas between them. -/
def columns (ws : List Placed) : Step (List Expression) :=
  let column := run endsColumn .column ws
  match _h : column.rest with
  | [] => ⟨column.value.toList, column.faults, []⟩
  | p :: ps =>
    if p.token = .symbol .comma then
      let more := columns ps
      ⟨column.value.toList ++ more.value, column.faults ++ more.faults, more.rest⟩
    else ⟨column.value.toList, column.faults, p :: ps⟩
termination_by ws.length
decreasing_by
  have hle := (forward_run endsColumn .column).length_le ws
  simp only [column] at _h
  rw [_h, List.length_cons] at hle
  exact hle

/-! ## Tables -/

/-- A name in parts; an identifier must be at the front. -/
def qualifiedName : Parse QualifiedName
  | [] => ⟨⟨[]⟩, [], []⟩
  | p :: ps => ⟨⟨p.word.literal :: (takeDotted ps).1⟩, [], (takeDotted ps).2⟩

/-- `INTO` and a name. -/
def intoClause : Parse (Option QualifiedName) :=
  clause .INTO do
    match ← token with
    | .ident => some <$> qualifiedName
    | _ => refuse .tableAfterInto

/-- A name, or a query in parentheses. -/
def tableSource (e : Expectation) : Parse (Option TableSource) := do
  match ← token with
  | .ident => (some ∘ TableSource.named) <$> qualifiedName
  | .symbol .lparen => Option.map TableSource.derived <$> group
  | _ => refuse e

/-- The alias of a table, which must be there behind `AS`. -/
def aliasName (asKeyword : Bool) : Parse (Option String)
  | [] => if asKeyword then refuse .aliasAfterAs [] else ⟨none, [], []⟩
  | p :: ps =>
    if p.token = .ident then ⟨some p.word.literal, [], ps⟩
    else if asKeyword then refuse .aliasAfterAs (p :: ps)
    else ⟨none, [], p :: ps⟩

/-- `WITH` and a group in parentheses; hints whose parentheses do not close are dropped. -/
def hints : Parse (Option Expression)
  | [] => ⟨none, [], []⟩
  | p :: ps =>
    if p.token = .keyword .WITH ∧ frontToken ps = .symbol .lparen then
      let g := group ps
      ⟨g.value.map fun run => ⟨p :: run.items⟩, g.faults, g.rest⟩
    else ⟨none, [], p :: ps⟩

/-- A source with its alias and its hints. -/
def table (e : Expectation) : Parse (Option Table) :=
  andThenSome (tableSource e) fun source => do
    let asKeyword ← accept .AS
    let aliasName ← aliasName asKeyword
    let hints ← hints
    done (some ⟨source, asKeyword, aliasName, hints⟩)

/-! ## Joins -/

/-- A kind of join, behind which `OUTER` may stand. -/
def outerKind (kind : JoinKind) : Parse JoinKind :=
  match kind.outer? with
  | none => done kind
  | some outer => do if ← accept .OUTER then done outer else done kind

/-- The kind of a join, up to the keyword `JOIN`; without a word for it the join is inner. -/
def joinKind : Parse JoinKind := fun ws =>
  match JoinKind.ofToken? (frontToken ws) with
  | none => done .inner ws
  | some kind => outerKind kind ws.tail

/-- The condition of a join; a cross join has none. -/
def joinCondition (kind : JoinKind) : Parse (Option Expression) :=
  if kind = .cross then done none
  else do
    if ← accept .ON then run endsCondition .joinCondition else refuse .onKeyword

/-- The table and the condition of a join of a known kind. -/
def joinedTable (kind : JoinKind) : Parse (Option Join) :=
  andThenSome (table .tableAfterJoin) fun table => do
    let condition ← joinCondition kind
    done (some ⟨kind, table, condition⟩)

/-- A join of a known kind: the keyword, the table and the condition. -/
def joinOfKind (kind : JoinKind) : Parse (Option Join) := do
  if ← accept .JOIN then joinedTable kind else refuse .joinKeyword

/-- A join: its kind, then the rest of it. -/
def join : Parse (Option Join) := do
  let kind ← joinKind
  joinOfKind kind

/-- A join stands at the front. -/
def atJoin (ws : List Placed) : Bool := (frontToken ws).opensJoin (frontToken ws.tail)

/-! ### Joins move forward -/

theorem forward_qualifiedName : qualifiedName.Forward
  | [] => List.suffix_refl _
  | p :: ps => (takeDotted_suffix ps).trans (List.suffix_cons p ps)

theorem forward_map {α β : Type} {p : Parse α} (f : α → β) (h : p.Forward) :
    (f <$> p).Forward := h.bind fun _ => forward_pure _

theorem forward_tableSource (e : Expectation) : (tableSource e).Forward :=
  forward_token.bind fun t => by
    split
    · exact forward_map _ forward_qualifiedName
    · exact forward_map _ forward_group
    · exact forward_refuse e

theorem forward_aliasName (asKeyword : Bool) : (aliasName asKeyword).Forward := fun ws => by
  unfold aliasName
  split
  · split <;> exact List.suffix_refl _
  · split
    · exact List.suffix_cons _ _
    · split <;> exact List.suffix_refl _

theorem forward_hints : hints.Forward
  | [] => List.suffix_refl _
  | p :: ps => by
      unfold hints
      simp only
      split
      · exact (forward_group ps).trans (List.suffix_cons p ps)
      · exact List.suffix_refl _

theorem forward_table (e : Expectation) : (table e).Forward :=
  forward_andThenSome (forward_tableSource e) fun _ =>
    (forward_accept .AS).bind fun asKeyword => (forward_aliasName asKeyword).bind fun _ =>
      forward_hints.bind fun _ => forward_done _

theorem forward_outerKind (kind : JoinKind) : (outerKind kind).Forward := by
  unfold outerKind
  split
  · exact forward_done _
  · exact (forward_accept .OUTER).bind fun marked => by
      cases marked <;> exact forward_done _

theorem forward_joinKind : joinKind.Forward := fun ws => by
  unfold joinKind
  split
  · exact List.suffix_refl _
  · exact (forward_outerKind _ ws.tail).trans (List.tail_suffix ws)

theorem forward_joinCondition (kind : JoinKind) : (joinCondition kind).Forward := by
  unfold joinCondition
  split
  · exact forward_done none
  · exact (forward_accept .ON).bind fun present => by
      cases present
      · exact forward_refuse _
      · exact forward_run _ _

theorem forward_joinedTable (kind : JoinKind) : (joinedTable kind).Forward :=
  forward_andThenSome (forward_table _) fun _ =>
    (forward_joinCondition kind).bind fun _ => forward_done _

theorem forward_joinOfKind (kind : JoinKind) : (joinOfKind kind).Forward :=
  (forward_accept .JOIN).bind fun present => by
    cases present
    · exact forward_refuse _
    · exact forward_joinedTable kind

/-- Behind its keyword a join of a known kind is its table and its condition. -/
theorem joinOfKind_of_frontToken {kind : JoinKind} {ws : List Placed}
    (h : frontToken ws = .keyword .JOIN) : joinOfKind kind ws = joinedTable kind ws.tail := by
  simp [joinOfKind, bind, Parse.andThen, accept, h]

theorem forward_join : join.Forward := forward_joinKind.bind forward_joinOfKind

/-- A keyword that opens a join either is `JOIN` or names a kind of join. -/
theorem eq_join_or_ofToken?_isSome {t : Token} (h : t.startsJoin = true) :
    t = .keyword .JOIN ∨ (JoinKind.ofToken? t).isSome := by
  unfold Token.startsJoin at h
  split at h <;> simp_all [JoinKind.ofToken?]

/-- **A join takes at least one word**, so a list of joins ends. -/
theorem join_length_lt {ws : List Placed} (h : atJoin ws = true) :
    (join ws).rest.length < ws.length := by
  have hstarts : (frontToken ws).startsJoin = true := by
    simp only [atJoin, Token.opensJoin, Bool.and_eq_true] at h
    exact h.1
  have htail : ws.tail.length < ws.length := by
    cases ws with
    | nil => simp [frontToken, Token.startsJoin] at hstarts
    | cons p ps => simp
  suffices hsuffix : (join ws).rest <:+ ws.tail from Nat.lt_of_le_of_lt hsuffix.length_le htail
  rcases eq_join_or_ofToken?_isSome hstarts with hjoin | hkind
  · have hinner : joinKind ws = done .inner ws := by simp [joinKind, hjoin, JoinKind.ofToken?]
    show (joinOfKind (joinKind ws).value (joinKind ws).rest).rest <:+ ws.tail
    rw [hinner]
    show (joinOfKind .inner ws).rest <:+ ws.tail
    rw [joinOfKind_of_frontToken hjoin]
    exact forward_joinedTable .inner ws.tail
  · obtain ⟨kind, hkind⟩ := Option.isSome_iff_exists.mp hkind
    have houter : joinKind ws = outerKind kind ws.tail := by simp [joinKind, hkind]
    show (joinOfKind (joinKind ws).value (joinKind ws).rest).rest <:+ ws.tail
    rw [houter]
    exact (forward_joinOfKind _ _).trans (forward_outerKind kind ws.tail)

/-- The joins at the front. -/
def joins (ws : List Placed) : Step (List Join) :=
  if _h : atJoin ws = true then
    let first := join ws
    match first.value with
    | none => ⟨[], first.faults, first.rest⟩
    | some found =>
      let more := joins first.rest
      ⟨found :: more.value, first.faults ++ more.faults, more.rest⟩
  else ⟨[], [], ws⟩
termination_by ws.length
decreasing_by exact join_length_lt _h

/-! ## Behind the columns -/

/-- `FROM`, a table and the joins. -/
def fromClause : Parse (Option FromClause) :=
  clause .FROM <| andThenSome (table .tableAfterFrom) fun table => do
    let joins ← joins
    done (some ⟨table, joins⟩)

/-- A trailing clause: its keyword and its body. -/
def bodyOf (k : Keyword) : Parse (Option Expression) := clause k (run endsBody (.bodyAfter k))

/-! ## Statements -/

/-- The index of the word at the front, among `size` words. -/
def offset (size : Nat) : List Placed → Nat
  | [] => size
  | p :: _ => p.index

/-- A query whose range starts at `start`, in a script of `size` words.  The keyword `SELECT` has
been passed. -/
def query (size start : Nat) : Parse Query := do
  let quantifier ← quantifier
  let top ← top
  let columns ← columns
  let into ← intoClause
  let fromClause ← fromClause
  let whereClause ← bodyOf .WHERE
  let groupBy ← bodyOf .GROUP_BY
  let having ← bodyOf .HAVING
  let orderBy ← bodyOf .ORDER_BY
  let options ← bodyOf .OPTION
  fun ws =>
    ⟨{ quantifier, top, columns, into, fromClause, whereClause, groupBy, having, orderBy, options,
       range := ⟨start, offset size ws⟩ }, [], ws⟩

/-- A query with its keyword, if the keyword is at the front. -/
def select (size : Nat) : Parse (Option Query)
  | [] => ⟨none, [], []⟩
  | p :: ps =>
    if p.token = .keyword .SELECT then some <$> query size p.index <| ps
    else ⟨none, [], p :: ps⟩

end SqlScript.Grammar
