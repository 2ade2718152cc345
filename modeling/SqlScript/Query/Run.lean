import SqlScript.Query.Boundary
import SqlScript.Query.Basic

/-!
# Query/Run — cutting runs of words off the front of a statement

The three ways a query takes words unread: a run up to a boundary outside parentheses (`takeRun`), a
group that ends where its parentheses close (`takeGroup`), and a name in parts (`takeDotted`).  Each
leaves a suffix of the words it was given.
-/

namespace SqlScript

/-- The token at the front of some words. -/
def frontToken : List Placed → Token
  | [] => .eof
  | p :: _ => p.token

/-- How many parentheses are open behind a token. -/
def depthAfter (depth : Nat) : Token → Nat
  | .symbol .lparen => depth + 1
  | .symbol .rparen => depth - 1
  | _ => depth

/-- The words up to the end of the statement, or, outside parentheses, up to a token that `stops`
tells from the one behind it; and the words that follow. -/
def takeRun (stops : (token next : Token) → Bool) :
    (depth : Nat) → List Placed → List Placed × List Placed
  | _, [] => ([], [])
  | depth, p :: ps =>
    if p.token.endsStatement || (depth == 0 && stops p.token (frontToken ps)) then ([], p :: ps)
    else
      let more := takeRun stops (depthAfter depth p.token) ps
      (p :: more.1, more.2)

/-- The two parts make up the words. -/
theorem takeRun_append (stops : Token → Token → Bool) :
    ∀ (depth : Nat) (ws : List Placed),
      (takeRun stops depth ws).1 ++ (takeRun stops depth ws).2 = ws
  | _, [] => rfl
  | depth, p :: ps => by
      rw [takeRun]
      split
      · rfl
      · simp [takeRun_append stops (depthAfter depth p.token) ps]

/-- A group of words in parentheses, and the words that follow. -/
structure Group where
  items : List Placed
  rest : List Placed
  /-- The parentheses are closed. -/
  closed : Bool

/-- The words up to the one behind which no parenthesis is open, if the statement goes on so far. -/
def takeGroup : (depth : Nat) → List Placed → Group
  | _, [] => ⟨[], [], false⟩
  | depth, p :: ps =>
    if p.token.endsStatement then ⟨[], p :: ps, false⟩
    else if depthAfter depth p.token = 0 then ⟨[p], ps, true⟩
    else
      let more := takeGroup (depthAfter depth p.token) ps
      ⟨p :: more.items, more.rest, more.closed⟩

/-- The two parts make up the words. -/
theorem takeGroup_append : ∀ (depth : Nat) (ws : List Placed),
    (takeGroup depth ws).items ++ (takeGroup depth ws).rest = ws
  | _, [] => rfl
  | depth, p :: ps => by
      rw [takeGroup]
      split
      · rfl
      · split
        · rfl
        · simp [takeGroup_append (depthAfter depth p.token) ps]

/-- The further parts of a name, each behind a point, and the words that follow. -/
def takeDotted : List Placed → List String × List Placed
  | d :: p :: ps =>
    if d.token = .symbol .period ∧ p.token = .ident then
      let more := takeDotted ps
      (p.word.literal :: more.1, more.2)
    else ([], d :: p :: ps)
  | ws => ([], ws)

/-- A name leaves a suffix of the words. -/
theorem takeDotted_suffix (ws : List Placed) : (takeDotted ws).2 <:+ ws := by
  fun_induction takeDotted ws with
  | case1 d p ps _ more ih => exact ih.trans ((List.suffix_cons p ps).trans (List.suffix_cons d _))
  | case2 d p ps _ => exact List.suffix_refl _
  | case3 ws _ => exact List.suffix_refl _

end SqlScript
