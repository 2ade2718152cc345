import SqlScript.Diagnostic
import SqlScript.Query.Run

/-!
# Query/Parse — a step of parsing, and how steps compose

A parser reads words off the front of a list and never fails: it gives a value, the faults it came
upon, and the words it left.  Words left are always a suffix of the words given (`Parse.Forward`),
which is what lets the loops of the grammar end.
-/

namespace SqlScript

/-- A word, or the end of the script, where something else was expected. -/
structure SyntaxFault where
  expected : Expectation
  found : Option Word
  deriving DecidableEq

/-- The outcome of parsing a part of a statement. -/
structure Step (α : Type) where
  value : α
  faults : List SyntaxFault
  rest : List Placed

/-- A parser of a part of a statement. -/
def Parse (α : Type) : Type := List Placed → Step α

namespace Parse

variable {α β : Type}

/-- Reads nothing. -/
def done (a : α) : Parse α := fun ws => ⟨a, [], ws⟩

/-- Reads one part and then another that depends on it. -/
def andThen (p : Parse α) (f : α → Parse β) : Parse β := fun ws =>
  let first := p ws
  let second := f first.value first.rest
  ⟨second.value, first.faults ++ second.faults, second.rest⟩

instance : Monad Parse where
  pure := done
  bind := andThen

/-! ## Single words -/

/-- The token at the front. -/
def token : Parse Token := fun ws => ⟨frontToken ws, [], ws⟩

/-- Passes a word. -/
def advance : Parse Unit := fun ws => ⟨(), [], ws.tail⟩

/-- Passes the word at the front if it is the given keyword, and says so. -/
def accept (k : Keyword) : Parse Bool := fun ws =>
  if frontToken ws = .keyword k then ⟨true, [], ws.tail⟩ else ⟨false, [], ws⟩

/-- Passes the two words at the front if they are the given keywords, and says so. -/
def acceptPair (k l : Keyword) : Parse Bool := fun ws =>
  if frontToken ws = .keyword k ∧ frontToken ws.tail = .keyword l then ⟨true, [], ws.tail.tail⟩
  else ⟨false, [], ws⟩

/-- Notes that something else was expected in front of these words, and reads nothing. -/
def refuse (e : Expectation) : Parse (Option α) := fun ws =>
  ⟨none, [⟨e, ws.head?.map Placed.word⟩], ws⟩

/-- The part behind a keyword, if the keyword is there. -/
def clause (k : Keyword) (body : Parse (Option α)) : Parse (Option α) := do
  if ← accept k then body else done none

/-- Goes on with a part if it is there. -/
def andThenSome (p : Parse (Option α)) (f : α → Parse (Option β)) : Parse (Option β) := do
  match ← p with
  | some a => f a
  | none => done none

/-! ## Runs of words -/

/-- The word at the front as a run. -/
def single : Parse (Option Expression) := fun ws => ⟨some ⟨ws.take 1⟩, [], ws.tail⟩

/-- A group in parentheses, if they close. -/
def group : Parse (Option Expression) := fun ws =>
  let g := takeGroup 0 ws
  if g.closed then ⟨some ⟨g.items⟩, [], g.rest⟩ else refuse .closingParenthesis g.rest

/-- A run of words, which must not be empty. -/
def run (stops : (token next : Token) → Bool) (e : Expectation) : Parse (Option Expression) :=
  fun ws =>
    let r := takeRun stops 0 ws
    if r.1.isEmpty then refuse e r.2 else ⟨some ⟨r.1⟩, [], r.2⟩

/-! ## Parsers only move forward -/

/-- What a parser leaves is a suffix of what it was given. -/
def Forward (p : Parse α) : Prop := ∀ ws, (p ws).rest <:+ ws

theorem Forward.length_le {p : Parse α} (h : p.Forward) (ws : List Placed) :
    (p ws).rest.length ≤ ws.length := (h ws).length_le

theorem forward_done (a : α) : (done a).Forward := fun ws => List.suffix_refl ws

theorem forward_pure (a : α) : (pure a : Parse α).Forward := forward_done a

theorem Forward.andThen {p : Parse α} {f : α → Parse β} (hp : p.Forward)
    (hf : ∀ a, (f a).Forward) : (p.andThen f).Forward :=
  fun ws => (hf (p ws).value (p ws).rest).trans (hp ws)

theorem Forward.bind {p : Parse α} {f : α → Parse β} (hp : p.Forward)
    (hf : ∀ a, (f a).Forward) : (p >>= f).Forward := hp.andThen hf

theorem forward_token : token.Forward := fun ws => List.suffix_refl ws

theorem forward_advance : advance.Forward := fun ws => List.tail_suffix ws

theorem forward_accept (k : Keyword) : (accept k).Forward := fun ws => by
  unfold accept
  split
  · exact List.tail_suffix ws
  · exact List.suffix_refl ws

theorem forward_acceptPair (k l : Keyword) : (acceptPair k l).Forward := fun ws => by
  unfold acceptPair
  split
  · exact (List.tail_suffix _).trans (List.tail_suffix ws)
  · exact List.suffix_refl ws

theorem forward_refuse (e : Expectation) : (refuse e : Parse (Option α)).Forward :=
  fun ws => List.suffix_refl ws

theorem forward_clause {k : Keyword} {body : Parse (Option α)} (h : body.Forward) :
    (clause k body).Forward :=
  (forward_accept k).bind fun present => by
    cases present
    · exact forward_done none
    · exact h

theorem forward_andThenSome {p : Parse (Option α)} {f : α → Parse (Option β)} (hp : p.Forward)
    (hf : ∀ a, (f a).Forward) : (andThenSome p f).Forward :=
  hp.bind fun found => by
    cases found
    · exact forward_done none
    · exact hf _

theorem forward_single : single.Forward := fun ws => List.tail_suffix ws

theorem forward_group : group.Forward := fun ws => by
  have h : (takeGroup 0 ws).rest <:+ ws := ⟨_, takeGroup_append 0 ws⟩
  unfold group
  simp only
  split
  · exact h
  · exact h

theorem forward_run (stops : Token → Token → Bool) (e : Expectation) :
    (run stops e).Forward := fun ws => by
  have h : (takeRun stops 0 ws).2 <:+ ws := ⟨_, takeRun_append stops 0 ws⟩
  unfold run
  simp only
  split
  · exact h
  · exact h

end Parse

end SqlScript
