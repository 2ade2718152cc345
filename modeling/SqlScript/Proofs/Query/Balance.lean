import Mathlib.Tactic.MkIffOfInductiveProp
import SqlScript.Query.Parse

/-!
# Query/Balance — runs and groups by the balance of their parentheses

The **balance** of some words is how many parentheses they open less how many they close.  It tells
without counting along which words are cut off together: a run is balanced and never falls below
zero, and goes on at every word where the balance is zero; a group stays above zero from its first
word to its last, and comes back to zero there.  Both are read back whole, whatever follows, as long
as a run is followed by a word that ends it.
-/

namespace SqlScript

/-! ## Balance -/

/-- What a token adds to the number of open parentheses. -/
def Token.nesting : Token → Int
  | .symbol .lparen => 1
  | .symbol .rparen => -1
  | _ => 0

/-- How many parentheses some words open, less how many they close. -/
def balance : List Placed → Int
  | [] => 0
  | p :: ps => p.token.nesting + balance ps

@[simp] theorem balance_nil : balance [] = 0 := rfl

@[simp] theorem balance_cons (p : Placed) (ps : List Placed) :
    balance (p :: ps) = p.token.nesting + balance ps := rfl

/-- The depth behind a token is the depth before it and what the token adds, unless a parenthesis
closes that was not open. -/
theorem depthAfter_eq {depth : Nat} {t : Token} (h : 0 ≤ depth + t.nesting) :
    (depthAfter depth t : Int) = depth + t.nesting := by
  unfold depthAfter
  split
  · rfl
  · simp only [Token.nesting] at h ⊢
    omega
  · next hlparen hrparen =>
    have hnone : t.nesting = 0 := by
      unfold Token.nesting
      split <;> simp_all
    rw [hnone, Int.add_zero]

/-! ## Runs -/

/-- Words that a run takes with `depth` parentheses open: none ends the statement, none closes more
parentheses than are open, all are closed at the end, and outside them the run goes on at every
word, as far as the words of the run itself can tell. -/
@[mk_iff]
structure RunsFrom (stops : (token next : Token) → Bool) (depth : Nat) (ws : List Placed) :
    Prop where
  inside : ∀ p ∈ ws, p.token.endsStatement = false
  nonneg : ∀ i ≤ ws.length, 0 ≤ depth + balance (ws.take i)
  closed : depth + balance ws = 0
  goesOn : ∀ i < ws.length, depth + balance (ws.take i) = 0 →
    stops (frontToken (ws.drop i)) (frontToken (ws.drop (i + 1))) = false

instance (stops : Token → Token → Bool) (depth : Nat) (ws : List Placed) :
    Decidable (RunsFrom stops depth ws) := decidable_of_iff _ (runsFrom_iff stops depth ws).symm

/-- A run that is not empty. -/
@[mk_iff]
structure IsRun (stops : (token next : Token) → Bool) (ws : List Placed) : Prop
    extends RunsFrom stops 0 ws where
  ne_nil : ws ≠ []

instance (stops : Token → Token → Bool) (ws : List Placed) : Decidable (IsRun stops ws) :=
  decidable_of_iff _ (isRun_iff stops ws).symm

/-- The words behind the first word of a run are a run from the depth there. -/
theorem RunsFrom.tail {stops : Token → Token → Bool} {depth : Nat} {p : Placed} {ps : List Placed}
    (h : RunsFrom stops depth (p :: ps)) : RunsFrom stops (depthAfter depth p.token) ps := by
  have hdepth : (depthAfter depth p.token : Int) = depth + p.token.nesting := by
    refine depthAfter_eq ?_
    simpa using h.nonneg 1 (by simp)
  refine ⟨fun q hq => h.inside q (List.mem_cons_of_mem p hq), fun i hi => ?_, ?_, ?_⟩
  · have hcons := h.nonneg (i + 1) (Nat.succ_le_succ hi)
    rw [List.take_succ_cons, balance_cons] at hcons
    omega
  · have hall := h.closed
    rw [balance_cons] at hall
    omega
  · intro i hi hzero
    refine h.goesOn (i + 1) (Nat.succ_lt_succ hi) ?_
    rw [List.take_succ_cons, balance_cons]
    omega

/-- A boundary that a word is not where the words end is no boundary whatever follows the word. -/
def Settled (stops : (token next : Token) → Bool) : Prop :=
  ∀ t next, stops t .eof = false → stops t next = false

/-- Some words end a run in front of them. -/
def EndsRun (stops : (token next : Token) → Bool) (ws : List Placed) : Prop :=
  (frontToken ws).endsStatement = true ∨ stops (frontToken ws) (frontToken ws.tail) = true

theorem takeRun_of_endsRun {stops : Token → Token → Bool} {ws : List Placed}
    (h : EndsRun stops ws) : takeRun stops 0 ws = ([], ws) := by
  cases ws with
  | nil => rfl
  | cons p ps =>
    rw [takeRun, if_pos]
    rcases h with hend | hstop
    · exact Bool.or_eq_true_iff.mpr (.inl hend)
    · exact Bool.or_eq_true_iff.mpr (.inr hstop)

/-- **A run is read back whole** in front of words that end it: by induction along the run, at any
depth. -/
theorem takeRun_append_eq {stops : Token → Token → Bool} (hstops : Settled stops) {depth : Nat}
    {ws rest : List Placed} (h : RunsFrom stops depth ws) (hrest : EndsRun stops rest) :
    takeRun stops depth (ws ++ rest) = (ws, rest) := by
  induction ws generalizing depth with
  | nil =>
    obtain rfl : depth = 0 := by simpa using h.closed
    exact takeRun_of_endsRun hrest
  | cons p ps ih =>
    have hgoesOn : (depth == 0 && stops p.token (frontToken (ps ++ rest))) = false := by
      rw [Bool.and_eq_false_imp]
      intro hzero
      have hown : stops p.token (frontToken ps) = false := by
        refine h.goesOn 0 (by simp) ?_
        simpa using hzero
      -- Past the last word the run itself shows nothing, so the boundary has to be settled.
      cases ps with
      | nil => exact hstops _ _ hown
      | cons q qs => exact hown
    rw [List.cons_append, takeRun, h.inside p List.mem_cons_self, hgoesOn, Bool.or_self,
      if_neg Bool.false_ne_true, ih h.tail]

/-! ## Groups -/

/-- Words that a group takes with `depth` parentheses open: the last of them is the first behind
which none is open. -/
@[mk_iff]
structure GroupsFrom (depth : Nat) (ws : List Placed) : Prop where
  ne_nil : ws ≠ []
  inside : ∀ p ∈ ws, p.token.endsStatement = false
  opened : ∀ i < ws.length, 0 < i → 0 < depth + balance (ws.take i)
  closed : depth + balance ws = 0

instance (depth : Nat) (ws : List Placed) : Decidable (GroupsFrom depth ws) :=
  decidable_of_iff _ (groupsFrom_iff depth ws).symm

/-- A group in parentheses. -/
@[mk_iff]
structure IsGroup (ws : List Placed) : Prop extends GroupsFrom 0 ws where
  opens : frontToken ws = .symbol .lparen

instance (ws : List Placed) : Decidable (IsGroup ws) := decidable_of_iff _ (isGroup_iff ws).symm

/-- The words behind the first word of a group, if there are any, are a group from the depth there,
which is not zero. -/
theorem GroupsFrom.tail {depth : Nat} {p q : Placed} {ps : List Placed}
    (h : GroupsFrom depth (p :: q :: ps)) :
    depthAfter depth p.token ≠ 0 ∧ GroupsFrom (depthAfter depth p.token) (q :: ps) := by
  have hpos : 0 < depth + p.token.nesting := by
    simpa using h.opened 1 (by simp) Nat.one_pos
  have hdepth := depthAfter_eq (Int.le_of_lt hpos)
  refine ⟨by omega, List.cons_ne_nil q ps, fun r hr => ?_, ?_, ?_⟩
  · exact h.inside r (List.mem_cons_of_mem p hr)
  · intro i hi _
    have hcons := h.opened (i + 1) (Nat.succ_lt_succ hi) (Nat.succ_pos i)
    rw [List.take_succ_cons, balance_cons] at hcons
    omega
  · have hall := h.closed
    rw [balance_cons] at hall
    omega

/-- **A group is read back whole**, whatever follows: by induction along the group, at any depth. -/
theorem takeGroup_append_eq {depth : Nat} {ws rest : List Placed} (h : GroupsFrom depth ws) :
    takeGroup depth (ws ++ rest) = ⟨ws, rest, true⟩ := by
  induction ws generalizing depth with
  | nil => exact absurd rfl h.ne_nil
  | cons p ps ih =>
    have hinside : ¬ p.token.endsStatement = true := by simp [h.inside p List.mem_cons_self]
    rw [List.cons_append, takeGroup, if_neg hinside]
    cases ps with
    | nil =>
      have hzero : depthAfter depth p.token = 0 := by
        have hall : depth + p.token.nesting = 0 := by simpa using h.closed
        have hdepth := depthAfter_eq (Int.le_of_eq hall.symm)
        omega
      rw [if_pos hzero]
      rfl
    | cons q qs =>
      obtain ⟨hne, htail⟩ := h.tail
      rw [if_neg hne, ih htail]

end SqlScript
