import SqlScript.Proofs.Checked.Cursor
import SqlScript.Proofs.Query.Visible

/-!
# Proofs/Checked/Walk — parsing by an index into the words of a script

    index ──▸ skip comments ──▸ token, next token ──▸ index of the next word that is no comment

A walk is a parser as it moves over the words of a script: its state is an index, it looks at the
word there and the next one that is no comment, and it keeps a checked count of the parentheses that
are open.  A count below zero and a loop that does not end give `none`.

A walk `Runs` as a parser does if, from the index of any visible word, it gives what the parser
gives and stops at the index of what the parser leaves.  The loops that cut off runs, groups and
names do so (`runs_run`, `runs_group`, `runs_qualifiedName`), and walks that do are put together
like the parsers (`Runs.bind`).
-/

namespace SqlScript.Checked

open SqlScript.Grammar (offset)

/-! ## An index among words -/

/-- The word at an index, placed there. -/
def placedAt (words : List Word) (index : Nat) : Option Placed :=
  words[index]?.map (Placed.mk index)

/-- The token at an index. -/
def tokenAt (words : List Word) (index : Nat) : Token :=
  (words[index]?.map Word.token).getD .eof

/-- The index of the first word from `index` on that is no comment. -/
def skipComments? (words : Checked Word) (index : Nat) : Option Nat :=
  match words[index]? with
  | some w => if w.isComment then words |>.skipComments? (index + 1) else some index
  | none => some index
partial_fixpoint

/-- The index of the next word that is no comment; the end stays where it is. -/
def advance? (words : List Word) (index : Nat) : Option Nat :=
  if index < words.length then skipComments? words (index + 1) else some index

/-- The token of the next word that is no comment. -/
def nextToken? (words : List Word) (index : Nat) : Option Token :=
  (skipComments? words (index + 1)).map (tokenAt words)

section

variable {words : List Word} {ws : List Placed}

theorem placedAt_offset (h : ws <:+ Placed.visible words) :
    placedAt words (offset words.length ws) = ws.head? := by
  rw [placedAt, getElem?_offset h]
  cases ws <;> rfl

theorem tokenAt_offset (h : ws <:+ Placed.visible words) :
    tokenAt words (offset words.length ws) = frontToken ws := by
  rw [tokenAt, getElem?_offset h]
  cases ws <;> rfl

/-- **Only comments stand between two visible words.** -/
theorem skipComments?_eq {us : List Placed} {k : Nat} (h : us ++ ws = Placed.visible words)
    (hus : ∀ p ∈ us, p.index < k) (hle : k ≤ offset words.length ws) :
    skipComments? words k = some (offset words.length ws) := by
  have hsuffix : ws <:+ Placed.visible words := ⟨us, h⟩
  -- the distance to the next visible word
  generalize hn : offset words.length ws - k = n
  induction n generalizing k with
  | zero =>
    obtain rfl : k = offset words.length ws := by omega
    rw [skipComments?]
    cases ws with
    | nil => simp [offset]
    | cons p ps =>
      obtain ⟨hword, hcomment⟩ := mem_visible_iff.mp (hsuffix.subset List.mem_cons_self)
      simp [offset, hword, hcomment]
  | succ n ih =>
    have hlt : k < offset words.length ws := by omega
    have hlength : k < words.length := Nat.lt_of_lt_of_le hlt (offset_le_length hsuffix)
    have hword : words[k]? = some words[k] := List.getElem?_eq_getElem hlength
    have hcomment : words[k].isComment = true := by
      refine Decidable.of_not_not fun hvisible => ?_
      have hmem : (⟨k, words[k]⟩ : Placed) ∈ Placed.visible words :=
        mem_visible_iff.mpr ⟨hword, by simpa using hvisible⟩
      rw [← h] at hmem
      rcases List.mem_append.mp hmem with hp | hp
      · exact Nat.lt_irrefl k (hus _ hp)
      · have hsorted := (pairwise_visible words).sublist hsuffix.sublist
        exact Nat.not_le_of_lt hlt (offset_le_index hsorted hp)
    rw [skipComments?, hword]
    simp only [hcomment, if_true]
    exact ih (fun p hp => Nat.lt_succ_of_lt (hus p hp)) hlt (by omega)

theorem skipComments?_zero (words : List Word) :
    skipComments? words 0 = some (offset words.length (Placed.visible words)) :=
  skipComments?_eq (List.nil_append _) (by simp) (Nat.zero_le _)

/-- Passing a word ends at the next one. -/
theorem skipComments?_tail {p : Placed} (h : p :: ws <:+ Placed.visible words) :
    skipComments? words (p.index + 1) = some (offset words.length ws) := by
  obtain ⟨us, hus⟩ := h
  have hsorted := pairwise_visible words
  rw [← hus] at hsorted
  have hbehind := (List.pairwise_cons.mp (List.pairwise_append.mp hsorted).2.1).1
  have hsplit : (us ++ [p]) ++ ws = Placed.visible words := by
    rw [← hus, List.append_assoc]
    rfl
  refine skipComments?_eq hsplit ?_ ?_
  · intro q hq
    rcases List.mem_append.mp hq with hq | hq
    · exact Nat.lt_succ_of_lt ((List.pairwise_append.mp hsorted).2.2 q hq p List.mem_cons_self)
    · rw [List.mem_singleton.mp hq]
      exact Nat.lt_succ_self _
  · cases ws with
    | nil => exact index_lt_of_mem_visible (hus ▸ List.mem_append_right us List.mem_cons_self)
    | cons q qs => exact hbehind q List.mem_cons_self

theorem advance?_offset (h : ws <:+ Placed.visible words) :
    advance? words (offset words.length ws) = some (offset words.length ws.tail) := by
  cases ws with
  | nil => exact if_neg (Nat.lt_irrefl _)
  | cons p ps =>
    rw [advance?]
    exact (if_pos (index_lt_of_mem_visible (h.subset List.mem_cons_self))).trans
      (skipComments?_tail h)

theorem nextToken?_offset (h : ws <:+ Placed.visible words) :
    nextToken? words (offset words.length ws) = some (frontToken ws.tail) := by
  cases ws with
  | nil =>
    simp [nextToken?, offset, skipComments?, tokenAt, frontToken]
  | cons p ps =>
    have htoken : tokenAt words (offset words.length ps) = frontToken ps :=
      tokenAt_offset ((List.suffix_cons p ps).trans h)
    simp only [nextToken?, offset, skipComments?_tail h, Option.map_some, List.tail_cons]
    exact congrArg some htoken

end

/-! ## Walks -/

/-- What a walk comes to: a value, the faults it noted and the index where it stopped. -/
structure Trace (α : Type) where
  value : α
  faults : List SyntaxFault
  index : Nat

/-- A parser that moves over words by an index. -/
def Walk (α : Type) : Type := Nat → Option (Trace α)

namespace Walk

variable {α β : Type}

/-- Passes nothing. -/
def done (a : α) : Walk α := fun index => some ⟨a, [], index⟩

/-- One walk and then another that depends on it. -/
def andThen (v : Walk α) (f : α → Walk β) : Walk β := fun index => do
  let first ← v index
  let second ← f first.value first.index
  return ⟨second.value, first.faults ++ second.faults, second.index⟩

instance : Monad Walk where
  pure := done
  bind := andThen

/-- Goes on with a part if it is there. -/
def andThenSome (v : Walk (Option α)) (f : α → Walk (Option β)) : Walk (Option β) := do
  match ← v with
  | some a => f a
  | none => done none

section

variable (words : List Word)

/-- The token at the index. -/
def token : Walk Token := fun index => some ⟨tokenAt words index, [], index⟩

/-- Passes the word at the index if it is the given keyword, and says so. -/
def accept (k : Keyword) : Walk Bool := fun index => do
  if tokenAt words index = .keyword k then return ⟨true, [], ← advance? words index⟩
  else return ⟨false, [], index⟩

/-- Passes two words if they are the given keywords, and says so. -/
def acceptPair (k l : Keyword) : Walk Bool := fun index => do
  let next ← nextToken? words index
  if tokenAt words index = .keyword k ∧ next = .keyword l then
    return ⟨true, [], ← advance? words (← advance? words index)⟩
  else return ⟨false, [], index⟩

/-- Notes that something else was expected, and passes nothing. -/
def refuse (e : Expectation) : Walk (Option α) := fun index =>
  some ⟨none, [⟨e, words[index]?⟩], index⟩

/-- The part behind a keyword, if the keyword is there. -/
def clause (k : Keyword) (body : Walk (Option α)) : Walk (Option α) := do
  if ← accept words k then body else done none

end

end Walk

/-- A step of a parser as a walk sees it. -/
def trace (words : List Word) {α : Type} (s : Step α) : Trace α :=
  ⟨s.value, s.faults, offset words.length s.rest⟩

@[simp] theorem index_trace (words : List Word) {α : Type} (s : Step α) :
    (trace words s).index = offset words.length s.rest := rfl

/-- **A walk runs as a parser does**, from the index of any visible word. -/
structure Runs (words : List Word) {α : Type} (v : Walk α) (p : Parse α) : Prop where
  forward : p.Forward
  eq : ∀ {ws : List Placed}, ws <:+ Placed.visible words →
    v (offset words.length ws) = some (trace words (p ws))

section

variable {words : List Word} {α β : Type}

theorem runs_done (a : α) : Runs words (Walk.done a) (Parse.done a) :=
  ⟨Parse.forward_done a, fun _ => rfl⟩

/-- **Walks are put together like parsers.** -/
theorem Runs.bind {v : Walk α} {p : Parse α} {g : α → Walk β} {f : α → Parse β}
    (hv : Runs words v p) (hg : ∀ a, Runs words (g a) (f a)) :
    Runs words (v >>= g) (p >>= f) where
  forward := hv.forward.bind fun a => (hg a).forward
  eq {ws} h := by
    have hfirst := hv.eq h
    have hsecond := (hg (p ws).value).eq ((hv.forward ws).trans h)
    show Walk.andThen v g _ = _
    rw [Walk.andThen, hfirst, Option.bind_eq_bind, Option.bind_some]
    simp only [trace] at hsecond ⊢
    rw [hsecond]
    rfl

theorem Runs.map {v : Walk α} {p : Parse α} (hv : Runs words v p) (f : α → β) :
    Runs words (f <$> v) (f <$> p) := hv.bind fun a => runs_done (f a)

theorem Runs.andThenSome {v : Walk (Option α)} {p : Parse (Option α)} {g : α → Walk (Option β)}
    {f : α → Parse (Option β)} (hv : Runs words v p) (hg : ∀ a, Runs words (g a) (f a)) :
    Runs words (v.andThenSome g) (p.andThenSome f) :=
  hv.bind fun found => by
    cases found with
    | none => exact runs_done none
    | some a => exact hg a

theorem Runs.ite {v v' : Walk α} {p p' : Parse α} (c : Prop) [Decidable c] (hv : Runs words v p)
    (hv' : Runs words v' p') : Runs words (if c then v else v') (if c then p else p') := by
  split
  · exact hv
  · exact hv'

theorem runs_token : Runs words (Walk.token words) Parse.token where
  forward := Parse.forward_token
  eq h := by
    rw [Walk.token, tokenAt_offset h]
    rfl

theorem runs_refuse (e : Expectation) :
    Runs words (Walk.refuse words e : Walk (Option α)) (Parse.refuse e) where
  forward := Parse.forward_refuse e
  eq {ws} h := by
    rw [Walk.refuse, getElem?_offset h]
    rfl

theorem runs_accept (k : Keyword) : Runs words (Walk.accept words k) (Parse.accept k) where
  forward := Parse.forward_accept k
  eq {ws} h := by
    rw [Walk.accept, tokenAt_offset h, Parse.accept]
    split
    · rw [advance?_offset h]
      rfl
    · rfl

theorem runs_acceptPair (k l : Keyword) :
    Runs words (Walk.acceptPair words k l) (Parse.acceptPair k l) where
  forward := Parse.forward_acceptPair k l
  eq {ws} h := by
    have htail : ws.tail <:+ Placed.visible words := (List.tail_suffix ws).trans h
    rw [Walk.acceptPair, nextToken?_offset h, Option.bind_eq_bind, Option.bind_some,
      tokenAt_offset h, Parse.acceptPair]
    split
    · rw [advance?_offset h, Option.bind_eq_bind, Option.bind_some, advance?_offset htail]
      rfl
    · rfl

theorem Runs.clause {k : Keyword} {v : Walk (Option α)} {p : Parse (Option α)}
    (hv : Runs words v p) : Runs words (Walk.clause words k v) (Parse.clause k p) :=
  (runs_accept k).bind fun present => hv.ite present (runs_done none)

end

/-! ## Runs of words -/

/-- How many parentheses are open behind a token. -/
def depthAfter? (depth : Nat) : Token → Option Nat
  | .symbol .lparen => some (depth + 1)
  | .symbol .rparen => sub? depth 1
  | _ => some depth

/-- The words up to the end of the statement, or up to a token that `stops` outside parentheses, and
the index there. -/
def takeRun? (words : Checked Word) (stops : (token next : Token) → Bool) (depth index : Nat) :
    Option (List Placed × Nat) := do
  let token := tokenAt words index
  let next ← nextToken? words index
  if token.endsStatement || (depth == 0 && stops token next) then return ([], index)
  else
    let (items, stop) ← words |>.takeRun? stops (← depthAfter? depth token) (← advance? words index)
    return ((placedAt words index).toList ++ items, stop)
partial_fixpoint

/-- The words up to the one behind which no parenthesis is open, the index behind them, and whether
the statement goes on so far. -/
def takeGroup? (words : Checked Word) (depth index : Nat) : Option (List Placed × Nat × Bool) := do
  let token := tokenAt words index
  if token.endsStatement then return ([], index, false)
  else
    -- a count that cannot go below zero
    let depth := depthAfter depth token
    let next ← advance? words index
    if depth = 0 then return ((placedAt words index).toList, next, true)
    else
      let (items, stop, closed) ← words |>.takeGroup? depth next
      return ((placedAt words index).toList ++ items, stop, closed)
partial_fixpoint

/-- The further parts of a name, each behind a point, and the index behind them. -/
def takeDotted? (words : Checked Word) (index : Nat) : Option (List String × Nat) := do
  let next ← nextToken? words index
  if tokenAt words index = .symbol .period ∧ next = .ident then
    let part ← advance? words index
    let (parts, stop) ← words |>.takeDotted? (← advance? words part)
    return ((words[part]?.map Word.literal).toList ++ parts, stop)
  else return ([], index)
partial_fixpoint

section

variable {words : List Word} {ws : List Placed}

theorem depthAfter?_eq {depth : Nat} {t : Token} (h : depth = 0 → t ≠ .symbol .rparen) :
    depthAfter? depth t = some (depthAfter depth t) := by
  unfold depthAfter?
  split
  · rfl
  · exact sub?_eq (Nat.pos_of_ne_zero fun hdepth => h hdepth rfl)
  · next hopen hclose => rw [depthAfter] <;> assumption

example : depthAfter? 0 (.symbol .rparen) = none := rfl

/-- **A run keeps its count**: a parenthesis that would take it below zero ends the run before. -/
theorem takeRun?_eq {stops : Token → Token → Bool} (hstops : ∀ next, stops (.symbol .rparen) next)
    (depth : Nat) (h : ws <:+ Placed.visible words) :
    takeRun? words stops depth (offset words.length ws) =
      some ((takeRun stops depth ws).1, offset words.length (takeRun stops depth ws).2) := by
  induction ws generalizing depth with
  | nil =>
    rw [takeRun?, tokenAt_offset h, nextToken?_offset h]
    rfl
  | cons p ps ih =>
    rw [takeRun?, tokenAt_offset h, nextToken?_offset h, takeRun, Option.bind_eq_bind,
      Option.bind_some]
    have hps : ps <:+ Placed.visible words := (List.suffix_cons p ps).trans h
    by_cases hend : (p.token.endsStatement || (depth == 0 && stops p.token (frontToken ps))) = true
    · rw [if_pos hend]
      exact if_pos hend
    · rw [if_neg hend]
      refine (if_neg hend).trans ?_
      have hdepth : depthAfter? depth (frontToken (p :: ps)) = some (depthAfter depth p.token) := by
        refine depthAfter?_eq fun hzero hparen => hend ?_
        have hparen : p.token = .symbol .rparen := hparen
        simp [hzero, hparen, hstops]
      rw [hdepth, advance?_offset h, placedAt_offset h]
      simp only [Option.bind_eq_bind, Option.bind_some, List.tail_cons, ih _ hps]
      rfl

theorem takeGroup?_eq (depth : Nat) (h : ws <:+ Placed.visible words) :
    takeGroup? words depth (offset words.length ws) =
      some ((takeGroup depth ws).items, offset words.length (takeGroup depth ws).rest,
        (takeGroup depth ws).closed) := by
  induction ws generalizing depth with
  | nil =>
    rw [takeGroup?, tokenAt_offset h]
    rfl
  | cons p ps ih =>
    rw [takeGroup?, tokenAt_offset h, takeGroup]
    have hps : ps <:+ Placed.visible words := (List.suffix_cons p ps).trans h
    by_cases hend : p.token.endsStatement = true
    · rw [if_pos hend]
      exact if_pos hend
    · rw [if_neg hend]
      refine (if_neg hend).trans ?_
      rw [advance?_offset h, placedAt_offset h, Option.bind_eq_bind, Option.bind_some]
      by_cases hdepth : depthAfter depth p.token = 0
      · rw [if_pos hdepth]
        exact if_pos hdepth
      · rw [if_neg hdepth]
        refine (if_neg hdepth).trans ?_
        simp only [List.tail_cons, frontToken, ih _ hps]
        rfl

theorem takeDotted?_eq (h : ws <:+ Placed.visible words) :
    takeDotted? words (offset words.length ws) =
      some ((takeDotted ws).1, offset words.length (takeDotted ws).2) := by
  fun_induction takeDotted ws with
  | case1 d p ps hpart more ih =>
    have htail : p :: ps <:+ Placed.visible words := (List.suffix_cons d _).trans h
    have hps : ps <:+ Placed.visible words := (List.suffix_cons p _).trans htail
    rw [takeDotted?, nextToken?_offset h, tokenAt_offset h, Option.bind_eq_bind, Option.bind_some,
      advance?_offset h]
    refine (if_pos hpart).trans ?_
    simp only [Option.bind_eq_bind, Option.bind_some, List.tail_cons, advance?_offset htail,
      getElem?_offset htail, ih hps]
    rfl
  | case2 d p ps hpart =>
    rw [takeDotted?, nextToken?_offset h, tokenAt_offset h, Option.bind_eq_bind, Option.bind_some]
    exact if_neg hpart
  | case3 ws hws =>
    have hpart : ¬ (frontToken ws = .symbol .period ∧ frontToken ws.tail = .ident) := by
      cases ws with
      | nil => simp [frontToken]
      | cons d ps =>
        cases ps with
        | nil => simp [frontToken]
        | cons p ps => exact absurd rfl (hws d p ps)
    rw [takeDotted?, nextToken?_offset h, tokenAt_offset h, Option.bind_eq_bind, Option.bind_some]
    exact if_neg hpart

end

namespace Walk

variable (words : List Word)

/-- The word at the index as a run. -/
def single : Walk (Option Expression) := fun index => do
  return ⟨some ⟨(placedAt words index).toList⟩, [], ← advance? words index⟩

/-- A group in parentheses, if they close. -/
def group : Walk (Option Expression) := fun index => do
  let (items, stop, closed) ← takeGroup? words 0 index
  if closed then return ⟨some ⟨items⟩, [], stop⟩ else refuse words .closingParenthesis stop

/-- A run of words, which must not be empty. -/
def run (stops : (token next : Token) → Bool) (e : Expectation) : Walk (Option Expression) :=
  fun index => do
    let (items, stop) ← takeRun? words stops 0 index
    if items.isEmpty then refuse words e stop else return ⟨some ⟨items⟩, [], stop⟩

/-- A name in parts. -/
def qualifiedName : Walk QualifiedName := fun index => do
  let (parts, stop) ← takeDotted? words (← advance? words index)
  return ⟨⟨(words[index]?.map Word.literal).toList ++ parts⟩, [], stop⟩

end Walk

section

variable {words : List Word}

theorem runs_single : Runs words (Walk.single words) Parse.single where
  forward := Parse.forward_single
  eq {ws} h := by
    rw [Walk.single, placedAt_offset h, advance?_offset h]
    cases ws <;> rfl

theorem runs_group : Runs words (Walk.group words) Parse.group where
  forward := Parse.forward_group
  eq {ws} h := by
    have hrest : (takeGroup 0 ws).rest <:+ Placed.visible words :=
      List.IsSuffix.trans ⟨_, takeGroup_append 0 ws⟩ h
    rw [Walk.group, takeGroup?_eq 0 h, Option.bind_eq_bind, Option.bind_some, Parse.group]
    dsimp only
    split
    · rfl
    · exact (runs_refuse .closingParenthesis).eq hrest

theorem runs_run {stops : Token → Token → Bool} (hstops : ∀ next, stops (.symbol .rparen) next)
    (e : Expectation) : Runs words (Walk.run words stops e) (Parse.run stops e) where
  forward := Parse.forward_run stops e
  eq {ws} h := by
    have hrest : (takeRun stops 0 ws).2 <:+ Placed.visible words :=
      List.IsSuffix.trans ⟨_, takeRun_append stops 0 ws⟩ h
    rw [Walk.run, takeRun?_eq hstops 0 h, Option.bind_eq_bind, Option.bind_some, Parse.run]
    dsimp only
    split
    · exact (runs_refuse e).eq hrest
    · rfl

theorem runs_qualifiedName : Runs words (Walk.qualifiedName words) Grammar.qualifiedName where
  forward := Grammar.forward_qualifiedName
  eq {ws} h := by
    have htail : ws.tail <:+ Placed.visible words := (List.tail_suffix ws).trans h
    rw [Walk.qualifiedName, advance?_offset h, Option.bind_eq_bind, Option.bind_some,
      takeDotted?_eq htail, getElem?_offset h]
    cases ws <;> rfl

end

end SqlScript.Checked
