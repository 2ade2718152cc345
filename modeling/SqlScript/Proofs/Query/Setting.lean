import SqlScript.Proofs.Query.Relabel

/-!
# Query/Setting — parsers look at tokens, and not behind the end of a statement

The words of a statement can be put into another **setting**: their indices and spellings are
changed, and more words follow, the first of which ends the statement.  A parser that is *carried*
into the setting reads there what it reads of the words alone: the same value over relabelled words,
the same faults, and the words it leaves stand in the setting again.  Only at the end of the words
can a parser tell the difference, as the end of the script is now a word; it does not if it treats
all ends of a statement alike (`Token.EndsAlike`).

Carried parsers compose (`Carries.bind`), and so do the three ways of cutting runs off
(`takeRun_place`, `takeGroup_place`, `takeDotted_place`).
-/

namespace SqlScript

/-! ## Ends of a statement -/

namespace Token

variable {α : Type}

/-- All ends of a statement look alike to a function of tokens. -/
def EndsAlike (f : Token → α) : Prop := ∀ t : Token, t.endsStatement = true → f t = f .eof

theorem endsAlike_of_eq {f : Token → α} (hsemicolon : f (.symbol .semicolon) = f .eof)
    (hgo : f (.keyword .GO) = f .eof) : EndsAlike f := by
  intro t ht
  unfold endsStatement at ht
  split at ht
  · rfl
  · exact hsemicolon
  · exact hgo
  · cases ht

/-- A token that is none of the ends is told from all of them. -/
theorem endsAlike_eq {u : Token} (hu : u.endsStatement = false) : EndsAlike fun t => t = u := by
  have hne : ∀ t : Token, t.endsStatement = true → ¬ t = u := by
    rintro t ht rfl
    exact Bool.false_ne_true (hu.symm.trans ht)
  exact fun t ht => propext (iff_of_false (hne t ht) (hne .eof rfl))

end Token

/-! ## Settings -/

/-- Another setting for the words of a statement: other labels for them, and a tail behind them at
which the statement ends. -/
structure Setting extends Relabelling where
  tail : List Placed := []
  ends : (frontToken tail).endsStatement = true := by rfl

namespace Setting

variable {α β γ δ : Type} (s : Setting)

/-- Words in their setting. -/
def place (ws : List Placed) : List Placed := ws.map s.placed ++ s.tail

@[simp] theorem place_nil : s.place [] = s.tail := rfl

@[simp] theorem place_cons (p : Placed) (ps : List Placed) :
    s.place (p :: ps) = s.placed p :: s.place ps := rfl

/-- In a setting that changes no labels, words are followed by the tail. -/
theorem place_of_id (h : s.toRelabelling = {}) (ws : List Placed) : s.place ws = ws ++ s.tail := by
  rw [place, h, Relabelling.placed_id, List.map_id]

/-- **The front of words in their setting shows the token it shows alone**, unless they are at their
end. -/
theorem frontToken_place {f : Token → α} (hf : Token.EndsAlike f) (ws : List Placed) :
    f (frontToken (s.place ws)) = f (frontToken ws) := by
  cases ws with
  | nil => exact hf _ s.ends
  | cons p ps => rfl

/-- The same of the first two tokens, where neither is an end. -/
theorem frontTokens_place {t u : Token} (ht : t.endsStatement = false)
    (hu : u.endsStatement = false) (ws : List Placed) :
    (frontToken (s.place ws) = t ∧ frontToken (s.place ws).tail = u) ↔
      (frontToken ws = t ∧ frontToken ws.tail = u) := by
  have hfront : (frontToken (s.place ws) = t) = (frontToken ws = t) :=
    s.frontToken_place (Token.endsAlike_eq ht) ws
  rw [hfront]
  refine and_congr_right fun h => ?_
  cases ws with
  | nil => exact absurd (h ▸ ht) (by decide)
  | cons p ps => exact iff_of_eq (s.frontToken_place (Token.endsAlike_eq hu) ps)

/-- A fault in its setting: what was found in place of the end is the first word of the tail. -/
def faultPlaced (f : SyntaxFault) : SyntaxFault :=
  { f with found := (f.found.map s.word).or (s.tail.head?.map Placed.word) }

/-- The outcome of parsing in its setting, where `g` says how the value is relabelled. -/
def step (g : α → β) (outcome : Step α) : Step β :=
  ⟨g outcome.value, outcome.faults.map s.faultPlaced, s.place outcome.rest⟩

/-- **`p'` reads words in their setting as `p` reads them alone.** -/
def Carries (g : α → β) (p : Parse α) (p' : Parse β) : Prop :=
  ∀ ws, p' (s.place ws) = s.step g (p ws)

/-! ## Composition -/

open Parse

variable {s}

theorem carries_done {g : α → β} {a : α} {b : β} (h : b = g a) :
    s.Carries g (done a) (done b) := by
  subst h
  exact fun ws => rfl

/-- **Carried parsers compose.** -/
theorem Carries.bind {g : α → β} {h : γ → δ} {p : Parse α} {p' : Parse β} {f : α → Parse γ}
    {f' : β → Parse δ} (hp : s.Carries g p p') (hf : ∀ a, s.Carries h (f a) (f' (g a))) :
    s.Carries h (p >>= f) (p' >>= f') := by
  intro ws
  show andThen p' f' (s.place ws) = s.step h (andThen p f ws)
  simp only [andThen, hp ws, step, hf (p ws).value (p ws).rest, List.map_append]

/-- What is made of a value is carried where the value is. -/
theorem map_place {g : α → β} {h : γ → δ} {p : Parse α} {p' : Parse β} {k : α → γ} {k' : β → δ}
    {ws : List Placed} (hp : p' (s.place ws) = s.step g (p ws)) (hk : ∀ a, k' (g a) = h (k a)) :
    (k' <$> p') (s.place ws) = s.step h ((k <$> p) ws) := by
  show andThen p' (done <| k' ·) (s.place ws) = s.step h (andThen p (done <| k ·) ws)
  simp only [andThen, done, hp, step, hk, List.append_nil]

/-- A choice by the token in front is the same choice in the setting. -/
theorem carries_token_bind {g : α → β} {f : Token → Parse α} {f' : Token → Parse β}
    (hends : Token.EndsAlike f')
    (h : ∀ t ws, frontToken ws = t → f' t (s.place ws) = s.step g (f t ws)) :
    s.Carries g (token >>= f) (token >>= f') := by
  intro ws
  show f' (frontToken (s.place ws)) (s.place ws) = s.step g (f (frontToken ws) ws)
  rw [s.frontToken_place hends]
  exact h _ ws rfl

theorem carries_accept {k : Keyword} (hk : (Token.keyword k).endsStatement = false) :
    s.Carries id (accept k) (accept k) := by
  intro ws
  have hfront : (frontToken (s.place ws) = .keyword k) = (frontToken ws = .keyword k) :=
    s.frontToken_place (Token.endsAlike_eq hk) ws
  simp only [accept, hfront]
  split
  · next h =>
    obtain ⟨p, ps, rfl, -⟩ := exists_cons_of_frontToken h (by simp)
    rfl
  · rfl

theorem carries_acceptPair {k l : Keyword} (hk : (Token.keyword k).endsStatement = false)
    (hl : (Token.keyword l).endsStatement = false) :
    s.Carries id (acceptPair k l) (acceptPair k l) := by
  intro ws
  simp only [acceptPair, s.frontTokens_place hk hl]
  split
  · next h =>
    obtain ⟨p, ps, rfl, -⟩ := exists_cons_of_frontToken h.1 (by simp)
    obtain ⟨q, qs, hqs, -⟩ := exists_cons_of_frontToken h.2 (by simp)
    obtain rfl : ps = q :: qs := hqs
    rfl
  · rfl

/-- A refusal in the setting names the word that stands there. -/
theorem carries_refuse {g : α → β} (e : Expectation) :
    s.Carries (Option.map g) (refuse e) (refuse e) := by
  intro ws
  cases ws <;> rfl

theorem Carries.clause {g : α → β} {k : Keyword} {body : Parse (Option α)}
    {body' : Parse (Option β)} (hk : (Token.keyword k).endsStatement = false)
    (h : s.Carries (Option.map g) body body') :
    s.Carries (Option.map g) (clause k body) (clause k body') :=
  (carries_accept hk).bind fun present => by
    cases present
    · exact carries_done rfl
    · exact h

theorem Carries.andThenSome {g : α → β} {h : γ → δ} {p : Parse (Option α)} {p' : Parse (Option β)}
    {f : α → Parse (Option γ)} {f' : β → Parse (Option δ)} (hp : s.Carries (Option.map g) p p')
    (hf : ∀ a, s.Carries (Option.map h) (f a) (f' (g a))) :
    s.Carries (Option.map h) (andThenSome p f) (andThenSome p' f') :=
  hp.bind fun found => by
    cases found
    · exact carries_done rfl
    · exact hf _

/-! ## Runs of words -/

/-- **A run ends in the setting where it ends alone**, if the boundary treats all ends of a
statement alike when it looks ahead. -/
theorem takeRun_place {stops : Token → Token → Bool} (hstops : ∀ t, Token.EndsAlike (stops t)) :
    ∀ (depth : Nat) (ws : List Placed), takeRun stops depth (s.place ws) =
      ((takeRun stops depth ws).1.map s.placed, s.place (takeRun stops depth ws).2)
  | depth, [] => by
      have hends := s.ends
      rw [place_nil]
      cases htail : s.tail with
      | nil => simp [takeRun, htail]
      | cons t ts =>
        rw [htail] at hends
        have hstop : t.token.endsStatement = true := hends
        simp [takeRun, hstop, htail]
  | depth, p :: ps => by
      have hnext : stops p.token (frontToken (s.place ps)) = stops p.token (frontToken ps) :=
        s.frontToken_place (hstops p.token) ps
      rw [place_cons, takeRun, takeRun]
      simp only [Relabelling.token_placed, hnext]
      split
      · rfl
      · simp [takeRun_place hstops (depthAfter depth p.token) ps]

/-- **A group closes in the setting where it closes alone.** -/
theorem takeGroup_place : ∀ (depth : Nat) (ws : List Placed), takeGroup depth (s.place ws) =
    ⟨(takeGroup depth ws).items.map s.placed, s.place (takeGroup depth ws).rest,
      (takeGroup depth ws).closed⟩
  | depth, [] => by
      have hends := s.ends
      rw [place_nil]
      cases htail : s.tail with
      | nil => simp [takeGroup, htail]
      | cons t ts =>
        rw [htail] at hends
        have hstop : t.token.endsStatement = true := hends
        simp [takeGroup, hstop, htail]
  | depth, p :: ps => by
      rw [place_cons, takeGroup, takeGroup, Relabelling.token_placed]
      by_cases hstop : p.token.endsStatement = true
      · simp only [if_pos hstop]
        rfl
      · by_cases hclosed : depthAfter depth p.token = 0
        · simp only [if_neg hstop, if_pos hclosed]
          rfl
        · simp only [if_neg hstop, if_neg hclosed, takeGroup_place (depthAfter depth p.token) ps]
          rfl

/-- A name ends where no point with an identifier behind it is at the front. -/
theorem takeDotted_of_not {ws : List Placed}
    (h : ¬ (frontToken ws = .symbol .period ∧ frontToken ws.tail = .ident)) :
    takeDotted ws = ([], ws) := by
  unfold takeDotted
  split
  · exact if_neg h
  · rfl

/-- **A name goes on in the setting as far as it goes on alone.** -/
theorem takeDotted_place (ws : List Placed) : takeDotted (s.place ws) =
    ((takeDotted ws).1.map s.literal, s.place (takeDotted ws).2) := by
  have hend : ∀ ws, ¬ (frontToken ws = .symbol .period ∧ frontToken ws.tail = .ident) →
      takeDotted (s.place ws) = ([], s.place ws) := fun ws h =>
    takeDotted_of_not (by rwa [s.frontTokens_place rfl rfl])
  fun_induction takeDotted ws with
  | case1 d p ps h more ih =>
    have hgoesOn : (s.placed d).token = .symbol .period ∧ (s.placed p).token = .ident := h
    rw [place_cons, place_cons, takeDotted, if_pos hgoesOn, ih]
    rfl
  | case2 d p ps h => exact hend _ h
  | case3 ws h =>
    refine hend ws ?_
    rintro ⟨-, hident⟩
    cases ws with
    | nil => cases hident
    | cons d ds =>
      obtain ⟨p, ps, rfl, -⟩ := exists_cons_of_frontToken hident (by simp)
      exact h d p ps rfl

theorem carries_group : s.Carries (Option.map s.expression) group group := by
  intro ws
  simp only [group, takeGroup_place]
  split
  · rfl
  · exact carries_refuse _ _

theorem carries_run {stops : Token → Token → Bool} (hstops : ∀ t, Token.EndsAlike (stops t))
    (x : Expectation) : s.Carries (Option.map s.expression) (run stops x) (run stops x) := by
  intro ws
  simp only [run, takeRun_place hstops, List.isEmpty_map]
  split
  · exact carries_refuse _ _
  · rfl

end Setting

end SqlScript
