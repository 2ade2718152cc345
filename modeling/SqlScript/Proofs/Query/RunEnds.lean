import SqlScript.Proofs.Query.Balance

/-!
# Query/RunEnds — where runs and groups end, whatever the words

    (  a  ,  b  )  +  c   |  ,          a run ends in front of a boundary outside parentheses
    (  a  ,  b              |  ;          …or of the end of the statement, wherever that is

`takeRun` looks for a boundary before it counts a parenthesis, so a run never closes a parenthesis
that it did not open, as long as a closing one is a boundary (`takeRun_runsUpTo`).  A boundary may
depend on the word behind; a word that stays because of the next one takes it along, so a run can be
judged by its own words (`RunsUpTo.goesOn_inside`).  A group that closes does so at its last word
and not before (`groupsFrom_takeGroup`).
-/

namespace SqlScript

/-! ## Runs -/

/-- **A run as it is cut off in front of `rest`**, with `depth` parentheses open before it: it
closes no more of them than are open, goes on at every word outside of them, and ends at the end of
the statement or, outside parentheses, at a boundary. -/
structure RunsUpTo (stops : (token next : Token) → Bool) (depth : Nat) (ws rest : List Placed) :
    Prop where
  nonneg : ∀ front, front <+: ws → 0 ≤ depth + balance front
  goesOn : ∀ front p behind, ws = front ++ p :: behind → depth + balance front = 0 →
    stops p.token (frontToken (behind ++ rest)) = false
  ends : (frontToken rest).endsStatement = true ∨
    depth + balance ws = 0 ∧ stops (frontToken rest) (frontToken rest.tail) = true

namespace RunsUpTo

variable {stops : Token → Token → Bool} {depth : Nat} {p : Placed} {ws rest : List Placed}

/-- Nothing is cut off at an end. -/
theorem nil (h : (frontToken rest).endsStatement = true ∨
    depth = 0 ∧ stops (frontToken rest) (frontToken rest.tail) = true) :
    RunsUpTo stops depth [] rest where
  nonneg front hfront := by
    rw [List.prefix_nil.mp hfront]
    simp
  goesOn front p behind hsplit := absurd hsplit (by simp)
  ends := h.imp_right fun ⟨hzero, hstop⟩ => ⟨by simp [hzero], hstop⟩

/-- One more word in front, at which the run goes on. -/
theorem cons (hdepth : (depthAfter depth p.token : Int) = depth + p.token.nesting)
    (hp : depth = 0 → stops p.token (frontToken (ws ++ rest)) = false)
    (h : RunsUpTo stops (depthAfter depth p.token) ws rest) :
    RunsUpTo stops depth (p :: ws) rest where
  nonneg front hfront := by
    rcases List.prefix_cons_iff.mp hfront with rfl | ⟨front, rfl, hmore⟩
    · simp
    · have hnonneg := h.nonneg front hmore
      rw [balance_cons]
      omega
  goesOn front q behind hsplit hzero := by
    rcases List.cons_eq_append_iff.mp hsplit with ⟨rfl, hcons⟩ | ⟨front, rfl, hmore⟩
    · obtain ⟨rfl, rfl⟩ := List.cons.inj hcons
      exact hp (by simpa using hzero)
    · refine h.goesOn front q behind hmore ?_
      rw [balance_cons] at hzero
      omega
  ends := by
    refine h.ends.imp_right fun ⟨hzero, hstop⟩ => ⟨?_, hstop⟩
    rw [balance_cons]
    omega

end RunsUpTo

theorem Token.neg_one_le_nesting (t : Token) : -1 ≤ t.nesting := by
  unfold Token.nesting
  split <;> decide

theorem Token.eq_rparen_of_nesting {t : Token} (h : t.nesting < 0) : t = .symbol .rparen := by
  unfold Token.nesting at h
  split at h
  · exact absurd h (by decide)
  · rfl
  · exact absurd h (by decide)

/-- **A run is cut off where it ends**, if a closing parenthesis is a boundary: by induction along
the words, at any depth. -/
theorem takeRun_runsUpTo {stops : Token → Token → Bool}
    (hstops : ∀ next, stops (.symbol .rparen) next = true) (depth : Nat) (ws : List Placed) :
    RunsUpTo stops depth (takeRun stops depth ws).1 (takeRun stops depth ws).2 := by
  induction ws generalizing depth with
  | nil => exact .nil (.inl rfl)
  | cons p ps ih =>
    rw [takeRun]
    split
    · next hend =>
      refine .nil ((Bool.or_eq_true_iff.mp hend).imp_right fun hstop => ?_)
      obtain ⟨hzero, hstop⟩ := Bool.and_eq_true_iff.mp hstop
      exact ⟨beq_iff_eq.mp hzero, hstop⟩
    · next hgoesOn =>
      have hstop : depth = 0 → stops p.token (frontToken ps) = false := by
        rintro rfl
        exact (Bool.or_eq_false_iff.mp (Bool.eq_false_iff.mpr hgoesOn)).2
      -- a parenthesis that closes none of the run would have ended it
      have hdepth : (depthAfter depth p.token : Int) = depth + p.token.nesting := by
        refine depthAfter_eq (Int.not_lt.mp fun hneg => ?_)
        have hleast := p.token.neg_one_le_nesting
        have hrparen := Token.eq_rparen_of_nesting (t := p.token) (by omega)
        have hzero : depth = 0 := by omega
        rw [hrparen, hstops] at hstop
        exact absurd (hstop hzero) (by simp)
      refine .cons hdepth ?_ (ih _)
      rwa [takeRun_append]

/-- A word at which a run goes on only because of the word behind it takes that word along. -/
def TakesAlong (stops : (token next : Token) → Bool) : Prop :=
  ∀ t next, stops t next = false → stops t .eof = true →
    next.endsStatement = false ∧ ∀ next', stops next next' = false

/-- **Outside parentheses the words of a run allow it to go on**, without a look at what follows
it. -/
theorem RunsUpTo.goesOn_inside {stops : Token → Token → Bool} (hstops : TakesAlong stops)
    {depth : Nat} {ws rest front behind : List Placed} {p : Placed}
    (h : RunsUpTo stops depth ws rest)
    (hsplit : ws = front ++ p :: behind) (hzero : depth + balance front = 0) :
    stops p.token (frontToken behind) = false := by
  have hgoesOn := h.goesOn front p behind hsplit hzero
  cases behind with
  | cons q qs => exact hgoesOn
  | nil =>
    refine Bool.eq_false_iff.mpr fun hstop => ?_
    obtain ⟨hinside, hnext⟩ := hstops _ _ hgoesOn hstop
    rcases h.ends with hends | ⟨-, hstop⟩
    · exact absurd (hinside.symm.trans hends) (by simp)
    · exact absurd ((hnext _).symm.trans hstop) (by simp)

/-! ## Groups -/

theorem GroupsFrom.cons {depth : Nat} {p : Placed} {ws : List Placed}
    (hp : p.token.endsStatement = false)
    (hdepth : (depthAfter depth p.token : Int) = depth + p.token.nesting)
    (hpos : 0 < depthAfter depth p.token) (h : GroupsFrom (depthAfter depth p.token) ws) :
    GroupsFrom depth (p :: ws) where
  ne_nil := List.cons_ne_nil p ws
  inside := List.forall_mem_cons.mpr ⟨hp, h.inside⟩
  opened i hi hpos' := by
    obtain ⟨i, rfl⟩ := Nat.exists_eq_succ_of_ne_zero (Nat.ne_of_gt hpos')
    rw [List.take_succ_cons, balance_cons]
    rcases Nat.eq_zero_or_pos i with rfl | hi'
    · rw [List.take_zero, balance_nil]
      omega
    · have hopened := h.opened i (Nat.lt_of_succ_lt_succ hi) hi'
      omega
  closed := by
    have hclosed := h.closed
    rw [balance_cons]
    omega

/-- **A group that closes is a group**: by induction along the words, where a parenthesis is open or
opens. -/
theorem groupsFrom_takeGroup {depth : Nat} {ws : List Placed}
    (hopen : 0 < depth ∨ frontToken ws = .symbol .lparen)
    (h : (takeGroup depth ws).closed = true) : GroupsFrom depth (takeGroup depth ws).items := by
  induction ws generalizing depth with
  | nil => cases h
  | cons p ps ih =>
    have hdepth : (depthAfter depth p.token : Int) = depth + p.token.nesting := by
      refine depthAfter_eq ?_
      rcases hopen with hpos | hparen
      · have hleast := p.token.neg_one_le_nesting
        omega
      · rw [show p.token = .symbol .lparen from hparen]
        exact Int.add_nonneg (Int.natCast_nonneg _) (by decide)
    rw [takeGroup] at h ⊢
    split at h
    · cases h
    · next hinside =>
      rw [if_neg hinside]
      have hp := Bool.eq_false_iff.mpr hinside
      split at h
      · next hzero =>
        rw [if_pos hzero]
        refine ⟨List.cons_ne_nil _ _, by simpa using hp, fun i hi hpos => ?_, ?_⟩
        · rw [List.length_singleton] at hi
          omega
        · rw [balance_cons, balance_nil]
          omega
      · next hne =>
        rw [if_neg hne]
        have hpos := Nat.pos_of_ne_zero hne
        exact .cons hp hdepth hpos (ih (.inl hpos) h)

end SqlScript
