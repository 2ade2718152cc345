import Mathlib.Data.Prod.Lex
import SqlScript.Place.LineIndex

/-!
# Proofs/Place/Counting — lines and columns by counting characters

The line index finds a place from byte offsets.  Between two characters it gives what a reader gives
who counts them from the start (`lineColumn_eq_placeFrom`): a character that ends its line leads to
the first column of the next line, any other to the next column (`placeBehind`).  The place in front
of a text thus depends on the text before it and on one character behind it only, and every
character leads further (`lt_placeFrom`).
-/

namespace SqlScript.LineIndex

open SqlScript.Text

/-! ## Counting -/

/-- A character ends its line when `next` stands behind it: in a pair of carriage return and line
feed only the second one does. -/
def endsLine (c : Char) (next : Option Char) : Bool :=
  c = '\n' || (c = '\r' && next ≠ some '\n')

/-- The line and column behind a character. -/
def placeBehind (place : Nat × Nat) (c : Char) (next : Option Char) : Nat × Nat :=
  if endsLine c next then (place.1 + 1, 1) else (place.1, place.2 + 1)

/-- The line and column behind a text that goes on with `next`. -/
def placeFrom (place : Nat × Nat) : List Char → (next : Option Char) → Nat × Nat
  | [], _ => place
  | c :: cs, next => placeFrom (placeBehind place c (cs.head?.or next)) cs next

theorem placeFrom_append (place : Nat × Nat) (as bs : List Char) (next : Option Char) :
    placeFrom place (as ++ bs) next =
      placeFrom (placeFrom place as (bs.head?.or next)) bs next := by
  induction as generalizing place with
  | nil => rfl
  | cons a as ih => simp only [List.cons_append, placeFrom, ih, List.head?_append, Option.or_assoc]

/-- A character leads further. -/
theorem lt_placeBehind (place : Nat × Nat) (c : Char) (next : Option Char) :
    toLex place < toLex (placeBehind place c next) := by
  rw [Prod.Lex.toLex_lt_toLex, placeBehind]
  split
  · exact .inl (Nat.lt_succ_self _)
  · exact .inr ⟨rfl, Nat.lt_succ_self _⟩

/-- **Every text leads further**, unless it is empty. -/
theorem lt_placeFrom (place : Nat × Nat) {cs : List Char} (hne : cs ≠ []) (next : Option Char) :
    toLex place < toLex (placeFrom place cs next) := by
  induction cs generalizing place with
  | nil => exact absurd rfl hne
  | cons c cs ih =>
    have hfirst := lt_placeBehind place c (cs.head?.or next)
    rw [placeFrom]
    rcases eq_or_ne cs [] with rfl | hcs
    · exact hfirst
    · exact hfirst.trans (ih _ hcs)

/-! ## Line starts -/

/-- Line starts come one character at a time. -/
theorem startsFrom_eq (pos : Nat) (c : Char) (cs : List Char) :
    startsFrom pos (c :: cs) =
      if endsLine c cs.head? then (pos + c.utf8Size) :: startsFrom (pos + c.utf8Size) cs
      else startsFrom (pos + c.utf8Size) cs := by
  by_cases hpair : c = '\r' ∧ cs.head? = some '\n'
  · obtain ⟨rfl, hfeed⟩ := hpair
    obtain ⟨ds, rfl⟩ := List.head?_eq_some_iff.mp hfeed
    rw [startsFrom, startsFrom_cons (by simp)]
    rfl
  · have hends : endsLine c cs.head? = true ↔ c = '\r' ∨ c = '\n' := by
      simp only [endsLine, Bool.or_eq_true, decide_eq_true_eq, Bool.and_eq_true]
      constructor
      · exact fun h => h.symm.imp_left And.left
      · exact fun h => h.symm.imp_right fun hc => ⟨hc, fun hfeed => hpair ⟨hc, hfeed⟩⟩
    simp only [startsFrom_cons hpair, hends]

theorem lt_of_mem_startsFrom {pos n : Nat} {cs : List Char} (h : n ∈ startsFrom pos cs) :
    pos < n := by
  induction cs generalizing pos with
  | nil => cases h
  | cons c cs ih =>
    have hpos := c.utf8Size_pos
    rw [startsFrom_eq] at h
    split at h
    · rcases List.mem_cons.mp h with rfl | h
      · omega
      · exact Nat.lt_trans (by omega) (ih h)
    · exact Nat.lt_trans (by omega) (ih h)

/-- Lines start one behind the other. -/
theorem pairwise_startsFrom (pos : Nat) (cs : List Char) :
    (startsFrom pos cs).Pairwise (· < ·) := by
  induction cs generalizing pos with
  | nil => exact List.Pairwise.nil
  | cons c cs ih =>
    rw [startsFrom_eq]
    split
    · exact List.pairwise_cons.mpr ⟨fun n hn => lt_of_mem_startsFrom hn, ih _⟩
    · exact ih _

/-- No line starts at the very place from which starts are looked for. -/
theorem takeWhile_startsFrom_self (pos : Nat) (cs : List Char) :
    (startsFrom pos cs).takeWhile (· ≤ pos) = [] := by
  cases hstarts : startsFrom pos cs with
  | nil => rfl
  | cons n ns =>
    have hn : pos < n := lt_of_mem_startsFrom (hstarts ▸ List.mem_cons_self)
    exact List.takeWhile_cons_of_neg (by simpa using hn)

/-- **The line starts up to an offset are counted off**: behind `done`, which ends where the current
line starts, and a part `line` of that line, the text `front` leads to as many new lines as there
are starts, and the last of them ends what is done then. -/
theorem exists_line (front back done line : List Char) (n : Nat) :
    ∃ done' line', done' ++ line' = done ++ line ++ front ∧
      let before := (startsFrom (width (done ++ line)) (front ++ back)).takeWhile
        (· ≤ width (done ++ line ++ front))
      width done' = before.getLastD (width done) ∧
      placeFrom (n, line.length + 1) front back.head? = (n + before.length, line'.length + 1) := by
  induction front generalizing done line n with
  | nil =>
    refine ⟨done, line, (List.append_nil _).symm, ?_⟩
    simp only [List.append_nil, List.nil_append, takeWhile_startsFrom_self]
    exact ⟨rfl, rfl⟩
  | cons c front ih =>
    have hwidth : width (done ++ line) + c.utf8Size = width (done ++ line ++ [c]) := by
      rw [width_append (done ++ line) [c]]
      rfl
    have hnext : front.head?.or back.head? = (front ++ back).head? := List.head?_append.symm
    have happ : done ++ line ++ c :: front = done ++ line ++ [c] ++ front := by simp
    rw [placeFrom, placeBehind, hnext, List.cons_append, startsFrom_eq, hwidth, happ]
    split
    · -- The character ends the line.
      obtain ⟨done', line', htext, hdone, hplace⟩ := ih (done ++ line ++ [c]) [] (n + 1)
      rw [List.append_nil] at htext hdone hplace
      refine ⟨done', line', htext, ?_⟩
      rw [List.takeWhile_cons_of_pos (by simp)]
      refine ⟨by rw [hdone, List.getLastD_cons], ?_⟩
      rw [List.length_cons, ← Nat.add_assoc, ← Nat.add_right_comm]
      exact hplace
    · -- The line goes on.
      obtain ⟨done', line', htext, hdone, hplace⟩ := ih done (line ++ [c]) n
      rw [← List.append_assoc] at htext hdone hplace
      rw [List.length_append, List.length_singleton] at hplace
      exact ⟨done', line', htext, hdone, hplace⟩

/-! ## Places -/

/-- A place in terms of the starts of all lines but the first. -/
theorem lineColumn_ofText (cs : List Char) (offset : Nat) :
    (ofText cs).lineColumn cs offset =
      let offset := min offset (width cs)
      let before := (startsFrom 0 cs).takeWhile (· ≤ offset)
      let lineStart := before.getLastD (firstColumn cs)
      let offset := max offset lineStart
      let column := (slice? cs lineStart offset).elim (offset - lineStart) List.length
      (before.length + 1, column + 1) := by
  have hbefore : (ofText cs).starts.takeWhile (· ≤ min offset (ofText cs).size) =
      0 :: (startsFrom 0 cs).takeWhile (· ≤ min offset (width cs)) :=
    List.takeWhile_cons_of_pos (by simp)
  simp only [lineColumn, hbefore, List.length_cons]
  rw [show (ofText cs).size = width cs from rfl]
  generalize (startsFrom 0 cs).takeWhile _ = before
  have hline : (if before.length + 1 ≤ 1 then firstColumn cs else (0 :: before).getLastD 0) =
      before.getLastD (firstColumn cs) := by
    cases before with
    | nil => rfl
    | cons n ns => rw [if_neg (by simp), List.getLastD_cons, List.getLastD_cons, List.getLastD_cons]
  rw [hline]
  cases slice? cs _ _ <;> rfl

/-- A byte-order mark, where the columns of the first line leave it out, starts no line. -/
theorem startsFrom_mark {mark cs : List Char} (h : firstColumn (mark ++ cs) = width mark) :
    startsFrom 0 (mark ++ cs) = startsFrom (width mark) cs := by
  cases mark with
  | nil => rfl
  | cons c mark =>
    have hpos := c.utf8Size_pos
    rw [firstColumn, width_cons] at h
    split at h
    · next hhead =>
      obtain rfl : c = byteOrderMark := by simpa using hhead
      cases mark with
      | nil =>
        rw [List.singleton_append, startsFrom_eq, if_neg (by simp [endsLine, byteOrderMark])]
        rfl
      | cons d mark =>
        have := d.utf8Size_pos
        rw [width_cons] at h
        omega
    · omega

/-- **A place between two characters is found by counting** from behind the byte-order mark. -/
theorem lineColumn_eq_placeFrom {mark front back : List Char}
    (hmark : firstColumn (mark ++ (front ++ back)) = width mark) :
    (ofText (mark ++ (front ++ back))).lineColumn (mark ++ (front ++ back))
      (width mark + width front) = placeFrom (1, 1) front back.head? := by
  obtain ⟨done, line, htext, hdone, hplace⟩ := exists_line front back mark [] 1
  simp only [List.append_nil, width_append, List.length_nil, Nat.zero_add] at htext hdone hplace
  have hsize : min (width mark + width front) (width (mark ++ (front ++ back))) =
      width mark + width front := by
    simp only [width_append]
    omega
  have hline : width mark + width front = width done + width line := by
    rw [← width_append, ← width_append, htext]
  have hslice := slice?_append done line back
  rw [← List.append_assoc, htext, List.append_assoc] at hslice
  simp only [lineColumn_ofText, hsize, startsFrom_mark hmark, hmark, ← hdone]
  rw [hline, Nat.max_eq_left (Nat.le_add_right _ _), hslice, ← hline, hplace, Nat.add_comm 1]
  rfl

end SqlScript.LineIndex
