import SqlScript.Proofs.Checked.Bytes
import SqlScript.Proofs.Checked.Cursor
import SqlScript.Proofs.Place.Counting

/-!
# Proofs/Checked/Place — looking up a position, with every cut checked

    starts   0    9   17          offset 12   ──▸   line 2, start 9, column 12 - 9 + 1

The line of an offset is searched for among the starts of lines.  An offset at which no line starts
belongs to the line before the one that would start there, and there is one, because the first line
starts at byte 0 (`lineOf?_eq`).  An index built from the bytes of a text thus gives a position for
every offset, past the end and inside of a character too (`position?_eq`).
-/

namespace SqlScript.Checked

open SqlScript.Text

/-! ## The line of an offset -/

/-- Where a number stands in a sorted list, or, as an error, where it would be put in. -/
def search (starts : List Nat) (offset : Nat) : Except Nat Nat :=
  let before := starts.takeWhile (· < offset)
  if starts[before.length]? = some offset then .ok before.length else .error before.length

/-- The index of the line that holds an offset. -/
def lineOf? (starts : List Nat) (offset : Nat) : Option Nat :=
  match search starts offset with
  | .ok exact => some exact
  | .error next => sub? next 1

theorem lineOf?_def (starts : List Nat) (offset : Nat) :
    lineOf? starts offset =
      if starts[(starts.takeWhile (· < offset)).length]? = some offset then
        some (starts.takeWhile (· < offset)).length
      else sub? (starts.takeWhile (· < offset)).length 1 := by
  simp only [lineOf?, search]
  split
  · next h =>
    split at h <;> cases h
    rw [if_pos ‹_›]
  · next h =>
    split at h <;> cases h
    rw [if_neg ‹_›]

/-- A line that starts before the offset moves its line on. -/
theorem lineOf?_cons {first offset line : Nat} {starts : List Nat} (hfirst : first < offset)
    (h : lineOf? starts offset = some line) :
    lineOf? (first :: starts) offset = some (line + 1) := by
  rw [lineOf?_def] at h ⊢
  rw [List.takeWhile_cons_of_pos (by simpa using hfirst), List.length_cons,
    List.getElem?_cons_succ]
  split at h
  · next hexact =>
    rw [if_pos hexact]
    exact congrArg (Option.map (· + 1)) h
  · next hexact =>
    rw [if_neg hexact]
    unfold sub? at h ⊢
    split at h
    · cases h
      rw [if_pos (by omega)]
      exact congrArg some (by omega)
    · cases h

/-- The offset is in the first line if the next line starts behind it. -/
theorem lineOf?_of_lt {first offset : Nat} {starts : List Nat} (hfirst : first ≤ offset)
    (hnext : ∀ n ∈ starts.head?, offset < n) : lineOf? (first :: starts) offset = some 0 := by
  have hstarts : starts.takeWhile (· < offset) = [] := by
    cases starts with
    | nil => rfl
    | cons n ns =>
      have hn := hnext n rfl
      exact List.takeWhile_cons_of_neg (by simp only [decide_eq_true_eq]; omega)
  rw [lineOf?_def]
  rcases Nat.lt_or_eq_of_le hfirst with hlt | rfl
  · have hexact : starts[0]? ≠ some offset := fun hexact => by
      rw [← List.head?_eq_getElem?] at hexact
      exact Nat.lt_irrefl _ (hnext offset hexact)
    rw [List.takeWhile_cons_of_pos (by simpa using hlt), hstarts, List.length_singleton,
      List.getElem?_cons_succ, if_neg hexact]
    rfl
  · rw [List.takeWhile_cons_of_neg (by simp)]
    exact if_pos rfl

/-- **The line of an offset is the last one that starts at it or before it.** -/
theorem lineOf?_eq {first offset : Nat} {starts : List Nat}
    (hsorted : (first :: starts).Pairwise (· < ·)) (hfirst : first ≤ offset) :
    lineOf? (first :: starts) offset = some (starts.takeWhile (· ≤ offset)).length := by
  induction starts generalizing first with
  | nil => exact lineOf?_of_lt hfirst (by simp)
  | cons n ns ih =>
    obtain ⟨hlt, hns⟩ := List.pairwise_cons.mp hsorted
    by_cases hn : n ≤ offset
    · rw [List.takeWhile_cons_of_pos (by simpa using hn), List.length_cons]
      exact lineOf?_cons (Nat.lt_of_lt_of_le (hlt n List.mem_cons_self) hn) (ih hns hn)
    · rw [List.takeWhile_cons_of_neg (by simpa using hn)]
      exact lineOf?_of_lt hfirst (by simpa using hn)

/-! ## Positions -/

/-- The line and column of an offset. -/
def lineColumn? (starts : List Nat) (source : List Char) (offset : Nat) : Option (Nat × Nat) := do
  let offset := min offset (width source)
  let line ← lineOf? starts offset
  let start ← starts[line]?
  let marked ← startsWith? source 0 [byteOrderMark]
  let start := if line = 0 ∧ marked then byteOrderMark.utf8Size else start
  let offset := max offset start
  match slice? source start offset with
  | some text => return (line + 1, text.length + 1)
  | none => return (line + 1, (← sub? offset start) + 1)

/-- The position of an offset, by an index built from the bytes of the text. -/
def position? (name : String) (source : List Char) (offset : Nat) : Option Position := do
  let starts ← lineStarts? (bytes source) 0
  let (line, column) ← lineColumn? (0 :: starts) source offset
  return ⟨name, line, column⟩

/-- The last of the starts in front of a place. -/
theorem getElem?_length_takeWhile (p : Nat → Bool) (first : Nat) (starts : List Nat) :
    (first :: starts)[(starts.takeWhile p).length]? =
      some ((starts.takeWhile p).getLastD first) := by
  induction starts generalizing first with
  | nil => rfl
  | cons n ns ih =>
    by_cases hn : p n = true
    · rw [List.takeWhile_cons_of_pos hn, List.length_cons, List.getElem?_cons_succ, ih,
        List.getLastD_cons]
    · rw [List.takeWhile_cons_of_neg hn]
      rfl

theorem lineColumn?_eq (cs : List Char) (offset : Nat) :
    lineColumn? (0 :: LineIndex.startsFrom 0 cs) cs offset =
      some ((LineIndex.ofText cs).lineColumn cs offset) := by
  have hsorted : (0 :: LineIndex.startsFrom 0 cs).Pairwise (· < ·) :=
    List.pairwise_cons.mpr ⟨fun n hn => LineIndex.lt_of_mem_startsFrom hn,
      LineIndex.pairwise_startsFrom 0 cs⟩
  rw [lineColumn?, lineOf?_eq hsorted (Nat.zero_le _), LineIndex.lineColumn_ofText]
  simp only [Option.bind_eq_bind, Option.bind_some, getElem?_length_takeWhile,
    (at_zero cs).startsWith?_eq]
  generalize (LineIndex.startsFrom 0 cs).takeWhile _ = before
  have hstart : (if before.length = 0 ∧ [byteOrderMark].isPrefixOf cs then byteOrderMark.utf8Size
      else before.getLastD 0) = before.getLastD (LineIndex.firstColumn cs) := by
    cases before with
    | nil => simp only [List.length_nil, true_and, isPrefixOf_singleton, LineIndex.firstColumn,
        List.getLastD_nil]
    | cons n ns => rw [if_neg (by simp), List.getLastD_cons, List.getLastD_cons]
  rw [hstart]
  generalize before.getLastD (LineIndex.firstColumn cs) = start
  rw [sub?_eq (Nat.le_max_right _ start)]
  cases slice? cs start (max (min offset (width cs)) start) <;> rfl

/-- **Every offset has a position.** -/
theorem position?_eq (name source : String) (offset : Nat) :
    position? name source.toList offset = some ((Script.scan name source).position offset) := by
  rw [position?, lineStarts?_eq (atByte_zero _)]
  simp only [Option.bind_eq_bind, Option.bind_some, lineColumn?_eq]
  rfl

end SqlScript.Checked
