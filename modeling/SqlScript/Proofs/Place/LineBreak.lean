import Mathlib.Data.Set.Card
import SqlScript.Proofs.Place.Counting
import SqlScript.Proofs.Script.Lossless

/-!
# Proofs/Place/LineBreak — lines and columns by the breaks between lines

    a  b  CR LF  c  CR LF  LF  d          offset 5, behind c: line 2,
    ╰─ line 1 ╯  ╰── 2 ─╯  3   4          which starts behind the break at 2 .. 4

A carriage return and a line feed together are one line break, and either of them alone is one
(`IsLineBreak`).  The line of an offset is told by the breaks that end at it or before it: there is
one line more than these breaks, and its columns are counted from the end of the last of them.  The
line index finds exactly that for every offset, also past the end, between the two characters of a
break and inside of a character (`LineIndex.isPlace_lineColumn`).
-/

namespace SqlScript

open SqlScript.Text

/-! ## Line breaks -/

/-- **The line breaks of a text**, as spans of bytes. -/
inductive IsLineBreak (cs : List Char) : Span → Prop
  /-- A carriage return and a line feed are one break. -/
  | pair {front back : List Char} (h : cs = front ++ '\r' :: '\n' :: back) :
      IsLineBreak cs ⟨width front, width front + 2⟩
  /-- A line feed alone. -/
  | feed {front back : List Char} (h : cs = front ++ '\n' :: back)
      (halone : front.getLast? ≠ some '\r') : IsLineBreak cs ⟨width front, width front + 1⟩
  /-- A carriage return alone. -/
  | carriage {front back : List Char} (h : cs = front ++ '\r' :: back)
      (halone : back.head? ≠ some '\n') : IsLineBreak cs ⟨width front, width front + 1⟩

/-- The line breaks that end at an offset or before it. -/
def breaksUpTo (cs : List Char) (offset : Nat) : Set Span :=
  {b | IsLineBreak cs b ∧ b.stop ≤ offset}

/-- Where the line of an offset starts: at the end of the last break up to it; where there is none,
at the start of the text, behind the byte-order mark. -/
def IsLineStart (cs : List Char) (offset start : Nat) : Prop :=
  IsGreatest (Span.stop '' breaksUpTo cs offset) start ∨
    breaksUpTo cs offset = ∅ ∧ start = if cs.head? = some byteOrderMark then 3 else 0

/-- The column of an offset in a line that starts at `start`: characters are counted between
characters, and bytes inside of one. -/
structure IsColumn (cs : List Char) (start offset column : Nat) : Prop where
  first : offset ≤ start → column = 1
  between : start < offset → IsBoundary cs offset →
    ∃ text, slice? cs start offset = some text ∧ column = text.length + 1
  inside : start < offset → ¬ IsBoundary cs offset → column = offset - start + 1

/-- **A line and a column counted from the start of the text.** -/
structure IsPlace (cs : List Char) (offset : Nat) (place : Nat × Nat) : Prop where
  line : place.1 = (breaksUpTo cs offset).encard + 1
  column : ∃ start, IsLineStart cs offset start ∧ IsColumn cs start offset place.2

/-! ## Slices between characters -/

namespace Text

/-- Two front parts of a text of one width are the same. -/
theorem eq_of_width_eq {as as' bs bs' : List Char} (h : as ++ bs = as' ++ bs')
    (hwidth : width as = width as') : as = as' := by
  have htake := takeBytes?_width_append as bs
  rw [h, hwidth, takeBytes?_width_append] at htake
  exact (Option.some.inj htake).symm

end Text

/-- **A text is cut out between characters.** -/
theorem IsBoundary.exists_slice? {cs : List Char} {m n : Nat} (hm : IsBoundary cs m)
    (hn : IsBoundary cs n) (hle : m ≤ n) : ∃ text, slice? cs m n = some text := by
  obtain ⟨front, back, rfl, rfl⟩ := hm
  obtain ⟨front', back', happ, rfl⟩ := hn
  rcases List.append_eq_append_iff.mp happ with ⟨mid, rfl, rfl⟩ | ⟨mid, rfl, rfl⟩
  · exact ⟨mid, by rw [width_append, slice?_append]⟩
  · obtain rfl : mid = [] := by
      by_contra hne
      have hpos := width_pos_of_ne_nil hne
      rw [width_append] at hle
      omega
    exact ⟨[], by simp [slice?, dropBytes?_width_append]⟩

/-- A text that is cut out ends between characters. -/
theorem isBoundary_of_slice? {cs text : List Char} {m n : Nat} (h : slice? cs m n = some text) :
    IsBoundary cs n := by
  unfold slice? at h
  split at h
  · next hle =>
    obtain ⟨back, hdrop, htake⟩ := Option.bind_eq_some_iff.mp h
    obtain ⟨front, rfl, rfl⟩ := exists_append_of_dropBytes? hdrop
    cases hrest : dropBytes? (n - width front) back with
    | none => simp [takeBytes?_eq_none hrest] at htake
    | some rest =>
      obtain ⟨mid, rfl, hwidth⟩ := exists_append_of_dropBytes? hrest
      exact ⟨front ++ mid, rest, (List.append_assoc _ _ _).symm, by rw [width_append]; omega⟩
  · cases h

/-- The column of an offset is counted as soon as its line starts between characters. -/
theorem isColumn_slice? {cs : List Char} {start : Nat} (hstart : IsBoundary cs start)
    (offset : Nat) :
    IsColumn cs start offset
      ((slice? cs start (max offset start)).elim (max offset start - start) List.length + 1) where
  first hle := by
    obtain ⟨front, back, rfl, rfl⟩ := hstart
    have hempty := slice?_append front [] back
    rw [List.nil_append, width_nil, Nat.add_zero] at hempty
    rw [Nat.max_eq_right hle, hempty]
    rfl
  between hlt hbound := by
    obtain ⟨text, htext⟩ := hstart.exists_slice? hbound hlt.le
    exact ⟨text, htext, by rw [Nat.max_eq_left hlt.le, htext]; rfl⟩
  inside hlt hbound := by
    have hnone : slice? cs start offset = none :=
      Option.eq_none_iff_forall_ne_some.mpr fun text htext => hbound (isBoundary_of_slice? htext)
    rw [Nat.max_eq_left hlt.le, hnone]
    rfl

/-! ## Breaks by the characters that end lines -/

/-- The line break that ends with the character `c` behind `front`. -/
def breakAt (front : List Char) (c : Char) : Span :=
  ⟨if c = '\n' ∧ front.getLast? = some '\r' then width front - 1 else width front,
    width (front ++ [c])⟩

theorem breakAt_pair (front : List Char) :
    breakAt (front ++ ['\r']) '\n' = ⟨width front, width front + 2⟩ := by
  have hwidth : width (front ++ ['\r']) = width front + 1 := width_append front ['\r']
  rw [breakAt, if_pos (by simp), width_append (front ++ ['\r']), hwidth]
  rfl

theorem breakAt_feed {front : List Char} (halone : front.getLast? ≠ some '\r') :
    breakAt front '\n' = ⟨width front, width front + 1⟩ := by
  rw [breakAt, if_neg fun h => halone h.2, width_append]
  rfl

theorem breakAt_carriage (front : List Char) :
    breakAt front '\r' = ⟨width front, width front + 1⟩ := by
  rw [breakAt, if_neg (by simp), width_append]
  rfl

/-- **A line break ends with a character that ends its line**, and every such character ends one. -/
theorem isLineBreak_iff {cs : List Char} {b : Span} :
    IsLineBreak cs b ↔ ∃ front c back, cs = front ++ c :: back ∧
      LineIndex.endsLine c back.head? = true ∧ b = breakAt front c := by
  constructor
  · intro hbreak
    cases hbreak with
    | @pair front back h =>
      exact ⟨front ++ ['\r'], '\n', back, by simp [h], rfl, (breakAt_pair front).symm⟩
    | @feed front back h halone =>
      exact ⟨front, '\n', back, h, rfl, (breakAt_feed halone).symm⟩
    | @carriage front back h halone =>
      exact ⟨front, '\r', back, h, by simp [LineIndex.endsLine, halone],
        (breakAt_carriage front).symm⟩
  · rintro ⟨front, c, back, rfl, hends, rfl⟩
    simp only [LineIndex.endsLine, Bool.or_eq_true, decide_eq_true_eq, Bool.and_eq_true] at hends
    rcases hends with rfl | ⟨rfl, halone⟩
    · by_cases hpair : front.getLast? = some '\r'
      · obtain ⟨front, rfl⟩ := List.getLast?_eq_some_iff.mp hpair
        rw [breakAt_pair]
        exact .pair (List.append_assoc _ _ _)
      · rw [breakAt_feed hpair]
        exact .feed rfl hpair
    · rw [breakAt_carriage]
      exact .carriage rfl halone

/-- Two breaks of a text that end in one place are the same. -/
theorem injOn_stop (cs : List Char) : {b | IsLineBreak cs b}.InjOn Span.stop := by
  intro b hb b' hb' hstop
  obtain ⟨front, c, back, rfl, -, rfl⟩ := isLineBreak_iff.mp hb
  obtain ⟨front', c', back', happ, -, rfl⟩ := isLineBreak_iff.mp hb'
  have hsplit : (front ++ [c]) ++ back = (front' ++ [c']) ++ back' := by
    rwa [List.append_assoc, List.append_assoc]
  have hfront : front ++ [c] = front' ++ [c'] := eq_of_width_eq hsplit hstop
  obtain ⟨rfl, hc⟩ := List.append_inj' hfront rfl
  obtain rfl := List.singleton_inj.mp hc
  rfl

/-! ## Line starts -/

namespace LineIndex

/-- **A line starts behind every character that ends one.** -/
theorem mem_startsFrom_iff {pos n : Nat} {cs : List Char} :
    n ∈ startsFrom pos cs ↔ ∃ front c back, cs = front ++ c :: back ∧
      endsLine c back.head? = true ∧ n = pos + width (front ++ [c]) := by
  induction cs generalizing pos with
  | nil => simp [startsFrom]
  | cons d cs ih =>
    -- The character is the first one or one of the rest.
    have hsplit : (∃ front c back, d :: cs = front ++ c :: back ∧ endsLine c back.head? = true ∧
        n = pos + width (front ++ [c])) ↔
        endsLine d cs.head? = true ∧ n = pos + d.utf8Size ∨
          n ∈ startsFrom (pos + d.utf8Size) cs := by
      rw [ih]
      constructor
      · rintro ⟨front, c, back, happ, hends, rfl⟩
        cases front with
        | nil =>
          obtain ⟨rfl, rfl⟩ := List.cons.inj happ
          exact .inl ⟨hends, rfl⟩
        | cons e front =>
          obtain ⟨rfl, rfl⟩ := List.cons.inj happ
          refine .inr ⟨front, c, back, rfl, hends, ?_⟩
          rw [List.cons_append, width_cons, Nat.add_assoc]
      · rintro (⟨hends, rfl⟩ | ⟨front, c, back, rfl, hends, rfl⟩)
        · exact ⟨[], d, cs, rfl, hends, rfl⟩
        · refine ⟨d :: front, c, back, rfl, hends, ?_⟩
          rw [List.cons_append, width_cons, Nat.add_assoc]
    rw [hsplit, startsFrom_eq]
    split
    · next hends => simp [hends]
    · next hends => simp [hends]

/-- The starts up to an offset are those that are not behind it. -/
theorem mem_takeWhile_iff {starts : List Nat} (hstarts : starts.Pairwise (· < ·))
    {n offset : Nat} : n ∈ starts.takeWhile (· ≤ offset) ↔ n ∈ starts ∧ n ≤ offset := by
  induction starts with
  | nil => simp
  | cons m ms ih =>
    obtain ⟨hlt, hms⟩ := List.pairwise_cons.mp hstarts
    by_cases hm : m ≤ offset
    · rw [List.takeWhile_cons_of_pos (by simpa using hm), List.mem_cons, List.mem_cons, ih hms]
      grind
    · rw [List.takeWhile_cons_of_neg (by simpa using hm)]
      grind

/-- **The breaks up to an offset end where the lines up to it start.** -/
theorem image_stop_breaksUpTo (cs : List Char) (offset : Nat) :
    Span.stop '' breaksUpTo cs offset =
      {n | n ∈ (startsFrom 0 cs).takeWhile (· ≤ offset)} := by
  ext n
  simp only [Set.mem_image, Set.mem_ofPred_eq, mem_takeWhile_iff (pairwise_startsFrom 0 cs),
    mem_startsFrom_iff, Nat.zero_add, breaksUpTo, isLineBreak_iff]
  constructor
  · rintro ⟨_, ⟨⟨front, c, back, happ, hends, rfl⟩, hle⟩, rfl⟩
    exact ⟨⟨front, c, back, happ, hends, rfl⟩, hle⟩
  · rintro ⟨⟨front, c, back, happ, hends, rfl⟩, hle⟩
    exact ⟨_, ⟨⟨front, c, back, happ, hends, rfl⟩, hle⟩, rfl⟩

/-- There are as many breaks up to an offset as lines that start up to it. -/
theorem encard_breaksUpTo (cs : List Char) (offset : Nat) :
    (breaksUpTo cs offset).encard = ((startsFrom 0 cs).takeWhile (· ≤ offset)).length := by
  have hinj : (breaksUpTo cs offset).InjOn Span.stop := (injOn_stop cs).mono fun _ h => h.1
  have hnodup : ((startsFrom 0 cs).takeWhile (· ≤ offset)).Nodup :=
    ((pairwise_startsFrom 0 cs).sublist (List.takeWhile_sublist _)).imp Nat.ne_of_lt
  rw [← hinj.encard_image, image_stop_breaksUpTo, ← List.toFinset_card_of_nodup hnodup,
    ← Set.encard_coe_eq_coe_finsetCard, List.coe_toFinset]

/-- **The line of an offset starts behind the last break up to it.** -/
theorem isLineStart_getLastD (cs : List Char) (offset : Nat) :
    IsLineStart cs offset
      (((startsFrom 0 cs).takeWhile (· ≤ offset)).getLastD (firstColumn cs)) := by
  have hsorted := (pairwise_startsFrom 0 cs).sublist (List.takeWhile_sublist (· ≤ offset))
  have himage := image_stop_breaksUpTo cs offset
  rw [IsLineStart, himage]
  rcases List.eq_nil_or_concat' ((startsFrom 0 cs).takeWhile (· ≤ offset)) with
    hnil | ⟨ns, n, hns⟩
  · refine .inr ⟨?_, by rw [hnil]; rfl⟩
    simpa [hnil] using himage
  · rw [hns] at hsorted ⊢
    refine .inl ⟨by simp, fun m hm => ?_⟩
    rcases List.mem_append.mp hm with hm | hm
    · simpa using ((List.pairwise_append.mp hsorted).2.2 m hm n (by simp)).le
    · simp [List.mem_singleton.mp hm]

/-- Lines start between characters. -/
theorem isBoundary_of_isLineStart {cs : List Char} {offset start : Nat}
    (h : IsLineStart cs offset start) : IsBoundary cs start := by
  rcases h with ⟨⟨b, ⟨hbreak, -⟩, rfl⟩, -⟩ | ⟨-, rfl⟩
  · obtain ⟨front, c, back, rfl, -, rfl⟩ := isLineBreak_iff.mp hbreak
    exact ⟨front ++ [c], back, by simp, rfl⟩
  · split
    · next hmark =>
      obtain ⟨rest, rfl⟩ := List.head?_eq_some_iff.mp hmark
      exact ⟨[byteOrderMark], rest, rfl, rfl⟩
    · exact ⟨[], cs, rfl, rfl⟩

/-- **The line index counts from the start.**  Whatever the offset, its line is one more than the
number of line breaks that end at it or before it, and its column is counted from the end of the
last of them; an offset past the end counts as the end. -/
theorem isPlace_lineColumn (cs : List Char) (offset : Nat) :
    IsPlace cs (min offset (width cs)) ((ofText cs).lineColumn cs offset) := by
  have hstart := isLineStart_getLastD cs (min offset (width cs))
  rw [lineColumn_ofText]
  exact {
    line := by rw [encard_breaksUpTo, Nat.cast_add, Nat.cast_one]
    column := ⟨_, hstart, isColumn_slice? (isBoundary_of_isLineStart hstart) _⟩ }

end LineIndex

end SqlScript
