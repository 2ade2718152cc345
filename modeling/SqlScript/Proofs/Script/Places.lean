import SqlScript.Proofs.Place.Counting
import SqlScript.Proofs.Script.Lossless

/-!
# Proofs/Script/Places — where the words of a script stand

A script is a byte-order mark, if it has one, and the text behind it.  Its words start inside that
text (`Tiling.exists_start`), so their lines and columns are counted in it (`Script.position_eq`):
they depend on the text in front of the word and the character it opens with, not on the mark.
Further on in the text is further on in lines and columns (`Script.strictMonoOn_place`), so a place
belongs to one offset only, and the places of the words come in their order
(`Script.increasing_places`).

Words that stand further on in the same order are the same words with shifted spans
(`scannedFrom_add`).
-/

namespace SqlScript

open SqlScript.Text

/-! ## Shifted words -/

/-- The span `n` bytes further on. -/
def Span.shift (n : Nat) (s : Span) : Span := ⟨s.start + n, s.stop + n⟩

/-- The word `n` bytes further on. -/
def Word.shift (n : Nat) (w : Word) : Word := { w with span := w.span.shift n }

/-- The word `n` bytes further on, with the fault it was read with. -/
def Scanned.shift (n : Nat) (entry : Scanned) : Scanned := { entry with word := entry.word.shift n }

/-- **A row further on has the same words, shifted.** -/
theorem scannedFrom_add (n : Nat) : ∀ (pos : Nat) (ts : List Tile),
    scannedFrom (pos + n) ts = (scannedFrom pos ts).map (Scanned.shift n)
  | _, [] => rfl
  | pos, t :: ts => by
      have hword : t.word (pos + n) = (t.word pos).shift n := by
        simp only [Tile.word, Reader.wordAt, Word.shift, Span.shift]
        simp only [Nat.add_right_comm]
      rw [scannedFrom, Nat.add_right_comm, scannedFrom_add n _ ts, hword]
      rfl

theorem map_word_shift (n : Nat) (entries : List Scanned) :
    (entries.map (Scanned.shift n)).map Scanned.word =
      (entries.map Scanned.word).map (Word.shift n) := by
  rw [List.map_map, List.map_map]
  rfl

/-! ## Starts of words -/

/-- **A word starts inside the text**, with its first character behind its start. -/
theorem Tiling.exists_start {pos : Nat} {cs tail : List Char} {ts : List Tile}
    (h : Tiling cs ts tail) {entry : Scanned} (hentry : entry ∈ scannedFrom pos ts) :
    ∃ front back, cs = front ++ back ∧ back ≠ [] ∧
      entry.word.span.start = pos + width front := by
  obtain ⟨pre, t, post, rfl, hword⟩ := exists_tile_of_mem (List.mem_map_of_mem hentry)
  refine ⟨pre.flatMap Tile.text ++ t.gap, t.lexeme.text ++ (post.flatMap Tile.text ++ tail),
    ?_, ?_, ?_⟩
  · rw [← h.flatMap_text]
    simp [Tile.text]
  · simp [h.text_ne_nil t (by simp)]
  · rw [hword, Tile.start_word, width_append, Nat.add_assoc]

/-! ## Marks -/

/-- Columns are counted from where reading starts. -/
theorem firstColumn_eq_pos (cs : List Char) :
    LineIndex.firstColumn cs = (Reader.ofText cs).pos := by
  cases cs with
  | nil => rfl
  | cons c cs =>
    by_cases hmark : c = byteOrderMark <;> simp [LineIndex.firstColumn, Reader.ofText, hmark]

/-- A text without a mark is read from its start. -/
theorem Reader.ofText_of_head?_ne {cs : List Char} (h : cs.head? ≠ some byteOrderMark) :
    ofText cs = ⟨0, cs⟩ := by
  cases cs with
  | nil => rfl
  | cons c cs => exact if_neg fun hc => h (congrArg some hc)

/-- A text divides into its mark and what is read. -/
theorem Reader.exists_mark (cs : List Char) :
    ∃ mark rest, cs = mark ++ rest ∧ (mark = [] ∨ mark = [byteOrderMark]) ∧
      ofText cs = ⟨width mark, rest⟩ := by
  obtain ⟨mark, htext, hmark, hpos⟩ := Script.exists_ofText cs
  refine ⟨mark, (ofText cs).rest, htext, hmark, ?_⟩
  rw [← hpos]

/-- **The text behind a mark can be exchanged**, as long as no mark is put in front of it. -/
theorem Reader.ofText_exchange {mark rest rest' : List Char}
    (hmark : mark = [] ∨ mark = [byteOrderMark])
    (h : ofText (mark ++ rest) = ⟨width mark, rest⟩)
    (hhead : rest'.head? = rest.head? ∨ rest'.head? ≠ some byteOrderMark) :
    ofText (mark ++ rest') = ⟨width mark, rest'⟩ := by
  rcases hmark with rfl | rfl
  · refine ofText_of_head?_ne (hhead.elim (fun hhead hbom => ?_) id)
    obtain ⟨cs, rfl⟩ := List.head?_eq_some_iff.mp (hhead.symm.trans hbom)
    cases h
  · simp [ofText]

/-- Line and column, in the order in which they are read. -/
def Position.place (p : Position) : ℕ ×ₗ ℕ := toLex (p.line, p.column)

namespace Script

/-- The place where a text goes on with `back`, in a script called `name`. -/
def placed (name : String) (front back : List Char) : Position :=
  let place := LineIndex.placeFrom (1, 1) front back.head?
  ⟨name, place.1, place.2⟩

/-- A text with more behind it goes on as it did. -/
theorem placed_append (name : String) (front : List Char) {back : List Char} (h : back ≠ [])
    (more : List Char) : placed name front (back ++ more) = placed name front back := by
  obtain ⟨c, back, rfl⟩ := List.exists_cons_of_ne_nil h
  rfl

/-- **A place in the text is found by counting.** -/
theorem position_eq (name : String) {source : String} {mark front back : List Char}
    (hsource : source.toList = mark ++ (front ++ back))
    (hreader : Reader.ofText source.toList = ⟨width mark, front ++ back⟩) :
    (scan name source).position (width mark + width front) = placed name front back := by
  have hmark : LineIndex.firstColumn (mark ++ (front ++ back)) = width mark := by
    rw [firstColumn_eq_pos, ← hsource, hreader]
  rw [position, LineIndex.position]
  simp only [scan, hsource, LineIndex.lineColumn_eq_placeFrom hmark]
  rfl

/-- **A script has the words of the tiles that its text is laid out in.** -/
theorem scanned_eq (name : String) {source : String} {pos : Nat} {cs tail : List Char}
    {ts : List Tile} (hreader : Reader.ofText source.toList = ⟨pos, cs⟩)
    (htiling : Tiling cs ts tail) : (scan name source).scanned = scannedFrom pos ts := by
  rw [← htiling.words_eq, ← hreader]
  rfl

/-- A script without a mark is read from its first character. -/
theorem scanned_of_head?_ne (name : String) {source : String}
    (h : source.toList.head? ≠ some byteOrderMark) :
    (scan name source).scanned = (Reader.mk 0 source.toList).words := by
  rw [← Reader.ofText_of_head?_ne h]
  rfl

/-! ## Places in order -/

/-- The byte offsets between the characters behind the mark, both ends included. -/
def stops (source : String) : Set Nat :=
  { n | ∃ mark front back, source.toList = mark ++ (front ++ back) ∧
    Reader.ofText source.toList = ⟨width mark, front ++ back⟩ ∧ n = width mark + width front }

theorem start_mem_stops {name source : String} {w : Word} (hw : w ∈ (scan name source).words) :
    w.span.start ∈ stops source ∧ w.span.start < (scan name source).size := by
  obtain ⟨mark, body, hsource, -, hreader⟩ := Reader.exists_mark source.toList
  obtain ⟨ts, tail, htiling⟩ := exists_tiling body
  obtain ⟨entry, hentry, rfl⟩ := List.mem_map.mp hw
  rw [scanned_eq name hreader htiling] at hentry
  obtain ⟨front, back, rfl, hback, hstart⟩ := htiling.exists_start hentry
  refine ⟨⟨mark, front, back, hsource, hreader, hstart⟩, ?_⟩
  have hpos := width_pos_of_ne_nil hback
  rw [hstart, size, show (scan name source).source = source.toList from rfl, hsource]
  simp only [width_append]
  omega

theorem size_mem_stops (name source : String) : (scan name source).size ∈ stops source := by
  obtain ⟨mark, body, hsource, -, hreader⟩ := Reader.exists_mark source.toList
  refine ⟨mark, body, [], by simpa using hsource, by simpa using hreader, ?_⟩
  rw [← width_append, ← hsource]
  rfl

/-- **Places come in the order of their offsets.** -/
theorem strictMonoOn_place (name source : String) :
    StrictMonoOn (fun n => ((scan name source).position n).place) (stops source) := by
  rintro m ⟨mark, front, back, hsource, hreader, rfl⟩
    n ⟨mark', front', back', hsource', hreader', rfl⟩ hlt
  obtain ⟨hwidth, hbody⟩ := Reader.mk.inj (hreader.symm.trans hreader')
  have hmark : mark = mark' := by
    rw [hsource, hbody] at hsource'
    exact List.append_cancel_right hsource'
  subst hmark
  rcases List.append_eq_append_iff.mp hbody with ⟨mid, rfl, rfl⟩ | ⟨mid, rfl, rfl⟩
  · have hmid : mid ≠ [] := by
      rintro rfl
      simp at hlt
    have hnext : (mid ++ back').head? = mid.head?.or back'.head? := List.head?_append
    show Position.place _ < Position.place _
    rw [position_eq name hsource hreader, position_eq name hsource' hreader']
    show toLex (LineIndex.placeFrom _ _ _) < toLex (LineIndex.placeFrom _ _ _)
    rw [LineIndex.placeFrom_append, hnext]
    exact LineIndex.lt_placeFrom _ hmid _
  · rw [width_append] at hlt
    omega

/-- The offsets between characters are stops, those before the end of the mark excepted. -/
theorem mem_stops_of_isBoundary {source : String} {n : Nat} (hn : IsBoundary source.toList n)
    (hmark : source.toList.head? = some byteOrderMark → 3 ≤ n) : n ∈ stops source := by
  obtain ⟨front, back, hsource, rfl⟩ := hn
  rcases eq_or_ne (source.toList.head?) (some byteOrderMark) with hhead | hhead
  · cases front with
    | nil => exact absurd (hmark hhead) (by simp)
    | cons c front =>
      obtain rfl : c = byteOrderMark := by simpa [hsource] using hhead
      exact ⟨[byteOrderMark], front, back, hsource, by rw [hsource]; rfl, width_append [_] front⟩
  · exact ⟨[], front, back, hsource, by rw [Reader.ofText_of_head?_ne hhead, hsource]; rfl,
      (Nat.zero_add _).symm⟩

/-- Words start one behind the other. -/
theorem pairwise_start (name source : String) :
    (scan name source).words.Pairwise fun v w => v.span.start < w.span.start := by
  obtain ⟨front, body, ts, tail, -, -, htiling, htiled⟩ := exists_tiled name source
  rw [htiled.words_eq]
  exact (pairwise_scannedFrom (width front) ts).imp_of_mem fun hv _ hle =>
    (start_lt_stop_of_mem htiling.text_ne_nil hv).trans_le hle

/-- **Places order and identify offsets.**  Of two offsets between characters, neither in front of
the byte-order mark, the later one has the later line or, in one line, the later column; so the
words and the end of a script stand at places of their own, in order. -/
theorem increasing_places (name source : String) :
    (∀ a b, IsBoundary source.toList a → IsBoundary source.toList b →
      (source.toList.head? = some byteOrderMark → 3 ≤ a) → a < b →
      ((scan name source).position a).place < ((scan name source).position b).place) ∧
    ((scan name source).words ++ [(scan name source).eof]).Pairwise fun v w =>
      ((scan name source).position v.span.start).place <
        ((scan name source).position w.span.start).place := by
  have hmono := strictMonoOn_place name source
  constructor
  · intro a b ha hb hmark hlt
    exact hmono (mem_stops_of_isBoundary ha hmark)
      (mem_stops_of_isBoundary hb fun hhead => (hmark hhead).trans hlt.le) hlt
  · refine List.pairwise_append.mpr ⟨?_, List.pairwise_singleton _ _, fun v hv w hw => ?_⟩
    · exact (pairwise_start name source).imp_of_mem fun hv hw hlt =>
        hmono (start_mem_stops hv).1 (start_mem_stops hw).1 hlt
    · obtain ⟨hstop, hlt⟩ := start_mem_stops hv
      rw [List.mem_singleton.mp hw]
      exact hmono hstop (size_mem_stops name source) hlt

/-- Between the two characters of a line break, behind a mark and a letter of two bytes. -/
theorem increasing_places_mark :
    let s := scan "t.sql" "\uFEFFé\r\nGO"
    IsBoundary s.source 6 ∧ IsBoundary s.source 7 ∧
      (s.source.head? = some byteOrderMark ∧ 3 ≤ 6) ∧ (s.position 6).place < (s.position 7).place ∧
      s.position 6 = ⟨"t.sql", 1, 3⟩ ∧ s.position 7 = ⟨"t.sql", 2, 1⟩ := by
  have hbetween : IsBoundary "\uFEFFé\r\nGO".toList 6 :=
    ⟨['\uFEFF', 'é', '\r'], ['\n', 'G', 'O'], by decide, by decide⟩
  have hbehind : IsBoundary "\uFEFFé\r\nGO".toList 7 :=
    ⟨['\uFEFF', 'é', '\r', '\n'], ['G', 'O'], by decide, by decide⟩
  exact ⟨hbetween, hbehind, ⟨by decide, by decide⟩,
    (increasing_places "t.sql" "\uFEFFé\r\nGO").1 6 7 hbetween hbehind (by decide) (by decide),
    by decide, by decide⟩

end Script

end SqlScript
