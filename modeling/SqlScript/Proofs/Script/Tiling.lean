import SqlScript.Script.Basic

/-!
# Proofs/Script/Tiling — a text as a row of tiles

A tile is a stretch of white space with the lexeme behind it.  Reading a text lays it out as a row
of tiles and a tail of white space (`Tiling`, `exists_tiling`); the words of a reader are the
lexemes of the row, placed by the widths of what comes before them (`Tiling.words_eq`).

For a scanned script the row says all there is to say: `Script.Tiled` ties the script to it, and the
text of a word, the gap in front of it and whatever is put together from the two are read off the
tiles (`Tiled.text_eq`, `Tiled.gapBefore_eq`, `Tiled.assemble_eq`).
-/

namespace SqlScript

open SqlScript.Text

/-- White space and the lexeme behind it. -/
structure Tile where
  gap : List Char
  lexeme : Lexeme

namespace Tile

/-- The text a tile takes up. -/
def text (t : Tile) : List Char := t.gap ++ t.lexeme.text

/-- The word of a tile that stands at byte `pos`. -/
def word (pos : Nat) (t : Tile) : Word := Reader.wordAt (pos + width t.gap) t.lexeme

@[simp] theorem width_text (t : Tile) : width t.text = width t.gap + width t.lexeme.text :=
  width_append _ _

@[simp] theorem start_word (pos : Nat) (t : Tile) :
    (t.word pos).span.start = pos + width t.gap := rfl

@[simp] theorem stop_word (pos : Nat) (t : Tile) :
    (t.word pos).span.stop = pos + width t.text := by
  rw [width_text, ← Nat.add_assoc]; rfl

end Tile

/-! ## Tiling a text -/

/-- A text that is white space only. -/
def Blank (cs : List Char) : Prop := ∀ c ∈ cs, Lexeme.isSpace c = true

/-- **A text laid out in tiles**: each tile is white space and the word read behind it, and white
space is left at the end. -/
inductive Tiling : (cs : List Char) → List Tile → (tail : List Char) → Prop
  | tail {cs : List Char} (h : Blank cs) : Tiling cs [] cs
  | tile {gap cs tail : List Char} {c : Char} {ts : List Tile} (hgap : Blank gap)
      (hc : Lexeme.isSpace c = false) (h : Tiling (Lexeme.read c cs).rest ts tail) :
      Tiling (gap ++ c :: cs) (⟨gap, Lexeme.read c cs⟩ :: ts) tail

theorem blank_takeWhile (cs : List Char) : Blank (cs.takeWhile Lexeme.isSpace) := fun _ hc =>
  List.all_eq_true.mp List.all_takeWhile _ hc

theorem takeWhile_of_blank {gap : List Char} (hgap : Blank gap) {c : Char} {cs : List Char}
    (hc : Lexeme.isSpace c = false) : (gap ++ c :: cs).takeWhile Lexeme.isSpace = gap := by
  rw [List.takeWhile_append_of_pos hgap, List.takeWhile_cons_of_neg (by simp [hc]),
    List.append_nil]

theorem dropWhile_of_blank {gap : List Char} (hgap : Blank gap) {c : Char} {cs : List Char}
    (hc : Lexeme.isSpace c = false) : (gap ++ c :: cs).dropWhile Lexeme.isSpace = c :: cs := by
  rw [List.dropWhile_append_of_pos hgap, List.dropWhile_cons_of_neg (by simp [hc])]

/-- **Every text can be laid out in tiles.** -/
theorem exists_tiling (cs : List Char) : ∃ ts tail, Tiling cs ts tail := by
  -- induction on the length: reading leaves less text than there was
  generalize hn : cs.length = n
  induction n using Nat.strongRecOn generalizing cs with
  | ind n ih =>
    have hsplit : cs.takeWhile Lexeme.isSpace ++ cs.dropWhile Lexeme.isSpace = cs :=
      List.takeWhile_append_dropWhile
    cases hrest : cs.dropWhile Lexeme.isSpace with
    | nil =>
      rw [hrest, List.append_nil] at hsplit
      exact ⟨[], cs, .tail (hsplit ▸ blank_takeWhile cs)⟩
    | cons c ds =>
      have hc : Lexeme.isSpace c = false := by
        have := List.head?_dropWhile_not Lexeme.isSpace cs
        rw [hrest] at this
        simpa using this
      have hlen : (Lexeme.read c ds).rest.length < n := by
        have hread := (Lexeme.read_divides c ds).length_lt
        rw [← hrest] at hread
        exact hn ▸ Nat.lt_of_lt_of_le hread (List.dropWhile_sublist _).length_le
      obtain ⟨ts, tail, h⟩ := ih _ hlen (Lexeme.read c ds).rest rfl
      have htile := Tiling.tile (blank_takeWhile cs) hc h
      rw [← hrest, hsplit] at htile
      exact ⟨_, tail, htile⟩

namespace Tiling

variable {cs tail : List Char} {ts : List Tile}

/-- The tiles and the tail make up the text. -/
theorem flatMap_text (h : Tiling cs ts tail) : ts.flatMap Tile.text ++ tail = cs := by
  induction h with
  | tail h => rfl
  | @tile gap cs tail c ts hgap hc h ih =>
    rw [List.flatMap_cons, List.append_assoc, ih, Tile.text, List.append_assoc,
      (Lexeme.read_divides c cs).2]

theorem blank_tail (h : Tiling cs ts tail) : Blank tail := by
  induction h with
  | tail h => exact h
  | tile hgap hc h ih => exact ih

theorem blank_gap (h : Tiling cs ts tail) : ∀ t ∈ ts, Blank t.gap := by
  induction h with
  | tail h => simp
  | tile hgap hc h ih => exact List.forall_mem_cons.mpr ⟨hgap, ih⟩

/-- **What holds of every word read holds of every tile.** -/
theorem forall_lexeme {P : Lexeme → Prop} (hP : ∀ c cs, P (Lexeme.read c cs))
    (h : Tiling cs ts tail) : ∀ t ∈ ts, P t.lexeme := by
  induction h with
  | tail h => simp
  | @tile gap cs tail c ts hgap hc h ih => exact List.forall_mem_cons.mpr ⟨hP c cs, ih⟩

theorem text_ne_nil (h : Tiling cs ts tail) : ∀ t ∈ ts, t.lexeme.text ≠ [] :=
  h.forall_lexeme (P := fun l => l.text ≠ []) fun c cs => (Lexeme.read_divides c cs).1

end Tiling

/-- **A text can be laid out in one way only.** -/
theorem Tiling.unique {cs tail tail' : List Char} {ts ts' : List Tile} (h : Tiling cs ts tail)
    (h' : Tiling cs ts' tail') : ts = ts' ∧ tail = tail' := by
  induction h generalizing ts' tail' with
  | tail h =>
    cases h' with
    | tail h' => exact ⟨rfl, rfl⟩
    | @tile gap cs tail c ts hgap hc h' =>
      exact absurd (h c (by simp)) (by simp [hc])
  | @tile gap cs tail c ts hgap hc h ih =>
    generalize htext : gap ++ c :: cs = text at h'
    cases h' with
    | tail h' =>
      subst htext
      exact absurd (h' c (by simp)) (by simp [hc])
    | @tile gap' cs' tail' c' ts' hgap' hc' h' =>
      have hgaps := congrArg (List.takeWhile Lexeme.isSpace) htext
      have hrests := congrArg (List.dropWhile Lexeme.isSpace) htext
      rw [takeWhile_of_blank hgap hc, takeWhile_of_blank hgap' hc'] at hgaps
      rw [dropWhile_of_blank hgap hc, dropWhile_of_blank hgap' hc'] at hrests
      obtain ⟨rfl, rfl⟩ := List.cons.inj hrests
      obtain ⟨rfl, rfl⟩ := ih h'
      exact ⟨by rw [hgaps], rfl⟩

/-- **A tile is read where the row in front of it ends**, and the row goes on behind it. -/
theorem Tiling.exists_read {cs tail : List Char} {pre post : List Tile} {t : Tile}
    (h : Tiling cs (pre ++ t :: post) tail) :
    ∃ c ds, Lexeme.isSpace c = false ∧ t.lexeme = Lexeme.read c ds ∧
      Tiling t.lexeme.rest post tail := by
  induction pre generalizing cs with
  | nil =>
    cases h with
    | @tile gap cs _ c _ hgap hc h => exact ⟨c, cs, hc, rfl, h⟩
  | cons u pre ih =>
    cases h with
    | tile _ _ h => exact ih h

/-- Nothing lies behind a word that takes up the rest of the text. -/
theorem Tiling.eq_nil {ts : List Tile} {tail : List Char} (h : Tiling [] ts tail) :
    ts = [] ∧ tail = [] :=
  h.unique (.tail (by simp [Blank]))

/-! ## Words from tiles -/

/-- The words of a row of tiles that starts at byte `pos`. -/
def scannedFrom (pos : Nat) : List Tile → List Scanned
  | [] => []
  | t :: ts => ⟨t.word pos, t.lexeme.fault⟩ :: scannedFrom (pos + width t.text) ts

@[simp] theorem length_scannedFrom : ∀ (pos : Nat) (ts : List Tile),
    (scannedFrom pos ts).length = ts.length
  | _, [] => rfl
  | pos, t :: ts => by simp [scannedFrom, length_scannedFrom _ ts]

theorem scannedFrom_append : ∀ (pos : Nat) (ts us : List Tile),
    scannedFrom pos (ts ++ us) =
      scannedFrom pos ts ++ scannedFrom (pos + width (ts.flatMap Tile.text)) us
  | _, [], _ => by simp [scannedFrom]
  | pos, t :: ts, us => by
      rw [List.cons_append, scannedFrom, scannedFrom_append _ ts us, scannedFrom,
        List.flatMap_cons, width_append, ← Nat.add_assoc, List.cons_append]

/-- A word of a row, with its fault, is the word of one of its tiles, placed behind those before
it. -/
theorem exists_tile_of_entry {pos : Nat} {ts : List Tile} {entry : Scanned}
    (h : entry ∈ scannedFrom pos ts) :
    ∃ pre t post, ts = pre ++ t :: post ∧
      entry = ⟨t.word (pos + width (pre.flatMap Tile.text)), t.lexeme.fault⟩ := by
  induction ts generalizing pos with
  | nil => simp [scannedFrom] at h
  | cons t ts ih =>
    rw [scannedFrom, List.mem_cons] at h
    rcases h with rfl | h
    · exact ⟨[], t, ts, rfl, rfl⟩
    · obtain ⟨pre, u, post, rfl, rfl⟩ := ih h
      refine ⟨t :: pre, u, post, rfl, ?_⟩
      rw [List.flatMap_cons, width_append, Nat.add_assoc]

theorem exists_tile_of_mem {pos : Nat} {ts : List Tile} {w : Word}
    (h : w ∈ (scannedFrom pos ts).map Scanned.word) :
    ∃ pre t post, ts = pre ++ t :: post ∧ w = t.word (pos + width (pre.flatMap Tile.text)) := by
  obtain ⟨entry, hentry, rfl⟩ := List.mem_map.mp h
  obtain ⟨pre, t, post, hts, rfl⟩ := exists_tile_of_entry hentry
  exact ⟨pre, t, post, hts, rfl⟩

/-- **A reader reads the words of its tiles.** -/
theorem Tiling.words_eq {cs tail : List Char} {ts : List Tile} (h : Tiling cs ts tail)
    (pos : Nat) : (Reader.mk pos cs).words = scannedFrom pos ts := by
  induction h generalizing pos with
  | @tail cs h =>
    refine Reader.words_of_next?_eq_none ?_
    have hdrop : (cs ++ []).dropWhile Lexeme.isSpace = [] := List.dropWhile_append_of_pos h
    rw [List.append_nil] at hdrop
    simp [Reader.next?, Reader.skipSpace, hdrop]
  | @tile gap cs tail c ts hgap hc h ih =>
    have hnext : (Reader.mk pos (gap ++ c :: cs)).next? =
        some (⟨Reader.wordAt (pos + width gap) (Lexeme.read c cs), (Lexeme.read c cs).fault⟩,
          ⟨pos + width gap + width (Lexeme.read c cs).text, (Lexeme.read c cs).rest⟩) := by
      simp only [Reader.next?, Reader.skipSpace, takeWhile_of_blank hgap hc,
        dropWhile_of_blank hgap hc]
    rw [Reader.words_of_next?_eq_some hnext, ih, scannedFrom, Tile.width_text, Nat.add_assoc]
    rfl

/-! ## Words read at the front -/

namespace Reader

/-- A reader in front of a word reads it. -/
theorem next?_eq {c : Char} (hc : Lexeme.isSpace c = false) (pos : Nat) (cs : List Char) :
    (Reader.mk pos (c :: cs)).next? =
      some (⟨wordAt pos (Lexeme.read c cs), (Lexeme.read c cs).fault⟩,
        ⟨pos + width (Lexeme.read c cs).text, (Lexeme.read c cs).rest⟩) := by
  simp [next?, skipSpace, hc]

/-- **A word spelled as its text is read at the front**, and the reader goes on behind it. -/
theorem words_of_plain {c : Char} {cs text rest : List Char} {token : Token}
    (hc : Lexeme.isSpace c = false) (h : Lexeme.read c cs = .plain token text rest) (pos : Nat) :
    (Reader.mk pos (c :: cs)).words =
      ⟨⟨token, String.ofList text, ⟨pos, pos + width text⟩⟩, none⟩ ::
        (Reader.mk (pos + width text) rest).words := by
  have hnext := next?_eq hc pos cs
  rw [h] at hnext
  exact words_of_next?_eq_some hnext

/-- **A text that is not closed is an illegal word**, and the last one. -/
theorem words_of_unclosed {c : Char} {cs text : List Char} {fault : LexicalFault}
    (hc : Lexeme.isSpace c = false) (h : Lexeme.read c cs = .unclosed fault text) (pos : Nat) :
    (Reader.mk pos (c :: cs)).words =
      [⟨⟨.illegal, String.ofList text, ⟨pos, pos + width text⟩⟩, some fault⟩] := by
  have hnext := next?_eq hc pos cs
  have hend : (Reader.mk (pos + width text) []).words = [] := words_of_next?_eq_none rfl
  rw [h, Lexeme.text_unclosed, Lexeme.rest_unclosed] at hnext
  rw [words_of_next?_eq_some hnext, hend]
  rfl

end Reader

/-! ## Scripts

In front of the first tile there may be a byte-order mark, which belongs to no tile and is shown
with the gap before the first word. -/

/-- The white space in front of the next word, or the tail when there is none. -/
def nextGap (tail : List Char) : List Tile → List Char
  | [] => tail
  | t :: _ => t.gap

namespace Script

/-- **A script is the row of tiles `ts`** behind `front`, with white space `tail` at the end. -/
structure Tiled (s : Script) (front : List Char) (ts : List Tile) (tail : List Char) : Prop where
  source_eq : s.source = front ++ (ts.flatMap Tile.text ++ tail)
  scanned_eq : s.scanned = scannedFrom (width front) ts

/-- A reader of a text stands behind at most a byte-order mark. -/
theorem exists_ofText (cs : List Char) :
    ∃ front, cs = front ++ (Reader.ofText cs).rest ∧ (front = [] ∨ front = [byteOrderMark]) ∧
      (Reader.ofText cs).pos = width front := by
  unfold Reader.ofText
  split
  · next c cs =>
    split
    · next hmark => exact ⟨[c], rfl, .inr (by rw [hmark]), rfl⟩
    · exact ⟨[], rfl, .inl rfl, rfl⟩
  · exact ⟨[], rfl, .inl rfl, rfl⟩

/-- A row of tiles for the text in front of its reader is a row for the script. -/
theorem tiled_of_tiling (name : String) {source : String} {front tail : List Char} {ts : List Tile}
    (hsource : source.toList = front ++ (Reader.ofText source.toList).rest)
    (hpos : (Reader.ofText source.toList).pos = width front)
    (h : Tiling (Reader.ofText source.toList).rest ts tail) :
    (scan name source).Tiled front ts tail := by
  constructor
  · rw [h.flatMap_text]
    exact hsource
  · rw [← hpos]
    exact h.words_eq _

/-- **Every scanned script is a row of tiles**, with at most a byte-order mark in front. -/
theorem exists_tiled (name source : String) :
    ∃ front body ts tail, source.toList = front ++ body ∧ (front = [] ∨ front = [byteOrderMark]) ∧
      Tiling body ts tail ∧ (scan name source).Tiled front ts tail := by
  obtain ⟨front, hsource, hfront, hpos⟩ := exists_ofText source.toList
  obtain ⟨ts, tail, htiling⟩ := exists_tiling (Reader.ofText source.toList).rest
  exact ⟨front, _, ts, tail, hsource, hfront, htiling, tiled_of_tiling name hsource hpos htiling⟩

namespace Tiled

variable {s : Script} {front tail : List Char} {ts pre post : List Tile} {t : Tile}

theorem words_eq (h : s.Tiled front ts tail) :
    s.words = (scannedFrom (width front) ts).map Scanned.word := by
  rw [words, h.scanned_eq]

theorem length_words (h : s.Tiled front ts tail) : s.words.length = ts.length := by
  rw [h.words_eq, List.length_map, length_scannedFrom]

/-- A word stands at the place of its tile. -/
theorem word?_eq (h : s.Tiled front (pre ++ t :: post) tail) :
    s.word? pre.length = some (t.word (width front + width (pre.flatMap Tile.text))) := by
  rw [word?, h.scanned_eq, scannedFrom_append, scannedFrom,
    List.getElem?_append_right (by simp)]
  simp

theorem word?_length (h : s.Tiled front ts tail) : s.word? ts.length = none := by
  rw [word?, h.scanned_eq, List.getElem?_eq_none (by simp)]
  rfl

/-- **A word is cut out of the source at its span.** -/
theorem slice?_eq (h : s.Tiled front (pre ++ t :: post) tail) :
    s.slice? (t.word (width front + width (pre.flatMap Tile.text))).span.start
      (t.word (width front + width (pre.flatMap Tile.text))).span.stop = some t.lexeme.text := by
  have hsource : s.source = (front ++ pre.flatMap Tile.text ++ t.gap) ++
      (t.lexeme.text ++ (post.flatMap Tile.text ++ tail)) := by
    rw [h.source_eq]
    simp [Tile.text]
  have hcut := slice?_append (front ++ pre.flatMap Tile.text ++ t.gap) t.lexeme.text
    (post.flatMap Tile.text ++ tail)
  rw [slice?, hsource, Tile.start_word, Tile.stop_word, Tile.width_text, ← Nat.add_assoc]
  simpa only [width_append] using hcut

/-- The text of a word is the text of its lexeme. -/
theorem text_eq (h : s.Tiled front (pre ++ t :: post) tail) :
    s.text (t.word (width front + width (pre.flatMap Tile.text))) = t.lexeme.text := by
  rw [text, h.slice?_eq]
  rfl

theorem gapStop_eq (h : s.Tiled front (pre ++ post) tail) :
    s.gapStop pre.length =
      width front + width (pre.flatMap Tile.text) + width (nextGap tail post) := by
  cases post with
  | nil =>
    rw [List.append_nil] at h
    rw [gapStop, h.word?_length, size, h.source_eq]
    simp [nextGap, Nat.add_assoc]
  | cons t post => rw [gapStop, h.word?_eq]; rfl

theorem gapStart_eq (h : s.Tiled front (pre ++ post) tail) (hpre : pre ≠ []) :
    s.gapStart pre.length = width front + width (pre.flatMap Tile.text) := by
  obtain ⟨init, t, rfl⟩ : ∃ init t, pre = init ++ [t] :=
    ⟨pre.dropLast, pre.getLast hpre, (List.dropLast_concat_getLast hpre).symm⟩
  rw [List.append_assoc, List.singleton_append] at h
  rw [List.length_append, List.length_singleton, gapStart, h.word?_eq]
  simp [Nat.add_assoc]

/-- **The gap in front of a word is cut out of the source**: it is the white space of its tile;
before the first word it begins with whatever stands in front of the tiles, and behind the last it
is the tail. -/
theorem slice?_gap (h : s.Tiled front (pre ++ post) tail) :
    s.slice? (min (s.gapStart pre.length) (s.gapStop pre.length)) (s.gapStop pre.length) =
      some ((if pre = [] then front else []) ++ nextGap tail post) := by
  obtain ⟨after, hsource⟩ : ∃ after,
      s.source = (front ++ pre.flatMap Tile.text) ++ (nextGap tail post ++ after) := by
    cases post with
    | nil => exact ⟨[], by rw [h.source_eq]; simp [nextGap]⟩
    | cons t post =>
      exact ⟨t.lexeme.text ++ (post.flatMap Tile.text ++ tail),
        by rw [h.source_eq]; simp [nextGap, Tile.text]⟩
  rw [h.gapStop_eq, slice?, hsource]
  by_cases hpre : pre = []
  · subst hpre
    have hcut := slice?_append [] (front ++ nextGap tail post) after
    simp only [List.nil_append, List.append_assoc, width_nil, width_append, Nat.zero_add] at hcut
    simp [gapStart, hcut]
  · have hcut := slice?_append (front ++ pre.flatMap Tile.text) (nextGap tail post) after
    rw [h.gapStart_eq hpre, Nat.min_eq_left (Nat.le_add_right _ _), ← width_append, hcut,
      if_neg hpre]
    rfl

theorem gapBefore_eq (h : s.Tiled front (pre ++ post) tail) :
    s.gapBefore pre.length = (if pre = [] then front else []) ++ nextGap tail post := by
  rw [gapBefore, h.slice?_gap]
  rfl

section Assemble

variable {showWord : Word → List Char} {showTile : Tile → List Char}

/-- What is assembled from the tiles behind `pre`, by induction on those tiles. -/
theorem assemble_behind (pre : List Tile) (h : s.Tiled front (pre ++ post) tail)
    (hshow : ∀ us t vs, pre ++ post = us ++ t :: vs →
      showWord (t.word (width front + width (us.flatMap Tile.text))) = showTile t) :
    ((((scannedFrom (width front + width (pre.flatMap Tile.text)) post).map Scanned.word).zipIdx
        pre.length).flatMap fun p => s.gapBefore p.2 ++ showWord p.1) ++
          s.gapBefore (pre ++ post).length =
      (if pre = [] then front else []) ++
        ((post.flatMap fun t => t.gap ++ showTile t) ++ tail) := by
  induction post generalizing pre with
  | nil =>
    have hgap := h.gapBefore_eq
    rw [List.append_nil]
    simpa [scannedFrom, nextGap] using hgap
  | cons t post ih =>
    have happ : pre ++ t :: post = (pre ++ [t]) ++ post := by simp
    have hgap := h.gapBefore_eq
    have hword := hshow pre t post rfl
    have ih' := @ih (pre ++ [t]) (happ ▸ h) (happ ▸ hshow)
    rw [List.length_append, List.length_singleton, ← happ] at ih'
    rw [if_neg (by simp), List.nil_append] at ih'
    rw [scannedFrom, List.map_cons, List.zipIdx_cons, List.flatMap_cons, hgap, hword,
      List.flatMap_cons]
    simp only [List.append_assoc, nextGap]
    simp only [List.flatMap_append, List.flatMap_singleton, width_append, ← Nat.add_assoc] at ih'
    rw [ih']

/-- **What is put together from gaps and words is put together from tiles.** -/
theorem assemble_eq (h : s.Tiled front ts tail)
    (hshow : ∀ pre t post, ts = pre ++ t :: post →
      showWord (t.word (width front + width (pre.flatMap Tile.text))) = showTile t) :
    s.assemble showWord = front ++ ((ts.flatMap fun t => t.gap ++ showTile t) ++ tail) := by
  rw [assemble, h.words_eq, List.length_map, length_scannedFrom]
  exact assemble_behind [] h hshow

end Assemble

/-- Gaps and words make up the source. -/
theorem reconstruct_eq (h : s.Tiled front ts tail) : s.reconstruct = s.source := by
  have htext : ∀ pre t post, ts = pre ++ t :: post →
      s.text (t.word (width front + width (pre.flatMap Tile.text))) = t.lexeme.text := by
    rintro pre t post rfl
    exact h.text_eq
  rw [reconstruct, h.assemble_eq htext, h.source_eq]
  rfl

end Tiled

/-- **Every word of a script was read somewhere.** -/
theorem exists_read {name source : String} {w : Word} (hw : w ∈ (scan name source).words) :
    ∃ c cs, w.token = (Lexeme.read c cs).token ∧
      w.literal = String.ofList (Lexeme.read c cs).literal ∧
      (scan name source).text w = (Lexeme.read c cs).text := by
  obtain ⟨front, body, ts, tail, -, -, htiling, htiled⟩ := exists_tiled name source
  rw [htiled.words_eq] at hw
  obtain ⟨pre, t, post, rfl, rfl⟩ := exists_tile_of_mem hw
  obtain ⟨c, cs, -, hlexeme, -⟩ := htiling.exists_read
  refine ⟨c, cs, ?_⟩
  rw [← hlexeme]
  exact ⟨rfl, rfl, htiled.text_eq⟩

end Script

end SqlScript
