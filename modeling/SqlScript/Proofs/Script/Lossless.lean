import SqlScript.Proofs.Lexeme.Literal
import SqlScript.Proofs.Script.Tiling

/-!
# Proofs/Script/Lossless — words and gaps are the whole of a script

`Script.Lossless` says that the words of a script are stretches of its text, in order and apart from
each other, that nothing but white space lies between them, and that nothing of the text is lost or
changed when words and gaps are put together.  Every scanned script is lossless
(`lossless_scan`); all of it is read off the row of tiles behind the script.
-/

namespace SqlScript

open SqlScript.Text

/-- A byte offset between two characters of a text, or at one of its ends. -/
def IsBoundary (cs : List Char) (n : Nat) : Prop :=
  ∃ front back, cs = front ++ back ∧ width front = n

namespace Script

/-- **The words and the gaps of a script are all of its text.** -/
structure Lossless (s : Script) : Prop where
  /-- Every word takes up a stretch of the text that is not empty… -/
  start_lt_stop : ∀ w ∈ s.words, w.span.start < w.span.stop
  /-- …and has whole characters only. -/
  boundary : ∀ w ∈ s.words, IsBoundary s.source w.span.start ∧ IsBoundary s.source w.span.stop
  /-- Words come in the order of the text and do not overlap. -/
  ordered : s.words.Pairwise fun v w => v.span.stop ≤ w.span.start
  /-- Between words, and at both ends, there is white space only; in front of the first word a
  byte-order mark may come before it. -/
  gap : ∀ i ≤ s.words.length, Blank (s.gapBefore i) ∨
    i = 0 ∧ ∃ blank, Blank blank ∧ s.gapBefore i = byteOrderMark :: blank
  /-- Every gap and every word in order, and the tail, are the text. -/
  reconstruct_eq : s.reconstruct = s.source
  /-- The text of a word is cut out of the source, and is its literal unless it is a phrase. -/
  text : ∀ w ∈ s.words, s.slice? w.span.start w.span.stop = some (s.text w) ∧
    (w.token ∉ [.keyword .GROUP_BY, .keyword .ORDER_BY, .keyword .PARTITION_BY,
      .keyword .FORCE_ORDER] → s.text w = w.literal.toList)

end Script

/-! ## Spans -/

/-- Words of a row start no earlier than the row. -/
theorem le_start_of_mem {pos : Nat} {ts : List Tile} {w : Word}
    (h : w ∈ (scannedFrom pos ts).map Scanned.word) : pos ≤ w.span.start := by
  obtain ⟨pre, t, post, -, rfl⟩ := exists_tile_of_mem h
  rw [Tile.start_word]
  omega

/-- Words of a row are not empty when its lexemes are not. -/
theorem start_lt_stop_of_mem {pos : Nat} {ts : List Tile} {w : Word}
    (hne : ∀ t ∈ ts, t.lexeme.text ≠ []) (h : w ∈ (scannedFrom pos ts).map Scanned.word) :
    w.span.start < w.span.stop := by
  obtain ⟨pre, t, post, rfl, rfl⟩ := exists_tile_of_mem h
  have hpos := width_pos_of_ne_nil (hne t (by simp))
  rw [Tile.start_word, Tile.stop_word, Tile.width_text]
  omega

/-- **Words of a row do not overlap.** -/
theorem pairwise_scannedFrom : ∀ (pos : Nat) (ts : List Tile),
    ((scannedFrom pos ts).map Scanned.word).Pairwise fun v w => v.span.stop ≤ w.span.start
  | _, [] => .nil
  | pos, t :: ts => by
      rw [scannedFrom, List.map_cons, List.pairwise_cons]
      refine ⟨fun w hw => ?_, pairwise_scannedFrom _ ts⟩
      rw [Tile.stop_word]
      exact le_start_of_mem hw

/-- The phrases are the four keywords of two words. -/
theorem isPhrase_eq_false {t : Token} (h : t ∉ [.keyword .GROUP_BY, .keyword .ORDER_BY,
    .keyword .PARTITION_BY, .keyword .FORCE_ORDER]) : t.isPhrase = false := by
  cases t with
  | keyword k => cases k <;> first | rfl | simp at h
  | _ => rfl

namespace Script.Tiled

variable {s : Script} {front tail : List Char} {pre post : List Tile} {t : Tile}

/-- A word starts and stops between characters. -/
theorem boundary_eq (h : s.Tiled front (pre ++ t :: post) tail) :
    IsBoundary s.source (width front + width (pre.flatMap Tile.text) + width t.gap) ∧
      IsBoundary s.source (width front + width (pre.flatMap Tile.text) + width t.text) := by
  have hsource : s.source = front ++ (pre.flatMap Tile.text ++ (t.gap ++ (t.lexeme.text ++
      (post.flatMap Tile.text ++ tail)))) := by
    rw [h.source_eq]
    simp [Tile.text]
  refine ⟨⟨front ++ (pre.flatMap Tile.text ++ t.gap),
      t.lexeme.text ++ (post.flatMap Tile.text ++ tail), by rw [hsource]; simp, ?_⟩,
    ⟨front ++ (pre.flatMap Tile.text ++ t.text), post.flatMap Tile.text ++ tail,
      by rw [hsource]; simp [Tile.text], ?_⟩⟩
  · simp only [width_append, Nat.add_assoc]
  · simp only [width_append, Nat.add_assoc]

/-- **A gap is white space**, behind a byte-order mark if it is the first and the script has one. -/
theorem blank_or_mark {cs : List Char} {ts : List Tile} (h : s.Tiled front ts tail)
    (htiling : Tiling cs ts tail) (hfront : front = [] ∨ front = [byteOrderMark]) {i : Nat}
    (hi : i ≤ ts.length) : Blank (s.gapBefore i) ∨
      i = 0 ∧ ∃ blank, Blank blank ∧ s.gapBefore i = byteOrderMark :: blank := by
  have hlen : (ts.take i).length = i := List.length_take_of_le hi
  have hblank : Blank (nextGap tail (ts.drop i)) := by
    cases hdrop : ts.drop i with
    | nil => exact htiling.blank_tail
    | cons t post => exact htiling.blank_gap t (List.mem_of_mem_drop (hdrop ▸ List.mem_cons_self))
  rw [← List.take_append_drop i ts] at h
  have hgap := h.gapBefore_eq
  rw [hlen] at hgap
  rw [hgap]
  by_cases hnil : ts.take i = []
  · rw [if_pos hnil]
    rcases hfront with rfl | rfl
    · exact .inl hblank
    · refine .inr ⟨?_, _, hblank, rfl⟩
      rw [← hlen, hnil, List.length_nil]
  · rw [if_neg hnil]
    exact .inl hblank

end Script.Tiled

/-! ## Scanned scripts -/

/-- **A word that is no phrase is spelled as it stands in the source.** -/
theorem Script.slice?_literal {name source : String} {w : Word}
    (hw : w ∈ (scan name source).words) (hphrase : w.token.isPhrase = false) :
    (scan name source).slice? w.span.start w.span.stop = some w.literal.toList := by
  obtain ⟨front, body, ts, tail, -, -, htiling, htiled⟩ := exists_tiled name source
  rw [htiled.words_eq] at hw
  obtain ⟨pre, t, post, rfl, rfl⟩ := exists_tile_of_mem hw
  have hliteral := htiling.forall_lexeme Lexeme.literal_read t (by simp) hphrase
  rw [htiled.slice?_eq, ← hliteral]
  exact congrArg some String.toList_ofList.symm

/-- **Scanning is lossless**: whatever the text, its words and the white space between them are the
text again. -/
theorem lossless_scan (name source : String) : (Script.scan name source).Lossless := by
  have hliteral := @Script.slice?_literal name source
  obtain ⟨front, body, ts, tail, -, hfront, htiling, htiled⟩ := Script.exists_tiled name source
  generalize Script.scan name source = s at htiled hliteral
  have htile : ∀ w ∈ s.words, ∃ pre t post, ts = pre ++ t :: post ∧ t ∈ ts ∧
      w = t.word (width front + width (pre.flatMap Tile.text)) := by
    intro w hw
    rw [htiled.words_eq] at hw
    obtain ⟨pre, t, post, rfl, rfl⟩ := exists_tile_of_mem hw
    exact ⟨pre, t, post, rfl, by simp, rfl⟩
  refine ⟨fun w hw => ?_, fun w hw => ?_, ?_, fun i hi => ?_, htiled.reconstruct_eq,
    fun w hw => ?_⟩
  · obtain ⟨pre, t, post, rfl, hmem, rfl⟩ := htile w hw
    have hpos := width_pos_of_ne_nil (htiling.text_ne_nil t hmem)
    rw [Tile.start_word, Tile.stop_word, Tile.width_text]
    omega
  · obtain ⟨pre, t, post, rfl, -, rfl⟩ := htile w hw
    rw [Tile.start_word, Tile.stop_word]
    exact htiled.boundary_eq
  · rw [htiled.words_eq]
    exact pairwise_scannedFrom _ _
  · rw [htiled.length_words] at hi
    exact htiled.blank_or_mark htiling hfront hi
  · have hslice : s.slice? w.span.start w.span.stop = some (s.text w) := by
      obtain ⟨pre, t, post, rfl, -, rfl⟩ := htile w hw
      rw [htiled.slice?_eq, htiled.text_eq]
    refine ⟨hslice, fun hphrase => ?_⟩
    exact Option.some.inj (hslice.symm.trans (hliteral hw (isPhrase_eq_false hphrase)))

end SqlScript
