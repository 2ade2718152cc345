import SqlScript.Proofs.Script.Lossless
import SqlScript.Proofs.Script.Places
import SqlScript.Proofs.Script.Retiling

/-!
# Proofs/Script/Blanking — comments are white space

    SELECT a/* x */, b -- y        SELECT a       , b

Blanking a script replaces every byte of its comments by a space.  What is left is a text with the
same code in the same places (`Script.scan_blanked`): no other word reads further or less far
because white space stands where the comment stood.  A comment inside a phrase belongs to the phrase
and stays.
-/

namespace SqlScript

open SqlScript.Text

/-! ## Bytes -/

/-- The bytes of a text in UTF-8. -/
def Text.bytes (cs : List Char) : List UInt8 := cs.flatMap String.utf8EncodeChar

theorem Text.bytes_append (as bs : List Char) : bytes (as ++ bs) = bytes as ++ bytes bs :=
  List.flatMap_append

theorem Text.length_bytes (cs : List Char) : (bytes cs).length = width cs := by
  induction cs with
  | nil => rfl
  | cons c cs ih =>
    rw [bytes, List.flatMap_cons, List.length_append, String.length_utf8EncodeChar, width_cons]
    exact congrArg _ ih

/-- The bytes of a text determine it. -/
theorem Text.bytes_inj {as bs : List Char} : bytes as = bytes bs ↔ as = bs := by
  rw [← List.toByteArray_inj, ← String.ofList_inj, ← String.toByteArray_inj,
    String.toByteArray_ofList, String.toByteArray_ofList]
  rfl

theorem Text.bytes_spaces (n : Nat) :
    bytes (List.replicate n ' ') = List.replicate n 0x20 := by
  induction n with
  | zero => rfl
  | succ n ih =>
    rw [List.replicate_succ, List.replicate_succ, ← ih]
    rfl

theorem Text.width_spaces (n : Nat) : width (List.replicate n ' ') = n := by
  rw [← length_bytes, bytes_spaces, List.length_replicate]

/-- The bytes from offset `pos` on, with a space for each byte `within` picks by its offset. -/
def blankFrom (within : Nat → Bool) (pos : Nat) (bytes : List UInt8) : List UInt8 :=
  bytes.mapIdx fun i b => if within (pos + i) then 0x20 else b

theorem blankFrom_append (within : Nat → Bool) (pos : Nat) (as bs : List UInt8) :
    blankFrom within pos (as ++ bs) =
      blankFrom within pos as ++ blankFrom within (pos + as.length) bs := by
  rw [blankFrom, List.mapIdx_append]
  simp only [blankFrom, Nat.add_assoc, Nat.add_comm as.length]

theorem blankFrom_of_false {within : Nat → Bool} {pos : Nat} {as : List UInt8}
    (h : ∀ n, pos ≤ n → n < pos + as.length → within n = false) :
    blankFrom within pos as = as := by
  refine List.ext_getElem (by simp [blankFrom]) fun i _ hi => ?_
  simp [blankFrom, h (pos + i) (by omega) (by omega)]

theorem blankFrom_of_true {within : Nat → Bool} {pos : Nat} {as : List UInt8}
    (h : ∀ n, pos ≤ n → n < pos + as.length → within n = true) :
    blankFrom within pos as = List.replicate as.length 0x20 := by
  refine List.ext_getElem (by simp [blankFrom]) fun i hi hi' => ?_
  rw [List.length_replicate] at hi'
  simp [blankFrom, h (pos + i) (by omega) (by omega)]

/-- A word is a comment with a byte at the offset. -/
def Word.commentsOn (offset : Nat) (w : Word) : Bool :=
  w.isComment && w.span.start ≤ offset && offset < w.span.stop

/-- No word behind an offset is a comment on it. -/
theorem any_commentsOn_eq_false {n : Nat} {words : List Word} (h : ∀ w ∈ words, n < w.span.start) :
    words.any (Word.commentsOn n) = false := by
  rw [List.any_eq_false]
  intro w hw
  simp [Word.commentsOn, Nat.not_le.mpr (h w hw)]

/-- The bytes of the text of a script, with a space for every byte of a comment. -/
def Script.blankedBytes (s : Script) : List UInt8 :=
  blankFrom (fun offset => s.words.any (Word.commentsOn offset)) 0 (bytes s.source)

/-! ## Blanked tiles -/

/-- The text of a tile, with spaces for a comment. -/
def Tile.blanked (t : Tile) : List Char :=
  if t.lexeme.token = .comment then t.gap ++ List.replicate (width t.lexeme.text) ' ' else t.text

theorem Tile.isComment_word (pos : Nat) (t : Tile) :
    (t.word pos).isComment = decide (t.lexeme.token = .comment) := rfl

/-- A row with its comments blanked opens as it did, or with a space. -/
theorem Tiling.head?_blanked {cs tail : List Char} {ts : List Tile} (h : Tiling cs ts tail) :
    (ts.flatMap Tile.blanked ++ tail).head? = cs.head? ∨
      (ts.flatMap Tile.blanked ++ tail).head? = some ' ' := by
  cases h with
  | tail h => exact .inl rfl
  | @tile gap cs _ c ts hgap hc h =>
    obtain ⟨front, htext, -⟩ := Lexeme.text_read_eq_cons c cs
    rw [List.flatMap_cons, List.append_assoc, Tile.blanked]
    cases gap with
    | cons d gap =>
      left
      split <;> rfl
    | nil =>
      split
      · right
        obtain ⟨n, hn⟩ : ∃ n, width (Lexeme.read c cs).text = n + 1 :=
          Nat.exists_eq_succ_of_ne_zero (by simp [htext, Nat.ne_of_gt c.utf8Size_pos])
        simp [hn, List.replicate_succ]
      · left
        simp [Tile.text, htext]

/-- Nothing is left to blank behind a word that is not closed. -/
theorem Tiling.blanked_of_nil {tail : List Char} {ts : List Tile} (h : Tiling [] ts tail) :
    ts.flatMap Tile.blanked ++ tail = [] := by
  obtain ⟨rfl, rfl⟩ := h.eq_nil
  rfl

/-- **A row with its comments blanked has the other words, in place.** -/
theorem Tiling.exists_blanked {cs tail : List Char} {ts : List Tile} (h : Tiling cs ts tail) :
    ∃ us tail', Tiling (ts.flatMap Tile.blanked ++ tail) us tail' ∧
      leadingName us = leadingName ts ∧
      ∀ pos, scannedFrom pos us =
        (scannedFrom pos ts).filter fun entry => !entry.word.isComment := by
  induction h with
  | @tail cs h => exact ⟨[], cs, .tail h, rfl, fun _ => rfl⟩
  | @tile gap cs tail c ts hgap hc h ih =>
    obtain ⟨us, tail', htiling, hlead, hscan⟩ := ih
    rw [List.flatMap_cons, List.append_assoc, Tile.blanked, leadingName]
    split
    · next hcomment =>
      have hblank : Blank (gap ++ List.replicate (width (Lexeme.read c cs).text) ' ') :=
        List.forall_mem_append.mpr ⟨hgap, fun d hd => List.eq_of_mem_replicate hd ▸ rfl⟩
      obtain ⟨vs, tail'', htile, hscan', hlead'⟩ := htiling.exists_prepend hblank
      refine ⟨vs, tail'', htile, hlead'.trans hlead, fun pos => ?_⟩
      rw [hscan', hscan, scannedFrom,
        List.filter_cons_of_neg (by simpa [Tile.isComment_word] using hcomment), width_append,
        width_spaces, Tile.width_text]
    · next hword =>
      have hallows : (Lexeme.read c cs).Allows (ts.flatMap Tile.blanked ++ tail) :=
        { opens := h.head?_blanked.imp_right fun hspace =>
            ⟨' ', hspace, by decide, fun hcomment => absurd hcomment hword⟩
          name := by rw [htiling.nameBehind_eq, hlead, h.nameBehind_eq]
          unclosed := fun hunclosed => by
            have hrest := Lexeme.rest_of_isUnclosed hunclosed
            rw [hrest] at h ⊢
            exact h.blanked_of_nil }
      have htile := Tiling.exchange hgap hc hallows htiling
      rw [← List.append_assoc] at htile
      refine ⟨_, tail', htile, ?_, fun pos => ?_⟩
      · rw [leadingName]
        exact if_neg hword
      · rw [scannedFrom, scannedFrom, hscan,
          List.filter_cons_of_pos (by simp [Tile.isComment_word, hword])]
        rfl

theorem Tile.commentsOn_word (pos n : Nat) (t : Tile) :
    (t.word pos).commentsOn n =
      (decide (t.lexeme.token = .comment) && decide (pos + width t.gap ≤ n) &&
        decide (n < pos + width t.text)) := by
  rw [Word.commentsOn, isComment_word, start_word, stop_word]

/-- Blanking a tile blanks the bytes of its comment. -/
theorem Tile.bytes_blanked {within : Nat → Bool} {pos : Nat} (t : Tile)
    (hwithin : ∀ n, pos ≤ n → n < pos + width t.text → within n = (t.word pos).commentsOn n) :
    bytes t.blanked = blankFrom within pos (bytes t.text) := by
  simp only [commentsOn_word, width_text] at hwithin
  have hgap : blankFrom within pos (bytes t.gap) = bytes t.gap := by
    refine blankFrom_of_false fun n hle hlt => ?_
    rw [length_bytes] at hlt
    simp [hwithin n hle (by omega), show ¬ pos + width t.gap ≤ n by omega]
  rw [blanked, text, bytes_append, blankFrom_append, length_bytes, hgap]
  split
  · next hcomment =>
    rw [bytes_append, bytes_spaces, blankFrom_of_true, length_bytes]
    intro n hle hlt
    rw [length_bytes] at hlt
    have hstop : n < pos + (width t.gap + width t.lexeme.text) := by omega
    simp [hwithin n (by omega) hstop, hcomment, hle, hstop]
  · next hword =>
    rw [bytes_append, blankFrom_of_false]
    intro n hle hlt
    rw [length_bytes] at hlt
    simp [hwithin n (by omega) (by omega), hword]

/-- **Blanking the comments of a row blanks their bytes.** -/
theorem bytes_flatMap_blanked {within : Nat → Bool} {pos : Nat} {ts : List Tile} (tail : List Char)
    (hwithin : ∀ n, pos ≤ n → within n =
      ((scannedFrom pos ts).map Scanned.word).any (Word.commentsOn n)) :
    bytes (ts.flatMap Tile.blanked ++ tail) =
      blankFrom within pos (bytes (ts.flatMap Tile.text ++ tail)) := by
  induction ts generalizing pos with
  | nil => exact (blankFrom_of_false fun n hn _ => hwithin n hn).symm
  | cons t ts ih =>
    simp only [scannedFrom, List.map_cons, List.any_cons] at hwithin
    have htile : bytes t.blanked = blankFrom within pos (bytes t.text) := by
      -- the words behind the tile start behind it
      refine t.bytes_blanked fun n hle hlt => ?_
      rw [hwithin n hle, any_commentsOn_eq_false, Bool.or_false]
      exact fun w hw => Nat.lt_of_lt_of_le hlt (le_start_of_mem hw)
    have hrow := ih fun n (hn : pos + width t.text ≤ n) => by
      rw [hwithin n (by omega), Tile.commentsOn_word, decide_eq_false (by omega : ¬ n < _),
        Bool.and_false, Bool.false_or]
    rw [List.flatMap_cons, List.flatMap_cons, List.append_assoc, List.append_assoc,
      bytes_append t.blanked, bytes_append t.text, hrow, blankFrom_append, length_bytes, htile]

namespace Script

/-- The bytes of a script with its comments blanked are those of its mark and its blanked tiles. -/
theorem blankedBytes_eq {s : Script} {mark tail : List Char} {ts : List Tile}
    (h : s.Tiled mark ts tail) :
    s.blankedBytes = bytes (mark ++ (ts.flatMap Tile.blanked ++ tail)) := by
  have hmark : ∀ n, 0 ≤ n → n < 0 + (bytes mark).length →
      s.words.any (Word.commentsOn n) = false := by
    intro n _ hn
    rw [length_bytes, Nat.zero_add] at hn
    rw [h.words_eq]
    exact any_commentsOn_eq_false fun w hw => Nat.lt_of_lt_of_le hn (le_start_of_mem hw)
  rw [blankedBytes, h.source_eq, bytes_append, blankFrom_append, blankFrom_of_false hmark,
    bytes_append mark, length_bytes, Nat.zero_add, bytes_flatMap_blanked]
  exact fun n _ => by rw [h.words_eq]

/-- **Blanking its comments leaves the other words of a script**: one text has the bytes of the
script with a space for every byte of a comment, and its words are those that are no comments, with
the same tokens, spellings and spans. -/
theorem scan_blanked (name source : String) :
    ∃ blanked : String,
      (∀ text : String, bytes text.toList = (scan name source).blankedBytes ↔ text = blanked) ∧
      (scan name blanked).words = (scan name source).words.filter fun w => !w.isComment := by
  obtain ⟨mark, body, hsource, hmark, hreader⟩ := Reader.exists_mark source.toList
  obtain ⟨ts, tail, htiling⟩ := exists_tiling body
  obtain ⟨us, tail', hblanked, -, hscan⟩ := htiling.exists_blanked
  have htiled : (scan name source).Tiled mark ts tail :=
    ⟨hsource.trans (by rw [htiling.flatMap_text]), scanned_eq name hreader htiling⟩
  refine ⟨String.ofList (mark ++ (ts.flatMap Tile.blanked ++ tail)), fun text => ?_, ?_⟩
  · rw [blankedBytes_eq htiled, bytes_inj, String.ext_iff, String.toList_ofList]
  · have hblankedReader : Reader.ofText
        (String.ofList (mark ++ (ts.flatMap Tile.blanked ++ tail))).toList =
          ⟨width mark, ts.flatMap Tile.blanked ++ tail⟩ := by
      rw [String.toList_ofList]
      refine Reader.ofText_exchange hmark (hsource ▸ hreader) ?_
      exact htiling.head?_blanked.imp_right fun hspace => by simp [hspace, byteOrderMark]
    rw [words, scanned_eq name hblankedReader hblanked, hscan, words, htiled.scanned_eq,
      List.filter_map]
    rfl

/-- A character of two bytes leaves two spaces, and a comment inside a phrase stays. -/
example : (scan "q" "GROUP/*x*/BY a/*é*/,b").blankedBytes =
    bytes "GROUP/*x*/BY a      ,b".toList := by decide +kernel

end Script

end SqlScript
