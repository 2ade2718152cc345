import SqlScript.Proofs.Script.Places
import SqlScript.Proofs.Script.Spelling

/-!
# Proofs/Script/StringLiteral — string literals and the values they write

    value          Cox's        '            (nothing)
    literal       'Cox''s'     N''''         n''

A literal writes its value between two quotes, with every quote of the value doubled, and may have
the mark of national text in front.  What is read as a string is such a literal, with one mark and
one value, and a literal is read whole wherever no further quote stands behind it; without its
closing quote it takes up the script (`Script.scan_stringLiteral`).

The quotes of a literal come in runs of any length.  Doubled quotes are passed in pairs, so what
closes a string is the odd quote of a run (`Lexeme.closeString_doubled_append`).
-/

namespace SqlScript

open Computability SqlScript.Text

/-! ## Literals -/

/-- What stands in front of the quote that opens a string: nothing, or the mark of national text in
either case. -/
inductive StringMark where
  | plain
  | national
  | smallNational
  deriving DecidableEq

/-- The text of a mark. -/
def StringMark.text : StringMark → List Char
  | plain => []
  | national => ['N']
  | smallNational => ['n']

/-- A string literal: its mark, and the value it writes. -/
structure StringLiteral where
  mark : StringMark
  value : List Char
  deriving DecidableEq

namespace StringLiteral

/-- A value with every quote in it doubled. -/
def doubled (value : List Char) : List Char :=
  value.flatMap fun c => if c = singleQuote then [c, c] else [c]

/-- The text of a literal up to its closing quote. -/
def unclosed (l : StringLiteral) : List Char := l.mark.text ++ singleQuote :: doubled l.value

/-- The text of a literal. -/
def text (l : StringLiteral) : List Char := l.unclosed ++ [singleQuote]

@[simp] theorem doubled_nil : doubled [] = [] := rfl

@[simp] theorem doubled_quote (cs : List Char) :
    doubled (singleQuote :: cs) = singleQuote :: singleQuote :: doubled cs := rfl

theorem doubled_cons {c : Char} (h : c ≠ singleQuote) (cs : List Char) :
    doubled (c :: cs) = c :: doubled cs := by
  rw [doubled, List.flatMap_cons, if_neg h]
  rfl

/-- **A value is told from its doubled form.** -/
theorem doubled_injective : Function.Injective doubled := by
  intro as bs h
  induction as generalizing bs with
  | nil =>
    cases bs with
    | nil => rfl
    | cons b bs => by_cases hb : b = singleQuote <;> simp [hb, doubled_cons] at h
  | cons a as ih =>
    cases bs with
    | nil => by_cases ha : a = singleQuote <;> simp [ha, doubled_cons] at h
    | cons b bs =>
      by_cases ha : a = singleQuote <;> by_cases hb : b = singleQuote
      · subst ha hb
        rw [doubled_quote, doubled_quote] at h
        rw [ih (List.cons.inj (List.cons.inj h).2).2]
      · rw [ha, doubled_quote, doubled_cons hb] at h
        exact absurd (List.cons.inj h).1.symm hb
      · rw [hb, doubled_quote, doubled_cons ha] at h
        exact absurd (List.cons.inj h).1 ha
      · rw [doubled_cons ha, doubled_cons hb] at h
        obtain ⟨rfl, hcs⟩ := List.cons.inj h
        rw [ih hcs]

/-- **A literal is told from its text.** -/
theorem text_injective : Function.Injective text := by
  rintro ⟨mark, value⟩ ⟨mark', value'⟩ h
  have hopening : unclosed ⟨mark, value⟩ = unclosed ⟨mark', value'⟩ := List.append_cancel_right h
  cases mark <;> cases mark' <;>
    simp [unclosed, StringMark.text, singleQuote, doubled_injective.eq_iff] at hopening ⊢
  all_goals exact hopening

/-- **What a string holds is a doubled value.** -/
theorem exists_doubled_eq {cs : List Char} (h : cs ∈ Lexeme.stringBody) :
    ∃ value, doubled value = cs := by
  obtain ⟨parts, rfl, hparts⟩ := h
  induction parts with
  | nil => exact ⟨[], rfl⟩
  | cons part parts ih =>
    obtain ⟨value, hvalue⟩ := ih fun p hp => hparts p (List.mem_cons_of_mem part hp)
    rw [List.flatten_cons, ← hvalue]
    rcases hparts part List.mem_cons_self with ⟨c, hc, rfl⟩ | rfl
    · exact ⟨c :: value, doubled_cons (of_decide_eq_true hc) value⟩
    · exact ⟨singleQuote :: value, rfl⟩

/-- **The text of a string is the text of a literal.** -/
theorem exists_text_eq {cs : List Char} (h : cs ∈ Lexeme.stringText) :
    ∃ l : StringLiteral, l.text = cs := by
  obtain ⟨_, ⟨_, hopening, body, hbody, rfl⟩, _, ⟨q', hq', rfl⟩, rfl⟩ := h
  obtain ⟨mark, hmark, _, ⟨q, hq, rfl⟩, rfl⟩ := hopening
  obtain rfl : q = singleQuote := of_decide_eq_true hq
  obtain rfl : q' = singleQuote := of_decide_eq_true hq'
  obtain ⟨value, rfl⟩ := exists_doubled_eq hbody
  obtain ⟨m, rfl⟩ : ∃ m : StringMark, m.text = mark := by
    rcases hmark with rfl | ⟨c, hc, rfl⟩
    · exact ⟨.plain, rfl⟩
    · rcases Bool.or_eq_true_iff.mp hc with hc | hc
      · exact ⟨.national, by rw [of_decide_eq_true hc]; rfl⟩
      · exact ⟨.smallNational, by rw [of_decide_eq_true hc]; rfl⟩
  exact ⟨⟨m, value⟩, by simp [text, unclosed]⟩

end StringLiteral

/-! ## Reading a literal -/

namespace Lexeme

open StringLiteral

/-- A quote that no other follows closes the string. -/
theorem closeString_quote {cs : List Char} (h : cs.head? ≠ some singleQuote) :
    closeString (singleQuote :: cs) = some ([singleQuote], cs) := by
  rw [singleQuote, closeString]
  rintro ds rfl
  simp [singleQuote] at h

/-- Any other character is part of the string. -/
theorem closeString_cons {c : Char} (h : c ≠ singleQuote) (cs : List Char) :
    closeString (c :: cs) = (closeString cs).map fun p => (c :: p.1, p.2) := by
  rw [closeString]
  · exact fun _ hc _ => h hc
  · exact h

/-- **A doubled value is passed whole**, whatever follows it. -/
theorem closeString_doubled_append (value cs : List Char) :
    closeString (doubled value ++ cs) =
      (closeString cs).map fun p => (doubled value ++ p.1, p.2) := by
  induction value with
  | nil => simp
  | cons c value ih =>
    by_cases hc : c = singleQuote
    · rw [hc, doubled_quote, List.cons_append, List.cons_append]
      show (closeString (doubled value ++ cs)).map _ = _
      rw [ih, Option.map_map]
      rfl
    · rw [doubled_cons hc, List.cons_append, closeString_cons hc, ih, Option.map_map]
      rfl

/-- A quote opens a string, whatever stands behind it. -/
theorem opening_singleQuote (next : Option Char) : Opening.of singleQuote next = .string := by
  have hname : isNameStart singleQuote = false := by decide
  have hdigit : singleQuote.isDigit = false := by decide
  simp only [Opening.of, hname, hdigit]
  simp [singleQuote, doubleQuote, isSign]

/-- **A literal is read from its mark**: the word it opens is a string that holds its value and ends
where the text behind says. -/
theorem exists_read_literal (l : StringLiteral) (cs : List Char) :
    ∃ c ds, l.unclosed ++ cs = c :: ds ∧ isSpace c = false ∧ c ≠ byteOrderMark ∧
      read c ds = closed .string .unterminatedString (l.mark.text ++ [singleQuote])
        (doubled l.value ++ cs) closeString := by
  obtain ⟨mark, value⟩ := l
  cases mark with
  | plain =>
    refine ⟨singleQuote, doubled value ++ cs, rfl, by decide, by decide, ?_⟩
    simp only [read, opening_singleQuote]
    rfl
  | national => exact ⟨'N', singleQuote :: (doubled value ++ cs), rfl, by decide, by decide, rfl⟩
  | smallNational =>
    exact ⟨'n', singleQuote :: (doubled value ++ cs), rfl, by decide, by decide, rfl⟩

end Lexeme

namespace Reader

/-- **A literal without a quote behind it is a word**, and the reader goes on behind it. -/
theorem words_of_literal (l : StringLiteral) {behind : List Char}
    (h : behind.head? ≠ some singleQuote) (pos : Nat) :
    (Reader.mk pos (l.text ++ behind)).words =
      ⟨⟨.string, String.ofList l.text, ⟨pos, pos + width l.text⟩⟩, none⟩ ::
        (Reader.mk (pos + width l.text) behind).words := by
  obtain ⟨c, ds, htext, hc, -, hread⟩ := Lexeme.exists_read_literal l (singleQuote :: behind)
  have hclose := Lexeme.closeString_doubled_append l.value (singleQuote :: behind)
  rw [Lexeme.closeString_quote h] at hclose
  rw [Lexeme.closed, hclose] at hread
  have hword : Lexeme.read c ds = .plain .string l.text behind := by
    simpa [StringLiteral.text, StringLiteral.unclosed] using hread
  have happend : l.text ++ behind = c :: ds := by
    rw [← htext]
    simp [StringLiteral.text]
  rw [happend]
  exact words_of_plain hc hword pos

/-- **A literal without its closing quote is an illegal word**, and the last one. -/
theorem words_of_unclosed_literal (l : StringLiteral) (pos : Nat) :
    (Reader.mk pos l.unclosed).words =
      [⟨⟨.illegal, String.ofList l.unclosed, ⟨pos, pos + width l.unclosed⟩⟩,
        some .unterminatedString⟩] := by
  obtain ⟨c, ds, htext, hc, -, hread⟩ := Lexeme.exists_read_literal l []
  have hclose := Lexeme.closeString_doubled_append l.value []
  rw [Lexeme.closed, hclose] at hread
  have hword : Lexeme.read c ds = .unclosed .unterminatedString l.unclosed := by
    simpa [Lexeme.closeString, StringLiteral.unclosed] using hread
  rw [List.append_nil] at htext
  nth_rewrite 1 [htext]
  exact words_of_unclosed hc hword pos

end Reader

namespace Script

/-- A script that opens with a literal is read from its first character. -/
theorem scanned_of_literal (name : String) (l : StringLiteral) (cs : List Char) :
    (scan name (String.ofList (l.unclosed ++ cs))).scanned =
      (Reader.mk 0 (l.unclosed ++ cs)).words := by
  obtain ⟨c, ds, htext, -, hmark, -⟩ := Lexeme.exists_read_literal l cs
  have hhead : (String.ofList (l.unclosed ++ cs)).toList.head? ≠ some byteOrderMark := by
    simpa [htext] using hmark
  rw [scanned_of_head?_ne name hhead, String.toList_ofList]

/-- **Strings are the literals of values.**  A literal that no quote follows is read as one word,
without a fault; every string word is the literal of one mark and one value; and a literal without
its closing quote is one illegal word. -/
theorem scan_stringLiteral (name : String) :
    (∀ (l : StringLiteral) (behind : List Char), behind.head? ≠ some singleQuote →
      (scan name (String.ofList (l.text ++ behind))).scanned =
        ⟨⟨.string, String.ofList l.text, ⟨0, width l.text⟩⟩, none⟩ ::
          (Reader.mk (width l.text) behind).words) ∧
    (∀ source, ∀ w ∈ (scan name source).words, w.token = .string →
      ∃! l : StringLiteral, w.literal = String.ofList l.text) ∧
    ∀ l : StringLiteral,
      let s := scan name (String.ofList l.unclosed)
      s.words = [⟨.illegal, String.ofList l.unclosed, ⟨0, s.size⟩⟩] ∧
        s.diagnostics = [⟨s.position 0, .lexical .unterminatedString⟩] := by
  refine ⟨fun l behind h => ?_, fun source w hw hstring => ?_, fun l => ?_⟩
  · have htext : l.text ++ behind = l.unclosed ++ (singleQuote :: behind) := by
      simp [StringLiteral.text]
    have hwords := Reader.words_of_literal l h 0
    rw [Nat.zero_add, htext] at hwords
    rw [htext, scanned_of_literal, hwords]
  · obtain ⟨c, cs, htoken, hliteral, -⟩ := exists_read hw
    rw [hstring] at htoken
    have hspelled := Lexeme.spelled_read c cs
    rw [Lexeme.Spelled, ← htoken] at hspelled
    obtain ⟨l, hl⟩ := StringLiteral.exists_text_eq hspelled.1
    have hplain := Lexeme.literal_read c cs (by rw [← htoken]; rfl)
    rw [hplain, ← hl] at hliteral
    refine ⟨l, hliteral, fun l' hl' => StringLiteral.text_injective ?_⟩
    exact (String.ofList_injective (hliteral.symm.trans hl')).symm
  · intro s
    have hscanned := scanned_of_literal name l []
    have hsize : width l.unclosed = s.size := by rw [size]; simp [s, scan]
    rw [List.append_nil, Reader.words_of_unclosed_literal, Nat.zero_add, hsize] at hscanned
    exact ⟨by rw [words, hscanned]; rfl, by rw [diagnostics, hscanned]; rfl⟩

/-- A quote at the end of the value makes a run of three, and a value of one quote a run of four. -/
theorem scan_stringLiteral_quotes :
    let l : StringLiteral := ⟨.national, "Cox'".toList⟩
    let behind := " + 'x".toList
    let s := scan "q" "SELECT n''''"
    l.text = "N'Cox'''".toList ∧ behind.head? ≠ some singleQuote ∧
      (scan "q" (String.ofList (l.text ++ behind))).scanned =
        ⟨⟨.string, String.ofList l.text, ⟨0, width l.text⟩⟩, none⟩ ::
          (Reader.mk (width l.text) behind).words ∧
      ∃ w ∈ s.words, w.token = .string ∧
        ∃! l : StringLiteral, w.literal = String.ofList l.text := by
  intro l behind s
  obtain ⟨hread, hstring, -⟩ := scan_stringLiteral "q"
  have hbehind : behind.head? ≠ some singleQuote := by decide
  have hfound : ∃ w ∈ s.words, w.token = .string := by decide +kernel
  obtain ⟨w, hw, htoken⟩ := hfound
  exact ⟨by decide, hbehind, hread l behind hbehind, w, hw, htoken, hstring _ w hw htoken⟩

end Script

end SqlScript
