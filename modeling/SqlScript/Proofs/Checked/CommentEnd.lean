import SqlScript.Proofs.Casing.Effect
import SqlScript.Proofs.Checked.Bytes

/-!
# Proofs/Checked/CommentEnd — reader and printer end a block comment at the same byte

    characters    /*      ą       /*      /    …   */      */
    bytes         2F 2A   C4 85   2F 2A   2F   …   2A 2F   2A 2F

The end of a block comment is looked for twice.  The reader passes the first mark and goes on by
marks and characters, with one comment open and a count that must not fall below zero
(`passBlock?`).  The printer goes by pairs of bytes from the first mark on, with no comment open and
a count that stops at zero (`commentEnd?`).  Both come to the width that `commentWidth` measures:
the reader by an induction along the marks (`passBlock?_eq`), the printer because no byte of a wider
character is part of a mark (`commentEnd?_eq`).  So they stop at the same byte, behind a comment
that is closed or at the end of the text (`BlockAt`).
-/

namespace SqlScript.Checked

open SqlScript.Text SqlScript.Lexeme SqlScript.Casing

/-! ## The reader -/

/-- Passes a block comment to its end, where `depth` comments are open; says whether it is closed,
and where the cursor stands then. -/
def passBlock? (source : Checked Char) (depth pos : Nat) : Option (Bool × Nat) := do
  if ← startsWith? source pos ['/', '*'] then source |>.passBlock? (depth + 1) (pos + 2)
  else if ← startsWith? source pos ['*', '/'] then
    let depth ← sub? depth 1
    if depth = 0 then return (true, pos + 2) else source |>.passBlock? depth (pos + 2)
  else
    match ← peek? source pos with
    | some c => source |>.passBlock? depth (pos + c.utf8Size)
    | none => return (false, pos)
partial_fixpoint

section

variable {source cs : List Char} {depth pos : Nat}

/-- **The reader moves on by the width of the comment**, and says what looking for its end says. -/
theorem passBlock?_eq (h : At source pos cs) :
    passBlock? source (depth + 1) pos =
      some ((closeComment depth cs).isSome, pos + commentWidth (depth + 1) cs) := by
  fun_induction closeComment depth cs generalizing pos with
  | case1 depth cs ih =>
    rw [passBlock?, h.startsWith?_eq]
    refine (ih h.cons.cons).trans ?_
    rw [Option.isSome_map, commentWidth, ← Nat.add_assoc]
    rfl
  | case2 cs =>
    rw [passBlock?, h.startsWith?_eq, h.startsWith?_eq]
    rfl
  | case3 depth cs ih =>
    rw [passBlock?, h.startsWith?_eq, h.startsWith?_eq]
    refine (ih h.cons.cons).trans ?_
    rw [Option.isSome_map, commentWidth, if_neg (by omega), ← Nat.add_assoc]
    rfl
  | case4 depth c cs hopen hzero hsucc ih =>
    have hstart := not_mark hopen
    have hstop := not_mark (not_closeMark hzero hsucc)
    rw [passBlock?, h.startsWith?_eq, h.startsWith?_eq, isPrefixOf_pair_eq_false hstart,
      isPrefixOf_pair_eq_false hstop, h.peek?_eq]
    refine (ih h.cons).trans ?_
    rw [Option.isSome_map, commentWidth_cons hstart hstop, Nat.add_assoc]
  | case5 =>
    rw [passBlock?, h.startsWith?_eq, h.startsWith?_eq, h.peek?_eq]
    rfl

/-! ## Reader and printer -/

/-- **A block comment of `n` bytes stands at a cursor**, in front of `text`, and whoever looks for
its end finds it there. -/
structure BlockAt (source : List Char) (pos : Nat) (text : List Char) (closed : Bool) (n : Nat) :
    Prop where
  /-- The reader moves on by `n` bytes and says whether the comment is closed… -/
  passed : passBlock? source 1 (pos + 2) = some (closed, pos + n)
  /-- …as it does where a word is read… -/
  read : passComment? source 1 (pos + 2) = some (if closed then some (pos + n) else none)
  /-- …and the printer finds `n` bytes to copy… -/
  copied : commentEnd? (bytes text) 0 0 = some n
  /-- …as it does where a keyword is cased. -/
  measured : commentWidth 0 text = n
  /-- A comment that is closed is a front part of the text. -/
  comment : closed = true → ∃ comment ∈ blockText, comment <+: text ∧ (bytes comment).length = n
  /-- One that is not takes up all of it. -/
  unclosed : closed = false → text ∈ unclosedBlock ∧ (bytes text).length = n

/-- **Reader and printer end a block comment at the same byte.** -/
theorem exists_blockAt {text : List Char} (hat : At source pos text)
    (hopen : ['/', '*'] <+: text) : ∃ closed n, BlockAt source pos text closed n := by
  obtain ⟨cs, rfl⟩ := hopen
  have hbody : At source (pos + 2) cs := hat.cons.cons
  have hwidth : commentWidth 0 (['/', '*'] ++ cs) = 2 + commentWidth 1 cs := by
    rw [List.cons_append, List.cons_append, commentWidth]
    rfl
  refine ⟨(closeComment 0 cs).isSome, 2 + commentWidth 1 cs, ?_, ?_, ?_, hwidth, ?_, ?_⟩
  · rw [passBlock?_eq hbody, Nat.add_assoc]
  · rw [passComment?_eq hbody]
    cases hclose : closeComment 0 cs with
    | none => rfl
    | some parts =>
      rw [commentWidth_of_closeComment hclose, ← Nat.add_assoc]
      rfl
  · rw [commentEnd?_eq (atByte_zero _), Nat.zero_add, hwidth]
  · intro hclosed
    obtain ⟨⟨as, bs⟩, hclose⟩ := Option.isSome_iff_exists.mp hclosed
    refine ⟨'/' :: '*' :: as, block_mem hclose, ⟨bs, ?_⟩, ?_⟩
    · rw [← (append_of_closeComment hclose).2]
      rfl
    · rw [length_bytes, commentWidth_of_closeComment hclose, width_cons, width_cons,
        ← Nat.add_assoc]
      rfl
  · intro hopen
    have hclose : closeComment 0 cs = none := by simpa using hopen
    refine ⟨unclosedBlock_mem hclose, ?_⟩
    rw [length_bytes, commentWidth_eq_width, hclose, width_append]
    rfl

/-- The slash behind the inner mark opens no second one, and a wide character is no mark. -/
theorem exists_blockAt_overlapping :
    let source := "x/*ą/*/ */*/y".toList
    let text := source.drop 1
    At source 1 text ∧ ['/', '*'] <+: text ∧ BlockAt source 1 text true 12 := by
  intro source text
  have hat : dropBytes? 1 source = some text := by decide +kernel
  have hopen : ['/', '*'] <+: text := by decide +kernel
  have hmeasured : commentWidth 0 text = 12 := by decide +kernel
  have hlength : (bytes text).length ≠ 12 := by decide +kernel
  obtain ⟨closed, n, hblock⟩ := exists_blockAt hat hopen
  obtain rfl : n = 12 := hblock.measured.symm.trans hmeasured
  cases closed with
  | true => exact ⟨hat, hopen, hblock⟩
  | false => exact absurd (hblock.unclosed rfl).2 hlength

end

end SqlScript.Checked
