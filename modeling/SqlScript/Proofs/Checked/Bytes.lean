import SqlScript.Proofs.Casing.Recase
import SqlScript.Proofs.Checked.Cursor
import SqlScript.Proofs.Script.Blanking

/-!
# Proofs/Checked/Bytes — looking for marks among bytes

    'a'  61      'ą'  C4 85      '*'  2A      '/'  2F

Two loops look at the bytes of a text and not at its characters: one looks for the ends of lines,
the other for the marks of block comments.  In UTF-8 a byte below 128 is a character of its own
(`utf8EncodeChar_cases`), so a mark is found exactly where its character stands, and an offset that
such a loop gives lies between two characters: it is the one found by characters
(`lineStarts?_eq`, `commentEnd?_eq`).
-/

namespace SqlScript.Checked

open SqlScript.Text

/-! ## Bytes of characters -/

/-- **A character is a byte below 128, or has no such byte.** -/
theorem utf8EncodeChar_cases (c : Char) :
    c.toNat < 128 ∧ String.utf8EncodeChar c = [UInt8.ofNat c.toNat] ∨
      ∀ b ∈ String.utf8EncodeChar c, 128 ≤ b.toNat := by
  unfold String.utf8EncodeChar
  dsimp only
  split
  · next hle => exact .inl ⟨Nat.lt_succ_of_le hle, rfl⟩
  · right
    split
    · simp only [List.forall_mem_cons, UInt8.toNat_ofNat', List.not_mem_nil, false_imp_iff,
        implies_true, and_true]
      omega
    · split <;>
      · simp only [List.forall_mem_cons, UInt8.toNat_ofNat', List.not_mem_nil, false_imp_iff,
          implies_true, and_true]
        omega

theorem bytes_cons (c : Char) (cs : List Char) :
    bytes (c :: cs) = String.utf8EncodeChar c ++ bytes cs := List.flatMap_cons

/-- **A byte below 128 belongs to no character but its own.** -/
theorem eq_of_mem_utf8EncodeChar {c : Char} {b : UInt8} (h : b ∈ String.utf8EncodeChar c)
    (hb : b.toNat < 128) : c = Char.ofNat b.toNat := by
  rcases utf8EncodeChar_cases c with ⟨hc, hbyte⟩ | hhigh
  · rw [hbyte, List.mem_singleton] at h
    rw [h, UInt8.toNat_ofNat', Nat.mod_eq_of_lt (by omega), Char.ofNat_toNat]
  · exact absurd hb (Nat.not_lt.mpr (hhigh b h))

/-- A text whose bytes open with one below 128 opens with its character. -/
theorem head?_of_head?_bytes {cs : List Char} {b : UInt8} (h : (bytes cs).head? = some b)
    (hb : b.toNat < 128) : cs.head? = some (Char.ofNat b.toNat) := by
  cases cs with
  | nil => cases h
  | cons c cs =>
    have hne : String.utf8EncodeChar c ≠ [] := by
      rw [← List.length_pos_iff, String.length_utf8EncodeChar]
      exact c.utf8Size_pos
    obtain ⟨a, as, hcons⟩ := List.exists_cons_of_ne_nil hne
    rw [bytes_cons, hcons] at h
    obtain rfl : a = b := Option.some.inj h
    exact congrArg some (eq_of_mem_utf8EncodeChar (hcons ▸ List.mem_cons_self) hb)

/-! ## An index among bytes -/

/-- From index `i` on the bytes are `rest`. -/
def AtByte (bs : List UInt8) (i : Nat) (rest : List UInt8) : Prop :=
  i ≤ bs.length ∧ bs.drop i = rest

section

variable {bs as rest : List UInt8} {b : UInt8} {i : Nat}

theorem atByte_zero (bs : List UInt8) : AtByte bs 0 bs := ⟨Nat.zero_le _, rfl⟩

theorem AtByte.length_eq (h : AtByte bs i rest) : bs.length = i + rest.length := by
  rw [← h.2, List.length_drop]
  exact (Nat.add_sub_cancel' h.1).symm

theorem AtByte.getElem?_eq (h : AtByte bs i rest) : bs[i]? = rest.head? := by
  rw [← h.2, List.head?_drop]

theorem AtByte.append (h : AtByte bs i (as ++ rest)) : AtByte bs (i + as.length) rest := by
  have hlength := h.length_eq
  rw [List.length_append] at hlength
  refine ⟨by omega, ?_⟩
  rw [← List.drop_drop, h.2, List.drop_left]

theorem AtByte.cons (h : AtByte bs i (b :: rest)) : AtByte bs (i + 1) rest :=
  AtByte.append (show AtByte bs i ([b] ++ rest) from h)

theorem AtByte.char {c : Char} {cs : List Char} (h : AtByte bs i (bytes (c :: cs))) :
    AtByte bs (i + c.utf8Size) (bytes cs) := by
  rw [bytes_cons] at h
  rw [← String.length_utf8EncodeChar]
  exact h.append

end

/-! ## Line starts -/

/-- The offsets behind the ends of lines from an index on. -/
def lineStarts? (bs : Checked UInt8) (i : Nat) : Option (List Nat) := do
  if i < bs.length then
    let b ← bs[i]?
    if b = 0x0D ∧ bs[i + 1]? = some 0x0A then return (i + 2) :: (← bs |>.lineStarts? (i + 2))
    else if b = 0x0D ∨ b = 0x0A then return (i + 1) :: (← bs |>.lineStarts? (i + 1))
    else bs |>.lineStarts? (i + 1)
  else return []
partial_fixpoint

section

variable {bs as rest : List UInt8} {b : UInt8} {i : Nat}

theorem lineStarts?_cons (h : AtByte bs i (b :: rest)) :
    lineStarts? bs i =
      if b = 0x0D ∧ rest.head? = some 0x0A then
        (lineStarts? bs (i + 2)).map ((i + 2) :: ·)
      else if b = 0x0D ∨ b = 0x0A then (lineStarts? bs (i + 1)).map ((i + 1) :: ·)
      else lineStarts? bs (i + 1) := by
  have hlength := h.length_eq
  rw [List.length_cons] at hlength
  rw [lineStarts?, if_pos (by omega), h.getElem?_eq, h.cons.getElem?_eq]
  simp only [List.head?_cons, Option.bind_eq_bind, Option.bind_some, Option.map_eq_bind]
  rfl

/-- Bytes that are no part of a line end are passed. -/
theorem lineStarts?_append (h : AtByte bs i (as ++ rest))
    (has : ∀ b ∈ as, b ≠ 0x0D ∧ b ≠ 0x0A) :
    lineStarts? bs i = lineStarts? bs (i + as.length) := by
  induction as generalizing i with
  | nil => rfl
  | cons a as ih =>
    obtain ⟨⟨hreturn, hfeed⟩, has⟩ := List.forall_mem_cons.mp has
    rw [lineStarts?_cons h, if_neg fun hmark => hreturn hmark.1,
      if_neg (not_or.mpr ⟨hreturn, hfeed⟩), ih h.cons has, List.length_cons, Nat.add_assoc,
      Nat.add_comm 1]

/-- **Lines start among bytes where they start among characters.** -/
theorem lineStarts?_eq {cs : List Char} (h : AtByte bs i (bytes cs)) :
    lineStarts? bs i = some (LineIndex.startsFrom i cs) := by
  fun_induction LineIndex.startsFrom i cs with
  | case1 i =>
    have hlength := h.length_eq
    rw [lineStarts?, if_neg (by rw [hlength]; simp [bytes])]
    rfl
  | case2 i cs ih =>
    have hpair : AtByte bs i ([0x0D, 0x0A] ++ bytes cs) := h
    rw [lineStarts?_cons hpair, if_pos ⟨rfl, rfl⟩, ih hpair.append]
    rfl
  | case3 i c cs hpair next hend ih =>
    have hnext := ih h.char
    rcases hend with rfl | rfl
    · have hreturn : AtByte bs i (0x0D :: bytes cs) := h
      have hfeed : (bytes cs).head? ≠ some 0x0A := fun hfeed => by
        obtain ⟨ds, hds⟩ := List.head?_eq_some_iff.mp (head?_of_head?_bytes hfeed (by decide))
        exact hpair ds rfl hds
      rw [lineStarts?_cons hreturn, if_neg (fun hmark => hfeed hmark.2), if_pos (.inl rfl)]
      exact congrArg (Option.map _) hnext
    · have hfeed : AtByte bs i (0x0A :: bytes cs) := h
      rw [lineStarts?_cons hfeed, if_neg (by simp), if_pos (.inr rfl)]
      exact congrArg (Option.map _) hnext
  | case4 i c cs hpair next hend ih =>
    rw [← ih h.char]
    rw [bytes_cons] at h
    rw [lineStarts?_append h, String.length_utf8EncodeChar]
    intro b hb
    constructor
    · rintro rfl
      exact hend (.inl (eq_of_mem_utf8EncodeChar hb (by decide)))
    · rintro rfl
      exact hend (.inr (eq_of_mem_utf8EncodeChar hb (by decide)))

/-! ## Block comments -/

/-- The offset behind a block comment, where `depth` comments are open; that of the end if it is not
closed. -/
def commentEnd? (bs : Checked UInt8) (depth i : Nat) : Option Nat := do
  if i + 1 < bs.length then
    let a ← bs[i]?
    let b ← bs[i + 1]?
    if a = 0x2F ∧ b = 0x2A then bs |>.commentEnd? (depth + 1) (i + 2)
    else if a = 0x2A ∧ b = 0x2F then
      -- a count that cannot go below zero
      let depth := depth - 1
      if depth = 0 then return i + 2 else bs |>.commentEnd? depth (i + 2)
    else bs |>.commentEnd? depth (i + 1)
  else return bs.length
partial_fixpoint

variable {depth : Nat}

theorem commentEnd?_pair {a : UInt8} (h : AtByte bs i (a :: b :: rest)) :
    commentEnd? bs depth i =
      if a = 0x2F ∧ b = 0x2A then commentEnd? bs (depth + 1) (i + 2)
      else if a = 0x2A ∧ b = 0x2F then
        if depth - 1 = 0 then some (i + 2) else commentEnd? bs (depth - 1) (i + 2)
      else commentEnd? bs depth (i + 1) := by
  have hlength := h.length_eq
  rw [List.length_cons, List.length_cons] at hlength
  rw [commentEnd?, if_pos (by omega), h.getElem?_eq, h.cons.getElem?_eq]
  rfl

/-- A byte that opens no mark is passed. -/
theorem commentEnd?_cons (h : AtByte bs i (b :: rest))
    (hopen : ¬ (b = 0x2F ∧ rest.head? = some 0x2A))
    (hclose : ¬ (b = 0x2A ∧ rest.head? = some 0x2F)) :
    commentEnd? bs depth i = commentEnd? bs depth (i + 1) := by
  cases rest with
  | nil =>
    have hlength := h.length_eq
    rw [List.length_singleton] at hlength
    rw [commentEnd?, if_neg (by omega), commentEnd?, if_neg (by omega)]
  | cons a rest =>
    simp only [List.head?_cons, Option.some.injEq] at hopen hclose
    rw [commentEnd?_pair h, if_neg hopen, if_neg hclose]

/-- Bytes that are no part of a mark are passed. -/
theorem commentEnd?_append (h : AtByte bs i (as ++ rest))
    (has : ∀ b ∈ as, b ≠ 0x2F ∧ b ≠ 0x2A) :
    commentEnd? bs depth i = commentEnd? bs depth (i + as.length) := by
  induction as generalizing i with
  | nil => rfl
  | cons a as ih =>
    obtain ⟨⟨hslash, hstar⟩, has⟩ := List.forall_mem_cons.mp has
    rw [commentEnd?_cons h (fun hmark => hslash hmark.1) fun hmark => hstar hmark.1,
      ih h.cons has, List.length_cons, Nat.add_assoc, Nat.add_comm 1]

/-- A character that opens no mark is passed. -/
theorem commentEnd?_char {c : Char} {cs : List Char} (h : AtByte bs i (bytes (c :: cs)))
    (hopen : ¬ (c = '/' ∧ cs.head? = some '*')) (hclose : ¬ (c = '*' ∧ cs.head? = some '/')) :
    commentEnd? bs depth i = commentEnd? bs depth (i + c.utf8Size) := by
  by_cases hslash : c = '/'
  · subst hslash
    have hbyte : AtByte bs i (0x2F :: bytes cs) := h
    exact commentEnd?_cons hbyte
      (fun hmark => hopen ⟨rfl, head?_of_head?_bytes hmark.2 (by decide)⟩) (by simp)
  by_cases hstar : c = '*'
  · subst hstar
    have hbyte : AtByte bs i (0x2A :: bytes cs) := h
    exact commentEnd?_cons hbyte (by simp)
      (fun hmark => hclose ⟨rfl, head?_of_head?_bytes hmark.2 (by decide)⟩)
  rw [bytes_cons] at h
  rw [commentEnd?_append h, String.length_utf8EncodeChar]
  intro b hb
  constructor
  · rintro rfl
    exact hslash (eq_of_mem_utf8EncodeChar hb (by decide))
  · rintro rfl
    exact hstar (eq_of_mem_utf8EncodeChar hb (by decide))

/-- **A block comment ends among bytes where it ends among characters.** -/
theorem commentEnd?_eq {cs : List Char} (h : AtByte bs i (bytes cs)) :
    commentEnd? bs depth i = some (i + Casing.commentWidth depth cs) := by
  fun_induction Casing.commentWidth depth cs generalizing i with
  | case1 depth cs ih =>
    have hmark : AtByte bs i (0x2F :: 0x2A :: bytes cs) := h
    have hbehind : AtByte bs (i + 2) (bytes cs) := hmark.cons.cons
    rw [commentEnd?_pair hmark, if_pos ⟨rfl, rfl⟩, ih hbehind, Nat.add_assoc]
  | case2 depth cs hdepth =>
    have hmark : AtByte bs i (0x2A :: 0x2F :: bytes cs) := h
    rw [commentEnd?_pair hmark, if_neg (by simp), if_pos ⟨rfl, rfl⟩, if_pos (by omega)]
  | case3 depth cs hdepth ih =>
    have hmark : AtByte bs i (0x2A :: 0x2F :: bytes cs) := h
    have hbehind : AtByte bs (i + 2) (bytes cs) := hmark.cons.cons
    rw [commentEnd?_pair hmark, if_neg (by simp), if_pos ⟨rfl, rfl⟩, if_neg (by omega),
      ih hbehind, Nat.add_assoc]
  | case4 depth c cs hopen hclose ih =>
    rw [commentEnd?_char h (Lexeme.not_mark hopen) (Lexeme.not_mark hclose), ih h.char,
      Nat.add_assoc]
  | case5 depth =>
    have hlength : bs.length = i := h.length_eq
    rw [commentEnd?, if_neg (by omega), hlength]
    rfl

end

end SqlScript.Checked
