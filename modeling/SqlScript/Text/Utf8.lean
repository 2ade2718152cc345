/-!
# Text/Utf8 — byte widths and byte slices of a text

Places in a script are byte offsets into its UTF-8 form, while every rule of the language reads
characters.  `width` measures a text in bytes; `takeBytes?` and `dropBytes?` cut it at a byte offset
and refuse an offset inside a character; `slice?` cuts a stretch out of the middle.  Cutting at the
width of a front part gives back that part (`takeBytes?_width_append`, `dropBytes?_width_append`).
-/

namespace SqlScript.Text

/-- The number of bytes a text takes in UTF-8. -/
def width : List Char → Nat
  | [] => 0
  | c :: cs => c.utf8Size + width cs

@[simp] theorem width_nil : width [] = 0 := rfl

@[simp] theorem width_cons (c : Char) (cs : List Char) :
    width (c :: cs) = c.utf8Size + width cs := rfl

@[simp] theorem width_append : ∀ (as bs : List Char), width (as ++ bs) = width as + width bs
  | [], bs => by simp
  | a :: as, bs => by simp only [List.cons_append, width_cons, width_append as bs]; omega

/-- A text that is not empty takes at least one byte. -/
theorem width_pos_of_ne_nil : ∀ {cs : List Char}, cs ≠ [] → 0 < width cs
  | [], h => absurd rfl h
  | c :: _, _ => Nat.lt_of_lt_of_le c.utf8Size_pos (Nat.le_add_right _ _)

/-! ## Cutting at a byte -/

/-- The text before byte `n`; `none` when `n` lies inside a character or past the end. -/
def takeBytes? : (n : Nat) → List Char → Option (List Char)
  | 0, _ => some []
  | _ + 1, [] => none
  | n + 1, c :: cs =>
    if c.utf8Size ≤ n + 1 then (takeBytes? (n + 1 - c.utf8Size) cs).map (c :: ·) else none

/-- The text from byte `n` on; `none` when `n` lies inside a character or past the end. -/
def dropBytes? : (n : Nat) → List Char → Option (List Char)
  | 0, cs => some cs
  | _ + 1, [] => none
  | n + 1, c :: cs => if c.utf8Size ≤ n + 1 then dropBytes? (n + 1 - c.utf8Size) cs else none

@[simp] theorem takeBytes?_zero (cs : List Char) : takeBytes? 0 cs = some [] := by
  cases cs <;> rfl

@[simp] theorem dropBytes?_zero (cs : List Char) : dropBytes? 0 cs = some cs := by
  cases cs <;> rfl

theorem takeBytes?_cons_add (c : Char) (cs : List Char) (n : Nat) :
    takeBytes? (c.utf8Size + n) (c :: cs) = (takeBytes? n cs).map (c :: ·) := by
  have hpos := c.utf8Size_pos
  obtain ⟨m, hm⟩ : ∃ m, c.utf8Size + n = m + 1 := ⟨c.utf8Size + n - 1, by omega⟩
  rw [hm, takeBytes?, if_pos (by omega), show m + 1 - c.utf8Size = n by omega]

theorem dropBytes?_cons_add (c : Char) (cs : List Char) (n : Nat) :
    dropBytes? (c.utf8Size + n) (c :: cs) = dropBytes? n cs := by
  have hpos := c.utf8Size_pos
  obtain ⟨m, hm⟩ : ∃ m, c.utf8Size + n = m + 1 := ⟨c.utf8Size + n - 1, by omega⟩
  rw [hm, dropBytes?, if_pos (by omega), show m + 1 - c.utf8Size = n by omega]

/-- **Taking the width of a front part gives that part.** -/
theorem takeBytes?_width_append : ∀ (as bs : List Char),
    takeBytes? (width as) (as ++ bs) = some as
  | [], bs => by simp
  | a :: as, bs => by
      rw [List.cons_append, width_cons, takeBytes?_cons_add, takeBytes?_width_append as bs]
      rfl

/-- **Dropping the width of a front part gives what follows it.** -/
theorem dropBytes?_width_append : ∀ (as bs : List Char),
    dropBytes? (width as) (as ++ bs) = some bs
  | [], bs => by simp
  | a :: as, bs => by
      rw [List.cons_append, width_cons, dropBytes?_cons_add, dropBytes?_width_append as bs]

/-- What is dropped is a front part of the width asked for. -/
theorem exists_append_of_dropBytes? : ∀ {n : Nat} {cs bs : List Char},
    dropBytes? n cs = some bs → ∃ as, as ++ bs = cs ∧ width as = n
  | 0, cs, bs, h => by
      rw [dropBytes?_zero] at h
      cases h
      exact ⟨[], rfl, rfl⟩
  | n + 1, [], _, h => absurd h (by simp [dropBytes?])
  | n + 1, c :: cs, bs, h => by
      rw [dropBytes?] at h
      split at h
      · next hle =>
        obtain ⟨as, happ, hwidth⟩ := exists_append_of_dropBytes? h
        exact ⟨c :: as, by rw [List.cons_append, happ], by rw [width_cons, hwidth]; omega⟩
      · exact absurd h (by simp)

/-- A text is cut at a byte on both sides or on none. -/
theorem takeBytes?_eq_none : ∀ {n : Nat} {cs : List Char},
    dropBytes? n cs = none → takeBytes? n cs = none
  | 0, cs, h => absurd h (by simp)
  | n + 1, [], _ => rfl
  | n + 1, c :: cs, h => by
      rw [dropBytes?] at h
      rw [takeBytes?]
      split
      · next hle =>
        rw [if_pos hle] at h
        rw [takeBytes?_eq_none h]
        rfl
      · rfl

/-- Dropping at least a byte leaves less text than there was. -/
theorem length_lt_of_dropBytes? {n : Nat} {cs bs : List Char} (hn : 0 < n)
    (h : dropBytes? n cs = some bs) : bs.length < cs.length := by
  obtain ⟨as, rfl, hwidth⟩ := exists_append_of_dropBytes? h
  cases as with
  | nil => simp only [width_nil] at hwidth; omega
  | cons a as => simp only [List.cons_append, List.length_cons, List.length_append]; omega

/-! ## Slices -/

/-- The text from byte `first` up to byte `last`; `none` when the two are out of order, past the
end or inside a character. -/
def slice? (cs : List Char) (first last : Nat) : Option (List Char) :=
  if first ≤ last then (dropBytes? first cs).bind (takeBytes? (last - first)) else none

/-- A slice taken at the widths of three parts is the part in the middle. -/
theorem slice?_append (as bs cs : List Char) :
    slice? (as ++ (bs ++ cs)) (width as) (width as + width bs) = some bs := by
  rw [slice?, if_pos (Nat.le_add_right _ _), dropBytes?_width_append, Option.bind_some,
    Nat.add_sub_cancel_left, takeBytes?_width_append]

end SqlScript.Text
