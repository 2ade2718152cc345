import SqlScript.Text.Case
import SqlScript.Text.Utf8

/-!
# Proofs/Text/LetterCase — what changing the case of letters leaves alone

Upper-casing moves the twenty-six letters `a` to `z` and nothing else.  A fact about characters that
holds of these letters therefore holds of every character (`congr_toUpper`), and a map that keeps
the width of every character keeps every byte offset: it commutes with cutting a text
(`takeBytes?_map`, `dropBytes?_map`, `slice?_map`).
-/

namespace SqlScript.Text

/-! ## The letters that have a case -/

/-- The letters `a` to `z`, counted from 0 to 25. -/
def lowercase (i : Nat) : Char := Char.ofNat (97 + i)

theorem exists_lowercase {c : Char} (h : 'a'.val ≤ c.val ∧ c.val ≤ 'z'.val) :
    ∃ i < 26, c = lowercase i := by
  have hlow : 97 ≤ c.toNat := h.1
  have hhigh : c.toNat ≤ 122 := h.2
  refine ⟨c.toNat - 97, by omega, ?_⟩
  rw [lowercase, Nat.add_sub_cancel' hlow, Char.ofNat_toNat]

/-- Every character is its own capital or one of the letters. -/
theorem toUpper_eq_self_or (c : Char) : c.toUpper = c ∨ ∃ i < 26, c = lowercase i := by
  by_cases h : 'a'.val ≤ c.val ∧ c.val ≤ 'z'.val
  · exact .inr (exists_lowercase h)
  · exact .inl (dif_neg h)

/-- **What the twenty-six letters share with their capitals, every character does.** -/
theorem congr_toUpper {α : Type} (f : Char → α)
    (h : ∀ i < 26, f (lowercase i).toUpper = f (lowercase i)) (c : Char) : f c.toUpper = f c := by
  rcases toUpper_eq_self_or c with hc | ⟨i, hi, rfl⟩
  · rw [hc]
  · exact h i hi

@[simp] theorem isAlpha_toUpper (c : Char) : c.toUpper.isAlpha = c.isAlpha :=
  congr_toUpper Char.isAlpha (by decide) c

@[simp] theorem isDigit_toUpper (c : Char) : c.toUpper.isDigit = c.isDigit :=
  congr_toUpper Char.isDigit (by decide) c

@[simp] theorem utf8Size_toUpper (c : Char) : c.toUpper.utf8Size = c.utf8Size :=
  congr_toUpper Char.utf8Size (by decide) c

@[simp] theorem toUpper_toUpper (c : Char) : c.toUpper.toUpper = c.toUpper :=
  congr_toUpper Char.toUpper (by decide) c

/-- A character that is no letter is its own capital. -/
theorem toUpper_of_isAlpha_eq_false {c : Char} (h : c.isAlpha = false) : c.toUpper = c := by
  have hletters : ∀ i < 26, (lowercase i).isAlpha = true := by decide
  rcases toUpper_eq_self_or c with hc | ⟨i, hi, rfl⟩
  · exact hc
  · exact absurd (hletters i hi) (Bool.eq_false_iff.mp h)

/-- …and it is the capital of no other character. -/
theorem toUpper_eq_iff {c d : Char} (hd : d.isAlpha = false) : c.toUpper = d ↔ c = d := by
  constructor
  · intro h
    have hc : c.isAlpha = false := by rw [← isAlpha_toUpper, h, hd]
    rwa [toUpper_of_isAlpha_eq_false hc] at h
  · rintro rfl
    exact toUpper_of_isAlpha_eq_false hd

/-- The letters `A` to `Z`, counted from 0 to 25. -/
def uppercase (i : Nat) : Char := Char.ofNat (65 + i)

theorem exists_uppercase {c : Char} (h : 'A'.val ≤ c.val ∧ c.val ≤ 'Z'.val) :
    ∃ i < 26, c = uppercase i := by
  have hlow : 65 ≤ c.toNat := h.1
  have hhigh : c.toNat ≤ 90 := h.2
  refine ⟨c.toNat - 65, by omega, ?_⟩
  rw [uppercase, Nat.add_sub_cancel' hlow, Char.ofNat_toNat]

/-- Lower case is forgotten in capitals. -/
@[simp] theorem toUpper_toLower (c : Char) : c.toLower.toUpper = c.toUpper := by
  have hletters : ∀ i < 26, (uppercase i).toLower.toUpper = (uppercase i).toUpper := by decide
  by_cases hc : 'A'.val ≤ c.val ∧ c.val ≤ 'Z'.val
  · obtain ⟨i, hi, rfl⟩ := exists_uppercase hc
    exact hletters i hi
  · rw [show c.toLower = c from dif_neg hc]

/-- Capitals are looked for at the front of a text as such characters are. -/
theorem head?_map_toUpper {cs : List Char} {d : Char} (hd : d.isAlpha = false) :
    (cs.map Char.toUpper).head? = some d ↔ cs.head? = some d := by
  cases cs with
  | nil => simp
  | cons c cs => simpa using toUpper_eq_iff hd

/-- Spellings that differ in case have one spelling in capitals. -/
theorem upper_ofList_map_toUpper (cs : List Char) :
    upper (String.ofList (cs.map Char.toUpper)) = upper (String.ofList cs) := by
  simp [upper, Function.comp_def]

/-- Two spellings agree in capitals when their characters do. -/
theorem upper_eq_upper_iff {s t : String} :
    upper s = upper t ↔ s.toList.map Char.toUpper = t.toList.map Char.toUpper := by
  simp [upper, String.ofList_inj]

/-! ## Maps that keep widths -/

section Width

variable {f : Char → Char} (hf : ∀ c, (f c).utf8Size = c.utf8Size)

include hf

theorem width_map : ∀ cs : List Char, width (cs.map f) = width cs
  | [] => rfl
  | c :: cs => by rw [List.map_cons, width_cons, width_cons, hf, width_map cs]

theorem takeBytes?_map : ∀ (n : Nat) (cs : List Char),
    takeBytes? n (cs.map f) = (takeBytes? n cs).map (List.map f)
  | 0, cs => by simp
  | n + 1, [] => rfl
  | n + 1, c :: cs => by
      rw [List.map_cons, takeBytes?, takeBytes?, hf, takeBytes?_map _ cs]
      split
      · cases takeBytes? (n + 1 - c.utf8Size) cs <;> rfl
      · rfl
termination_by _ cs => cs.length

theorem dropBytes?_map : ∀ (n : Nat) (cs : List Char),
    dropBytes? n (cs.map f) = (dropBytes? n cs).map (List.map f)
  | 0, cs => by simp
  | n + 1, [] => rfl
  | n + 1, c :: cs => by
      rw [List.map_cons, dropBytes?, dropBytes?, hf, dropBytes?_map _ cs]
      split <;> rfl
termination_by _ cs => cs.length

/-- **A map that keeps widths can be applied before or after a stretch is cut out.** -/
theorem slice?_map (cs : List Char) (first last : Nat) :
    slice? (cs.map f) first last = (slice? cs first last).map (List.map f) := by
  unfold slice?
  split
  · rw [dropBytes?_map hf]
    cases dropBytes? first cs with
    | none => rfl
    | some bs => exact takeBytes?_map hf (last - first) bs
  · rfl

end Width

end SqlScript.Text
