import SqlScript.Text.Quoted

/-!
# Lexeme/Delimited — string literals and delimited names

A string literal ends at the first quote that is not doubled.  A delimited name ends at the first
closing mark; there is no way to write that mark inside it.  Both are read from just behind the
opening mark.
-/

namespace SqlScript.Lexeme

/-- The text up to and with the quote that closes a string, and what follows; `none` if the text
ends first.  Two quotes in a row are one quote of the string. -/
def closeString : List Char → Option (List Char × List Char)
  | '\x27' :: '\x27' :: cs => (closeString cs).map fun p => ('\x27' :: '\x27' :: p.1, p.2)
  | '\x27' :: cs => some (['\x27'], cs)
  | c :: cs => (closeString cs).map fun p => (c :: p.1, p.2)
  | [] => none

theorem append_of_closeString {cs as bs : List Char} (h : closeString cs = some (as, bs)) :
    as ++ bs = cs := by
  fun_induction closeString cs generalizing as bs with
  | case1 cs ih | case3 c cs _ _ ih =>
    obtain ⟨⟨as', bs'⟩, hclose, heq⟩ := Option.map_eq_some_iff.mp h
    cases heq
    simp [ih hclose]
  | case2 cs _ => cases h; rfl
  | case4 => exact absurd h (by simp)

/-- The text up to and with the first `mark`, and what follows; `none` if there is none. -/
def closeName (mark : Char) : List Char → Option (List Char × List Char)
  | [] => none
  | c :: cs =>
    if c = mark then some ([c], cs) else (closeName mark cs).map fun p => (c :: p.1, p.2)

theorem append_of_closeName {mark : Char} {cs as bs : List Char}
    (h : closeName mark cs = some (as, bs)) : as ++ bs = cs := by
  fun_induction closeName mark cs generalizing as bs with
  | case1 => exact absurd h (by simp)
  | case2 cs => cases h; rfl
  | case3 c cs hmark ih =>
    obtain ⟨⟨as', bs'⟩, hclose, heq⟩ := Option.map_eq_some_iff.mp h
    cases heq
    simp [ih hclose]

end SqlScript.Lexeme
