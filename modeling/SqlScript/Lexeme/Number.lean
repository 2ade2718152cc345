/-!
# Lexeme/Number — the text of a number

Behind its first character a number goes on with digits, points and exponent marks, and a sign is
part of it only directly behind an exponent mark.  Nothing more is checked: `1.2.3` and `1e` are
numbers.
-/

namespace SqlScript.Lexeme

/-- The mark of an exponent. -/
def isExponentMark (c : Char) : Bool := c = 'e' || c = 'E'

/-- The sign of a number or of its exponent. -/
def isSign (c : Char) : Bool := c = '+' || c = '-'

/-- The characters that continue a number, and what follows; `signed` says that a sign may come
next. -/
def splitNumber (signed : Bool) : List Char → List Char × List Char
  | [] => ([], [])
  | c :: cs =>
    if c.isDigit || c = '.' || isExponentMark c || (signed && isSign c) then
      let more := splitNumber (isExponentMark c) cs
      (c :: more.1, more.2)
    else ([], c :: cs)

/-- The two parts make up the text. -/
theorem splitNumber_append (signed : Bool) (cs : List Char) :
    (splitNumber signed cs).1 ++ (splitNumber signed cs).2 = cs := by
  fun_induction splitNumber signed cs with
  | case1 => rfl
  | case2 signed c cs _ more ih => simp [more, ih]
  | case3 => rfl

end SqlScript.Lexeme
