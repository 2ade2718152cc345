/-!
# Text/Case — letter case of the twenty-six Latin letters

Keywords are recognised and printed without regard to the case of the letters `A` to `Z`; no other
character has a second case here, so a long s or a dotless i never matches a keyword.
-/

namespace SqlScript.Text

/-- A text with the letters `a` to `z` in upper case. -/
def upper (s : String) : String :=
  String.ofList (s.toList.map Char.toUpper)

@[simp] theorem toList_upper (s : String) : (upper s).toList = s.toList.map Char.toUpper :=
  String.toList_ofList

end SqlScript.Text
