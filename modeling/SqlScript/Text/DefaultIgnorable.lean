import SqlScript.Text.Range

/-!
# Text/DefaultIgnorable — the Unicode property `Default_Ignorable_Code_Point`

Such a character leaves no trace where it is displayed: joiners, variation selectors, tags, and also
some letters, the fillers of Hangul syllables.  None lies in the seven-bit range; the table is that
of Unicode 17.0.
-/

namespace SqlScript.Text

/-- The ignorable characters from U+0080 to U+FFFF. -/
def defaultIgnorableBasic : List CodeRange :=
  [(0xAD, 0xAD), (0x34F, 0x34F), (0x61C, 0x61C), (0x115F, 0x1160), (0x17B4, 0x17B5),
   (0x180B, 0x180F), (0x200B, 0x200F), (0x202A, 0x202E), (0x2060, 0x206F), (0x3164, 0x3164),
   (0xFE00, 0xFE0F), (0xFEFF, 0xFEFF), (0xFFA0, 0xFFA0), (0xFFF0, 0xFFF8)]

/-- The ignorable characters from U+10000 on. -/
def defaultIgnorableSupplementary : List CodeRange :=
  [(0x1BCA0, 0x1BCA3), (0x1D173, 0x1D17A), (0xE0000, 0xE0FFF)]

/-- A character with the Unicode property `Default_Ignorable_Code_Point`. -/
def isDefaultIgnorable (c : Char) : Bool :=
  !isAscii c && (inRanges defaultIgnorableBasic c || inRanges defaultIgnorableSupplementary c)

end SqlScript.Text
