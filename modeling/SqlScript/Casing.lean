import SqlScript.Script.Basic
import SqlScript.Token.Reserved

/-!
# Casing — printing a script with its keywords in one case

Keywords, aggregates and plain identifiers that are reserved words take the case asked for;
everything else, white space included, is printed as it was read.  Inside a keyword of two words the
comments between them are not touched either, so their ends are found again here: `commentWidth`
measures a block comment in bytes, counting the marks from its first character on.
-/

namespace SqlScript

/-- The case of keywords in print. -/
inductive KeywordCase where
  | upper
  | lower
  | preserve
  deriving DecidableEq

namespace KeywordCase

/-- Every case. -/
def all : List KeywordCase := [upper, lower, preserve]

/-- The case taken when none is asked for. -/
def standard : KeywordCase := upper

/-- The word that asks for a case. -/
def option : KeywordCase → String
  | upper => "upper"
  | lower => "lower"
  | preserve => "preserve"

/-- The case that a word asks for. -/
def ofOption? (text : String) : Option KeywordCase := all.find? fun c => c.option = text

/-- The identifier a case goes by in the log. -/
def name : KeywordCase → String
  | upper => "Upper"
  | lower => "Lower"
  | preserve => "Preserve"

/-- A character in the case asked for. -/
def apply : KeywordCase → Char → Char
  | upper, c => c.toUpper
  | lower, c => c.toLower
  | preserve, c => c

end KeywordCase

namespace Casing

/-! ## The text of a keyword -/

/-- A character of the words of a keyword. -/
def isWordChar (c : Char) : Bool := Text.isAlphanumeric c || c = '_'

/-- The width of the block comment a text opens with, where `depth` comments are open; all of the
text if it is not closed. -/
def commentWidth : (depth : Nat) → List Char → Nat
  | depth, '/' :: '*' :: cs => 2 + commentWidth (depth + 1) cs
  | depth, '*' :: '/' :: cs => if depth ≤ 1 then 2 else 2 + commentWidth (depth - 1) cs
  | depth, c :: cs => c.utf8Size + commentWidth depth cs
  | _, [] => 0

/-- A text cut behind its first `n` bytes. -/
def splitWidth (n : Nat) (cs : List Char) : List Char × List Char :=
  ((Text.takeBytes? n cs).getD cs, (Text.dropBytes? n cs).getD [])

theorem splitWidth_length_lt {n : Nat} {c : Char} {cs : List Char} (hn : 0 < n) :
    (splitWidth n (c :: cs)).2.length < (c :: cs).length := by
  unfold splitWidth
  cases hcut : Text.dropBytes? n (c :: cs) with
  | none => simp
  | some rest => exact Text.length_lt_of_dropBytes? hn hcut

/-- The text of a keyword with its words in the case asked for and the rest as it is. -/
def recase (style : KeywordCase) : List Char → List Char
  | [] => []
  | c :: cs =>
    if isWordChar c then style.apply c :: recase style cs
    else if c = '-' ∧ cs.head? = some '-' then
      let line := Lexeme.splitLine (c :: cs)
      line.1 ++ recase style line.2
    else if c = '/' ∧ cs.head? = some '*' then
      let comment := splitWidth (commentWidth 0 (c :: cs)) (c :: cs)
      comment.1 ++ recase style comment.2
    else c :: recase style cs
termination_by cs => cs.length
decreasing_by
  · simp
  · next h =>
    have hline : line.2 = (Lexeme.splitLine cs).2 := by
      simp [line, Lexeme.splitLine, Lexeme.isLineBreak, h.1]
    have hle := (List.dropWhile_sublist (l := cs) (!Lexeme.isLineBreak ·)).length_le
    rw [hline]
    exact Nat.lt_succ_of_le hle
  · next h =>
    obtain ⟨rest, rfl⟩ : ∃ rest, cs = '*' :: rest := by
      cases cs with
      | nil => simp at h
      | cons d rest => exact ⟨rest, by simpa using h.2⟩
    obtain rfl := h.1
    exact splitWidth_length_lt (by simp only [commentWidth]; omega)
  · simp

/-! ## The words of a script -/

/-- A plain name, as its first character tells: it is not in brackets or quotes. -/
def isUndelimited (text : List Char) : Bool :=
  !text.head?.any fun c => c = '[' || c = Text.doubleQuote

/-- A word that is cased, given its text: a keyword, or a plain identifier that is a reserved
word. -/
def isCased (w : Word) (text : List Char) : Bool :=
  w.token.isKeyword ||
    (w.token == .ident && isUndelimited text && Token.isReserved (String.ofList text))

/-- A word in print, given its text. -/
def printWord (style : KeywordCase) (w : Word) (text : List Char) : List Char :=
  if style ≠ .preserve ∧ isCased w text then recase style text else text

/-- **A script with its keywords in the case asked for.** -/
def render (s : Script) (style : KeywordCase) : String :=
  String.ofList (s.assemble fun w => printWord style w (s.text w))

end Casing

end SqlScript
