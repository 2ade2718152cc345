/-!
# Report/Json — JSON values and their indented text

A value is written over several lines, two spaces for each level, with one entry to a line and `[]`
for a list without entries.  In strings only the quote, the backslash and control characters below
U+0020 are escaped.
-/

namespace SqlScript

/-- A JSON value; the fields of an object keep their order. -/
inductive Json where
  | null
  | bool (b : Bool)
  | number (n : Nat)
  | string (s : String)
  | list (entries : List Json)
  | object (fields : List (String × Json))

namespace Json

/-- The value of an option: `null` for none. -/
def ofOption {α : Type} (f : α → Json) : Option α → Json
  | none => null
  | some a => f a

/-- Two hexadecimal digits in lower case. -/
def hexByte (n : Nat) : List Char := [Nat.digitChar (n / 16), Nat.digitChar (n % 16)]

/-- A character as it is written in a string. -/
def escape (c : Char) : List Char :=
  if c = '\x22' ∨ c = '\\' then ['\\', c]
  else if c = '\x08' then ['\\', 'b']
  else if c = '\x0c' then ['\\', 'f']
  else if c = '\n' then ['\\', 'n']
  else if c = '\r' then ['\\', 'r']
  else if c = '\t' then ['\\', 't']
  else if c.toNat < 0x20 then ['\\', 'u', '0', '0'] ++ hexByte c.toNat
  else [c]

/-- A string in quotes. -/
def quoted (s : String) : String := String.ofList ('\x22' :: s.toList.flatMap escape ++ ['\x22'])

/-- A new line at a level. -/
def newLine (level : Nat) : String := "\n" ++ String.ofList (List.replicate (2 * level) ' ')

mutual

/-- The text of a value whose first line stands at a level. -/
def render (level : Nat) : Json → String
  | null => "null"
  | bool b => if b then "true" else "false"
  | number n => toString n
  | string s => quoted s
  | list [] => "[]"
  | list (first :: others) =>
    "[" ++ newLine (level + 1) ++ render (level + 1) first ++ renderEntries (level + 1) others
      ++ newLine level ++ "]"
  | object [] => "\x7b\x7d"
  | object ((key, first) :: others) =>
    "\x7b" ++ newLine (level + 1) ++ quoted key ++ ": " ++ render (level + 1) first
      ++ renderFields (level + 1) others ++ newLine level ++ "\x7d"

/-- The entries of a list behind the first. -/
def renderEntries (level : Nat) : List Json → String
  | [] => ""
  | entry :: others => "," ++ newLine level ++ render level entry ++ renderEntries level others

/-- The fields of an object behind the first. -/
def renderFields (level : Nat) : List (String × Json) → String
  | [] => ""
  | (key, value) :: others =>
    "," ++ newLine level ++ quoted key ++ ": " ++ render level value ++ renderFields level others

end

/-- The text of a value, from the left margin. -/
def text (value : Json) : String := render 0 value

end Json

end SqlScript
