import SqlScript.Text.Quoted

/-!
# Report/Tree — values shown as an indented tree

A record shows its name and its fields, a list its entries, each on lines of their own, four spaces
deeper than what holds them and with a comma behind.
-/

namespace SqlScript

/-- A value to be shown. -/
inductive Tree where
  /-- A value that takes one word. -/
  | leaf (text : String)
  /-- A value inside a named wrapper. -/
  | wrapped (name : String) (value : Tree)
  | list (entries : List Tree)
  | record (name : String) (fields : List (String × Tree))

namespace Tree

/-- A text in quotes. -/
def ofText (s : String) : Tree := leaf (Text.quotedText s)

/-- A truth value. -/
def ofBool (b : Bool) : Tree := leaf (if b then "true" else "false")

/-- A number. -/
def ofNat (n : Nat) : Tree := leaf (toString n)

/-- The value of an option. -/
def ofOption {α : Type} (f : α → Tree) : Option α → Tree
  | none => leaf "None"
  | some a => wrapped "Some" (f a)

/-- A new line at a level. -/
def newLine (level : Nat) : String := "\n" ++ String.ofList (List.replicate (4 * level) ' ')

mutual

/-- The text of a value whose first line stands at a level. -/
def render (level : Nat) : Tree → String
  | leaf text => text
  | wrapped name value =>
    name ++ "(" ++ newLine (level + 1) ++ render (level + 1) value ++ "," ++ newLine level ++ ")"
  | list [] => "[]"
  | list (first :: others) =>
    "[" ++ renderEntries (level + 1) (first :: others) ++ newLine level ++ "]"
  | record name fields =>
    name ++ " \x7b" ++ renderFields (level + 1) fields ++ newLine level ++ "\x7d"

/-- The entries of a list, each with a comma behind. -/
def renderEntries (level : Nat) : List Tree → String
  | [] => ""
  | entry :: others => newLine level ++ render level entry ++ "," ++ renderEntries level others

/-- The fields of a record, each with a comma behind. -/
def renderFields (level : Nat) : List (String × Tree) → String
  | [] => ""
  | (name, value) :: others =>
    newLine level ++ name ++ ": " ++ render level value ++ "," ++ renderFields level others

end

/-- The text of a value, from the left margin. -/
def text (value : Tree) : String := render 0 value

end Tree

end SqlScript
