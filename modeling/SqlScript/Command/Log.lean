import SqlScript.Text.Quoted

/-!
# Command/Log — the lines of the log

A line shows its level, a message and fields.  Characters that could steer a terminal are escaped in
messages; fields are shown as they are.
-/

namespace SqlScript.Command

/-- How important a line is. -/
inductive Level where
  | debug
  | info
  | warn
  deriving DecidableEq

/-- The label of a level, five characters wide. -/
def Level.label : Level → String
  | debug => "DEBUG"
  | info => " INFO"
  | warn => " WARN"

/-- A line of the log. -/
structure LogEntry where
  level : Level
  message : String
  fields : List (String × String) := []

/-- The characters of the seven-bit range that steer a terminal: bell, backspace, form feed, escape
and delete. -/
def steersTerminal (c : Char) : Bool :=
  c = '\x07' || c = '\x08' || c = '\x0c' || c = '\x1b' || c = '\x7f'

/-- A character as it is shown in a message. -/
def shownChar (c : Char) : List Char :=
  if steersTerminal c then
    ['\\', 'x', Nat.digitChar (c.toNat / 16), Nat.digitChar (c.toNat % 16)]
  else if 0x80 ≤ c.toNat ∧ c.toNat ≤ 0x9F then
    ['\\', 'u', '\x7b'] ++ Text.hexCode c ++ ['\x7d']
  else [c]

namespace LogEntry

/-- The text of a line, with its end. -/
def text (e : LogEntry) : String :=
  let message := String.ofList (e.message.toList.flatMap shownChar)
  let fields := String.join (e.fields.map fun f => " " ++ f.1 ++ "=" ++ f.2)
  e.level.label ++ " " ++ message ++ fields ++ "\n"

/-- The text of the lines that are shown; those for debugging only when asked for. -/
def textOf (verbose : Bool) (entries : List LogEntry) : String :=
  String.join ((entries.filter fun e => verbose || e.level != .debug).map text)

end LogEntry

end SqlScript.Command
