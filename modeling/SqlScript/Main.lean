import SqlScript.Command.Run

/-!
# Main — the command line

Reads the arguments, the environment and the files on disk, and leaves the rest to
`SqlScript.Command.run`.
-/

namespace SqlScript.Command

open SqlScript.Storage

/-- The number of an error of the operating system, which some calls give negated. -/
def errorNumber (code : UInt32) : UInt32 := if code < 0x80000000 then code else 0 - code

/-- The reason behind an error of the operating system. -/
def fileErrorOf : IO.Error → FileError
  | .noFileOrDirectory .. => .notFound
  | .inappropriateType _ code details =>
    match errorNumber code with
    | 20 => .notDirectory
    | 21 => .isDirectory
    | _ => .other details
  | .permissionDenied .. => .other "Permission denied (os error 13)"
  | e => .other (toString e)

/-- The files on disk. -/
def disk : Files IO where
  read path := do
    try
      return .ok (← IO.FS.readBinFile path)
    catch e => return .error (fileErrorOf e)
  write path content := do
    try
      IO.FS.writeFile path content
      return .ok ()
    catch e => return .error (fileErrorOf e)

/-- What a usage error is answered with. -/
def usageText : String :=
  "Usage: mssfmt [-v] tokens PATH | parse [--json] PATH | format [-o PATH] [-k CASE] PATH\n"

end SqlScript.Command

open SqlScript in
/-- Carries out the command line. -/
def main (arguments : List String) : IO UInt32 := do
  let environment ← IO.getEnv "MSSFMT_KEYWORD_CASE"
  let outcome ← Command.run Command.disk environment arguments
  IO.print outcome.stdout
  IO.eprint (if outcome.code = 2 then Command.usageText else outcome.stderr)
  return outcome.code.toUInt32
