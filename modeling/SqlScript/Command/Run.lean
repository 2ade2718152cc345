import SqlScript.Command.Arguments
import SqlScript.Command.Log
import SqlScript.Report.Query
import SqlScript.Storage.Load

/-!
# Command/Run — carrying out a command

A command loads a script, prints what was asked for, and logs what it came upon: one warning for
each diagnostic, and with the verbose flag the steps on the way.  It fails only when a file cannot
be read or written.
-/

namespace SqlScript.Command

open SqlScript.Storage

/-- What a program leaves behind: its exit code and what it printed. -/
structure Outcome where
  code : Nat
  stdout : String := ""
  stderr : String := ""
  deriving DecidableEq

/-! ## The log of a script -/

/-- The step of loading. -/
def loadedEntry (source : Source) : LogEntry :=
  ⟨.debug, "loaded script",
    [("name", source.name), ("bytes", toString source.content.utf8ByteSize)]⟩

/-- The step of coming upon a lexical fault. -/
def faultEntry (d : Diagnostic) : LogEntry :=
  let message := match d.cause with
    | .lexical (.illegalCharacter _) => "illegal character"
    | _ => "scan stopped at end of input"
  ⟨.debug, message, [("err", d.message)]⟩

/-- The steps of scanning. -/
def scanEntries (s : Script) : List LogEntry :=
  s.diagnostics.map faultEntry ++
    [⟨.debug, "scanned script",
      [("script", s.name), ("words", toString s.words.length),
       ("diagnostics", toString s.diagnostics.length)]⟩]

/-- The steps of coming upon syntax faults. -/
def syntaxEntries (o : Outline) : List LogEntry :=
  o.syntaxDiagnostics.map fun d => ⟨.debug, "syntax error", [("err", d.message)]⟩

/-- A warning for each diagnostic. -/
def warnings (diagnostics : List Diagnostic) : List LogEntry :=
  diagnostics.map fun d => ⟨.warn, d.message, []⟩

/-! ## What is printed -/

/-- A word on a line of its own: its position, its token and its spelling. -/
def tokenLine (s : Script) (w : Word) : String :=
  (s.position w.span.start).text ++ "\t" ++ w.token.spelling ++ "\t" ++ Text.quotedText w.literal
    ++ "\n"

/-- Every word of a script. -/
def tokenLines (s : Script) : String := String.join (s.words.map (tokenLine s))

/-- The queries of a script. -/
def outlineText (o : Outline) (json : Bool) : String :=
  if json then (Report.outlineJson o).text ++ "\n"
  else String.join (o.queries.map fun q => (Report.queryTree q).text ++ "\n")

/-- The count of queries and diagnostics at the end of the log. -/
def summaryEntry (o : Outline) : LogEntry :=
  ⟨.info, o.script.name ++ ": " ++ toString o.queries.length ++ " SELECT statement(s), "
    ++ toString o.diagnostics.length ++ " diagnostic(s)", []⟩

/-! ## Failures -/

/-- The last lines of a program that could not load its script. -/
def loadFailure : LoadError → String
  | .file e => "Error: " ++ (LoadError.file e).text ++ "\n\nCaused by:\n    " ++ e.text ++ "\n"
  | .notUtf8 path => "Error: " ++ (LoadError.notUtf8 path).text ++ "\n"

/-- The last line of a program that could not write its output. -/
def writeFailure (e : FileError) : String := "Error: " ++ e.text ++ "\n"

/-! ## Actions -/

variable {m : Type → Type} [Monad m]

/-- Prints every word of a script. -/
def runTokens (verbose : Bool) (source : Source) : Outcome :=
  let s := Script.scan source.name source.content
  { code := 0
    stdout := tokenLines s
    stderr := LogEntry.textOf verbose
      (loadedEntry source :: scanEntries s ++ warnings s.diagnostics) }

/-- Prints the queries of a script. -/
def runParse (verbose json : Bool) (source : Source) : Outcome :=
  let o := Outline.parse source.name source.content
  { code := 0
    stdout := outlineText o json
    stderr := LogEntry.textOf verbose
      (loadedEntry source :: scanEntries o.script ++ syntaxEntries o ++ warnings o.diagnostics
        ++ [summaryEntry o]) }

/-- Prints a script with its keywords in one case, or writes it to a file. -/
def runFormat (files : Files m) (verbose : Bool) (output : Option String) (style : KeywordCase)
    (source : Source) : m Outcome := do
  let s := Script.scan source.name source.content
  let text := Casing.render s style
  let entries := loadedEntry source :: scanEntries s ++ warnings s.diagnostics
  let final : LogEntry := ⟨.debug, "formatted " ++ source.name, [("keyword_case", style.name)]⟩
  match output with
  | none =>
    return { code := 0, stdout := text, stderr := LogEntry.textOf verbose (entries ++ [final]) }
  | some path =>
    match ← files.write path text with
    | .ok () =>
      let wrote : LogEntry := ⟨.info, "Wrote " ++ path, []⟩
      return { code := 0, stderr := LogEntry.textOf verbose (entries ++ [wrote, final]) }
    | .error e =>
      return { code := 1, stderr := LogEntry.textOf verbose entries ++ writeFailure e }

/-- Loads a script and goes on with it, or fails. -/
def withSource (files : Files m) (path : String) (body : Source → m Outcome) : m Outcome := do
  match ← load files path with
  | .ok source => body source
  | .error e => return { code := 1, stderr := loadFailure e }

/-- Carries out an action. -/
def runAction (files : Files m) (verbose : Bool) : Action → m Outcome
  | .tokens path => withSource files path fun source => return runTokens verbose source
  | .parse path json => withSource files path fun source => return runParse verbose json source
  | .format path output style =>
    withSource files path (runFormat files verbose output style)

/-- The name and the version of the program. -/
def versionText : String := "mssfmt 0.1.0\n"

/-- **Carries out a command line.** -/
def run (files : Files m) (environment : Option String) (arguments : List String) : m Outcome :=
  match readArguments environment false arguments with
  | .usageError => return { code := 2 }
  | .version => return { code := 0, stdout := versionText }
  | .run verbose action => runAction files verbose action

end SqlScript.Command
