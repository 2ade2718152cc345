import SqlScript.Query.Session
import SqlScript.Script.Basic

/-!
# Script/Outline — a script with its queries and all its diagnostics

The outline of a script is the list of its SELECT statements.  Diagnostics come in two parts: what
is wrong with words, and then what is wrong with statements.
-/

namespace SqlScript

/-- A syntax fault at its place in a script. -/
def Script.syntaxDiagnostic (s : Script) (f : SyntaxFault) : Diagnostic :=
  let found := f.found.getD s.eof
  ⟨s.position found.span.start, .unexpected f.expected.text found⟩

/-- A script, its queries and its diagnostics. -/
structure Outline where
  script : Script
  queries : List Query
  /-- The syntax faults, in the order in which they were met. -/
  faults : List SyntaxFault

namespace Outline

/-- The outline of a script. -/
def ofScript (s : Script) : Outline :=
  let found := (Session.ofWords s.words).statements
  ⟨s, found.1, found.2.faults⟩

/-- The outline of the script with the given name and text. -/
def parse (name source : String) : Outline := ofScript (Script.scan name source)

/-- The diagnostics of the statements. -/
def syntaxDiagnostics (o : Outline) : List Diagnostic := o.faults.map o.script.syntaxDiagnostic

/-- The diagnostics of the words, then those of the statements. -/
def diagnostics (o : Outline) : List Diagnostic := o.script.diagnostics ++ o.syntaxDiagnostics

end Outline

end SqlScript
