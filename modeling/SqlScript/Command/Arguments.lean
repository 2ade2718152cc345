import SqlScript.Casing

/-!
# Command/Arguments — what a command line asks for

A command is a word, `tokens`, `parse` or `format`, with one path and its options.  Options come in
a long form, with their value behind an equals sign or in the next argument, and in a short form,
where flags may be run together and a value may follow directly.  Whatever does not fit is a usage
error.
-/

namespace SqlScript.Command

/-- What to do with a script. -/
inductive Action where
  /-- Print every word with its position. -/
  | tokens (path : String)
  /-- Print the queries, as JSON or as trees. -/
  | parse (path : String) (json : Bool)
  /-- Print the script with its keywords in one case, or write it to a file. -/
  | format (path : String) (output : Option String) (style : KeywordCase)
  deriving DecidableEq

/-- What a command line asks for. -/
inductive Request where
  | usageError
  | version
  | run (verbose : Bool) (action : Action)
  deriving DecidableEq

/-- The three commands. -/
inductive Verb where
  | tokens
  | parse
  | format
  deriving DecidableEq

/-- The command a word names. -/
def Verb.ofText? : String → Option Verb
  | "tokens" => some tokens
  | "parse" => some parse
  | "format" => some format
  | _ => none

/-- The options and flags behind a command. -/
inductive Switch where
  | verbose
  | json
  | output
  | keywordCase
  deriving DecidableEq

namespace Switch

/-- A switch that takes a value. -/
def takesValue : Switch → Bool
  | verbose | json => false
  | output | keywordCase => true

/-- The switch of a command with a long name. -/
def ofName? (verb : Verb) (name : String) : Option Switch :=
  match verb, name with
  | _, "verbose" => some verbose
  | .parse, "json" => some json
  | .format, "output" => some output
  | .format, "keyword-case" => some keywordCase
  | _, _ => none

/-- The switch of a command with a short name. -/
def ofLetter? (verb : Verb) (letter : Char) : Option Switch :=
  match verb, letter with
  | _, 'v' => some verbose
  | .format, 'o' => some output
  | .format, 'k' => some keywordCase
  | _, _ => none

end Switch

/-- What has been read behind a command. -/
structure Settings where
  verbose : Bool := false
  path : Option String := none
  json : Bool := false
  output : Option String := none
  style : Option KeywordCase := none

namespace Settings

/-- The settings with a flag, which may be given once. -/
def flag? (s : Settings) : Switch → Option Settings
  | .verbose => if s.verbose then none else some { s with verbose := true }
  | .json => if s.json then none else some { s with json := true }
  | .output | .keywordCase => none

/-- The settings with the value of an option, which may be given once and must make sense. -/
def option? (s : Settings) (switch : Switch) (value : String) : Option Settings :=
  match switch with
  | .output =>
    if s.output.isSome || value = "" then none else some { s with output := some value }
  | .keywordCase =>
    if s.style.isSome then none
    else (KeywordCase.ofOption? value).map fun style => { s with style := some style }
  | .verbose | .json => none

/-- The settings with the path, which is given once and is not empty. -/
def path? (s : Settings) (path : String) : Option Settings :=
  if s.path.isSome || path = "" then none else some { s with path := some path }

/-- The settings with a list of paths. -/
def paths? (s : Settings) : List String → Option Settings
  | [] => some s
  | path :: more => (s.path? path).bind fun s => s.paths? more

end Settings

/-! ## Shapes of an argument -/

/-- The form of an argument. -/
inductive Shape where
  /-- Two hyphens: only paths follow. -/
  | separator
  /-- A long name, with a value if there is an equals sign. -/
  | long (name : String) (value : Option String)
  /-- Letters behind one hyphen. -/
  | short (letters : List Char)
  | plain

/-- The text in front of the first equals sign and the text behind it, if there is one. -/
def splitEquals : List Char → List Char × Option (List Char)
  | [] => ([], none)
  | '=' :: cs => ([], some cs)
  | c :: cs => (c :: (splitEquals cs).1, (splitEquals cs).2)

/-- The form of an argument. -/
def Shape.of (argument : String) : Shape :=
  match argument.toList with
  | ['-', '-'] => separator
  | '-' :: '-' :: cs =>
    long (String.ofList (splitEquals cs).1) ((splitEquals cs).2.map String.ofList)
  | '-' :: c :: cs => short (c :: cs)
  | _ => plain

/-- An argument that can be the value of an option. -/
def isValue (argument : String) : Bool :=
  match Shape.of argument with
  | .plain => true
  | _ => false

/-! ## Behind the command -/

/-- Letters run together: flags, and at the end an option, with its value if it follows directly. -/
def readLetters (verb : Verb) (s : Settings) : List Char → Option (Settings × Option Switch)
  | [] => some (s, none)
  | c :: cs =>
    match Switch.ofLetter? verb c with
    | none => none
    | some switch =>
      if switch.takesValue then
        match cs with
        | [] => some (s, some switch)
        | '=' :: value => (s.option? switch (String.ofList value)).map (·, none)
        | value => (s.option? switch (String.ofList value)).map (·, none)
      else (s.flag? switch).bind fun s => readLetters verb s cs

/-- A long name with what stands behind its equals sign. -/
def readLong (verb : Verb) (s : Settings) (name : String) (value : Option String) :
    Option (Settings × Option Switch) :=
  match Switch.ofName? verb name with
  | none => none
  | some switch =>
    match switch.takesValue, value with
    | true, none => some (s, some switch)
    | true, some value => (s.option? switch value).map (·, none)
    | false, none => (s.flag? switch).map (·, none)
    | false, some _ => none

/-- The settings that the arguments behind a command make, where an option may still wait for its
value. -/
def readSettings (verb : Verb) (s : Settings) (waiting : Option Switch) :
    List String → Option Settings
  | [] => if waiting.isSome then none else some s
  | argument :: more =>
    match waiting with
    | some switch =>
      if isValue argument then
        (s.option? switch argument).bind fun s => readSettings verb s none more
      else none
    | none =>
      match Shape.of argument with
      | .separator => s.paths? more
      | .long name value =>
        (readLong verb s name value).bind fun r => readSettings verb r.1 r.2 more
      | .short letters => (readLetters verb s letters).bind fun r => readSettings verb r.1 r.2 more
      | .plain => (s.path? argument).bind fun s => readSettings verb s none more

/-- The case of keywords: the one asked for, or that of the environment, or the standard one. -/
def chooseStyle (asked : Option KeywordCase) (environment : Option String) : Option KeywordCase :=
  match asked, environment with
  | some style, _ => some style
  | none, some text => KeywordCase.ofOption? text
  | none, none => some .standard

/-- The action that a command with its settings stands for. -/
def actionOf (verb : Verb) (s : Settings) (environment : Option String) : Option Action :=
  s.path.bind fun path =>
    match verb with
    | .tokens => some (.tokens path)
    | .parse => some (.parse path s.json)
    | .format => (chooseStyle s.style environment).map (.format path s.output ·)

/-- What a command with its arguments asks for. -/
def requestOf (verb : Verb) (verbose : Bool) (environment : Option String)
    (arguments : List String) : Request :=
  match readSettings verb {} none arguments with
  | none => .usageError
  | some s =>
    match actionOf verb s environment with
    | none => .usageError
    | some action => .run (verbose || s.verbose) action

/-! ## In front of the command -/

/-- Letters run together in front of a command: how they leave the verbose flag, or what they ask
for at once. -/
def readFirstLetters (verbose : Bool) : List Char → Except Request Bool
  | [] => .ok verbose
  | 'v' :: cs => if verbose then .error .usageError else readFirstLetters true cs
  | 'V' :: _ => .error .version
  | _ :: _ => .error .usageError

/-- **What a command line asks for**, where `environment` is the case of keywords the environment
sets. -/
def readArguments (environment : Option String) (verbose : Bool) : List String → Request
  | [] => .usageError
  | argument :: more =>
    match Verb.ofText? argument with
    | some verb => requestOf verb verbose environment more
    | none =>
      match Shape.of argument with
      | .long "version" none => .version
      | .long "verbose" none =>
        if verbose then .usageError else readArguments environment true more
      | .short letters =>
        match readFirstLetters verbose letters with
        | .ok verbose => readArguments environment verbose more
        | .error request => request
      | _ => .usageError

end SqlScript.Command
