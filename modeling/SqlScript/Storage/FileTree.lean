import SqlScript.Storage.Path

/-!
# Storage/FileTree — files in directories

A file tree holds the contents of files by their locations, and the directories that are there; the
working directory and those above it always are.  Paths are followed step by step, and the first
step that fails says why.
-/

namespace SqlScript.Storage

/-- Why a file cannot be read or written. -/
inductive FileError where
  | notFound
  | notDirectory
  | isDirectory
  | nameTooLong
  | nulInPath
  /-- Any other reason, in the words of the operating system. -/
  | other (text : String)
  deriving DecidableEq

/-- The wording of a reason, with its number where it has one. -/
def FileError.text : FileError → String
  | notFound => "No such file or directory (os error 2)"
  | notDirectory => "Not a directory (os error 20)"
  | isDirectory => "Is a directory (os error 21)"
  | nameTooLong => "File name too long (os error 36)"
  | nulInPath => "file name contained an unexpected NUL byte"
  | other text => text

/-- The contents of files, and the directories beside those that are always there. -/
structure FileTree where
  files : List (Location × ByteArray) := []
  directories : List Location := []

/-- What is at a place. -/
inductive Entry where
  | directory
  | file (content : ByteArray)
  | absent

namespace FileTree

/-- The file or directory at a place. -/
def entry (t : FileTree) (l : Location) : Entry :=
  if l.names.isEmpty then .directory
  else
    match t.files.find? fun f => f.1 = l with
    | some f => .file f.2
    | none => if t.directories.contains l then .directory else .absent

/-! ## Following a path -/

/-- The longest name of a file in bytes. -/
def maxName : Nat := 255

/-- The longest path in bytes. -/
def maxPath : Nat := 4095

/-- One step of a path, which must lead out of a directory. -/
def follow (t : FileTree) (l : Location) (part : String) : Except FileError Location :=
  match t.entry l with
  | .directory => if maxName < part.utf8ByteSize then .error .nameTooLong else .ok (l.step part)
  | .file _ => .error .notDirectory
  | .absent => .error .notFound

/-- Where the steps of a path lead. -/
def walk (t : FileTree) (l : Location) : List String → Except FileError Location
  | [] => .ok l
  | part :: more =>
    match t.follow l part with
    | .ok next => t.walk next more
    | .error e => .error e

/-- Where a path leads if `route` is taken from its start; the path as a whole is judged first. -/
def travel (t : FileTree) (path : String) (route : List String) : Except FileError Location :=
  if path.toList.contains '\x00' then .error .nulInPath
  else if path = "" then .error .notFound
  else if maxPath < path.utf8ByteSize then .error .nameTooLong
  else t.walk (.start path) route

/-- The place a path names. -/
def locate (t : FileTree) (path : String) : Except FileError Location :=
  t.travel path (steps path)

/-- The directory in which the last step of a path is taken; that it is one shows in the step that
stays there. -/
def locateParent (t : FileTree) (path : String) : Except FileError Location :=
  t.travel path ((steps path).dropLast ++ ["."])

/-! ## Reading and writing -/

/-- The content of the file a path names. -/
def read (t : FileTree) (path : String) : Except FileError ByteArray :=
  match t.locate path with
  | .error e => .error e
  | .ok l =>
    match t.entry l with
    | .directory => .error .isDirectory
    | .absent => .error .notFound
    | .file content => if asksForDirectory path then .error .notDirectory else .ok content

/-- The tree with a file of the given content at a place. -/
def put (t : FileTree) (l : Location) (content : ByteArray) : FileTree :=
  { t with files := (l, content) :: t.files.filter fun f => f.1 ≠ l }

/-- The tree after a file has been written, in a directory that is there.  A path that asks for a
directory is refused before its last name is looked at. -/
def write (t : FileTree) (path : String) (content : ByteArray) : Except FileError FileTree :=
  match t.locateParent path with
  | .error e => .error e
  | .ok _ =>
    if asksForDirectory path then .error .isDirectory
    else
      match t.locate path with
      | .error e => .error e
      | .ok l =>
        match t.entry l with
        | .directory => .error .isDirectory
        | .file _ | .absent => .ok (t.put l content)

/-- The tree with a file where a path from the working directory leads, and with every directory
that is passed on the way. -/
def plant (t : FileTree) (path : String) (content : ByteArray) : FileTree :=
  { t.put ((steps path).foldl Location.step {}) content with
    directories := Location.trail {} (steps path) ++ t.directories }

/-- The tree with the given files by their paths; of two at one place the later one is there. -/
def ofFiles (files : List (String × ByteArray)) : FileTree :=
  files.foldl (fun t f => t.plant f.1 f.2) {}

end FileTree

end SqlScript.Storage
