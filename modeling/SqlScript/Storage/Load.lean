import SqlScript.Storage.FileTree

/-!
# Storage/Load — reading a script from a file

A script is read whole and must be UTF-8; it goes by the last name of its path.  The way to the
files is a parameter, so that the same code reads from a tree in memory and from a disk.
-/

namespace SqlScript.Storage

/-- A way to read and write files. -/
structure Files (m : Type → Type) where
  read : (path : String) → m (Except FileError ByteArray)
  write : (path : String) → (content : String) → m (Except FileError Unit)

/-- The files of a tree, which writing changes. -/
def FileTree.access : Files (StateM FileTree) where
  read path := fun t => (t.read path, t)
  write path content := fun t =>
    match t.write path content.toUTF8 with
    | .ok t' => (.ok (), t')
    | .error e => (.error e, t)

/-- A text read from a file. -/
structure Source where
  name : String
  path : String
  content : String
  deriving DecidableEq

/-- Why a script cannot be loaded. -/
inductive LoadError where
  | file (e : FileError)
  | notUtf8 (path : String)
  deriving DecidableEq

/-- The wording of a reason. -/
def LoadError.text : LoadError → String
  | file e => "IO error: " ++ e.text
  | notUtf8 path => "Script is not valid UTF-8: " ++ path

/-- The script in the bytes read from a path. -/
def decode (path : String) (bytes : ByteArray) : Except LoadError Source :=
  match String.fromUTF8? bytes with
  | some content => .ok ⟨fileName path, path, content⟩
  | none => .error (.notUtf8 path)

/-- The script at a path. -/
def load {m : Type → Type} [Monad m] (files : Files m) (path : String) :
    m (Except LoadError Source) := do
  match ← files.read path with
  | .ok bytes => return decode path bytes
  | .error e => return .error (.file e)

end SqlScript.Storage
