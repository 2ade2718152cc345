/-!
# Storage/Path — paths and what they name

A path is a text with slashes.  Its steps are the parts between them; empty parts and single points
lead nowhere, two points lead to the directory above.  A location is where a path leads: a base
directory and names below it.
-/

namespace SqlScript.Storage

/-- The parts of a text between slashes. -/
def partsOf (path : List Char) : List (List Char) :=
  match path with
  | [] => [[]]
  | c :: cs =>
    match partsOf cs with
    | [] => [[]]
    | part :: others => if c = '/' then [] :: part :: others else (c :: part) :: others

/-- The steps of a path. -/
def steps (path : String) : List String :=
  ((partsOf path.toList).map String.ofList).filter fun part => part ≠ ""

/-- A path that starts at the root of all directories. -/
def isAbsolute (path : String) : Bool := path.toList.head? = some '/'

/-- A path that ends in a slash, and so asks for a directory. -/
def asksForDirectory (path : String) : Bool := path.toList.getLast? = some '/'

/-- The last name of a path; the whole path if it ends in no name. -/
def fileName (path : String) : String :=
  match ((steps path).filter fun part => part ≠ ".").getLast? with
  | some name => if name = ".." then path else name
  | none => path

/-- A directory from which names are counted. -/
inductive Base where
  /-- The directory that lies so many levels above the working directory. -/
  | above (levels : Nat)
  /-- The root of all directories. -/
  | root
  deriving DecidableEq

/-- A place for a file or a directory. -/
structure Location where
  base : Base := .above 0
  names : List String := []
  deriving DecidableEq

namespace Location

/-- Where a path starts. -/
def start (path : String) : Location := { base := if isAbsolute path then .root else .above 0 }

/-- The place called `name` in a directory. -/
def child (l : Location) (name : String) : Location := { l with names := l.names ++ [name] }

/-- The directory above; the root is above itself. -/
def parent (l : Location) : Location :=
  match l.names, l.base with
  | [], .above levels => { base := .above (levels + 1) }
  | [], .root => { base := .root }
  | names, base => ⟨base, names.dropLast⟩

/-- Where one step of a path leads. -/
def step (l : Location) (part : String) : Location :=
  if part = "." then l else if part = ".." then l.parent else l.child part

/-- The directories out of which the steps of a path lead, in the order they are passed. -/
def trail (l : Location) : List String → List Location
  | [] => []
  | part :: more => l :: (l.step part).trail more

end Location

end SqlScript.Storage
