import SqlScript.Query.Expression

/-!
# Query/Basic — the parts of a SELECT statement

    SELECT [ ALL | DISTINCT ]
        [ TOP ( expression ) [ PERCENT ] [ WITH TIES ] ]
        column [ , column ... ]
        [ INTO table ]
        [ FROM table [ join ... ] ]
        [ WHERE ... ] [ GROUP BY ... ] [ HAVING ... ] [ ORDER BY ... ] [ OPTION ... ]

Columns, conditions and the bodies of the trailing clauses are kept as runs of words; nothing inside
parentheses is looked into.
-/

namespace SqlScript

/-- `ALL` or `DISTINCT`. -/
inductive Quantifier where
  | all
  | distinct
  deriving DecidableEq

/-- The keyword of a quantifier. -/
def Quantifier.keyword : Quantifier → Keyword
  | all => .ALL
  | distinct => .DISTINCT

/-- The row limit of a query. -/
structure Top where
  /-- A single number, or a run with its parentheses. -/
  count : Expression
  percent : Bool
  withTies : Bool
  deriving DecidableEq

/-- A name in parts, as in `db.dbo.Orders`. -/
structure QualifiedName where
  parts : List String
  deriving DecidableEq

/-- The parts of a name with points between them. -/
def QualifiedName.text (n : QualifiedName) : String := ".".intercalate n.parts

/-- Where the rows of a table come from. -/
inductive TableSource where
  | named (name : QualifiedName)
  /-- A query in parentheses, which are part of the run. -/
  | derived (query : Expression)
  deriving DecidableEq

namespace TableSource

/-- The name of a source; a derived one has none. -/
def nameText : TableSource → String
  | named name => name.text
  | derived _ => ""

/-- The run of a derived source. -/
def query? : TableSource → Option Expression
  | named _ => none
  | derived query => some query

/-- A source in parentheses. -/
def isDerived : TableSource → Bool
  | named _ => false
  | derived _ => true

end TableSource

/-- A table of a query. -/
structure Table where
  source : TableSource
  /-- `AS` was written. -/
  asKeyword : Bool
  aliasName : Option String
  /-- `WITH` and a run in parentheses. -/
  hints : Option Expression
  deriving DecidableEq

/-- The kinds of joins. -/
inductive JoinKind where
  | inner | left | right | full | cross | leftOuter | rightOuter | fullOuter
  deriving DecidableEq

namespace JoinKind

/-- Every kind of join. -/
def all : List JoinKind := [inner, left, right, full, cross, leftOuter, rightOuter, fullOuter]

/-- The kind of join that a keyword in front of `JOIN` names. -/
def ofToken? : Token → Option JoinKind
  | .keyword .INNER => some inner
  | .keyword .LEFT => some left
  | .keyword .RIGHT => some right
  | .keyword .FULL => some full
  | .keyword .CROSS => some cross
  | _ => none

/-- The kind that a further `OUTER` makes of a kind of join, where it may stand. -/
def outer? : JoinKind → Option JoinKind
  | left => some leftOuter
  | right => some rightOuter
  | full => some fullOuter
  | _ => none

/-- The keywords that spell a kind of join in full. -/
def keywords : JoinKind → List Keyword
  | inner => [.INNER, .JOIN]
  | left => [.LEFT, .JOIN]
  | right => [.RIGHT, .JOIN]
  | full => [.FULL, .JOIN]
  | cross => [.CROSS, .JOIN]
  | leftOuter => [.LEFT, .OUTER, .JOIN]
  | rightOuter => [.RIGHT, .OUTER, .JOIN]
  | fullOuter => [.FULL, .OUTER, .JOIN]

/-- The spelling in full. -/
def spelling (k : JoinKind) : String := " ".intercalate (k.keywords.map Keyword.spelling)

/-- The identifier a kind of join goes by in reports. -/
def name : JoinKind → String
  | inner => "Inner"
  | left => "Left"
  | right => "Right"
  | full => "Full"
  | cross => "Cross"
  | leftOuter => "LeftOuter"
  | rightOuter => "RightOuter"
  | fullOuter => "FullOuter"

end JoinKind

/-- A table joined to those before it. -/
structure Join where
  kind : JoinKind
  table : Table
  /-- The words behind `ON`. -/
  condition : Option Expression
  deriving DecidableEq

/-- The tables of a query. -/
structure FromClause where
  table : Table
  joins : List Join
  deriving DecidableEq

/-- A SELECT statement. -/
structure Query where
  quantifier : Option Quantifier
  top : Option Top
  columns : List Expression
  into : Option QualifiedName
  fromClause : Option FromClause
  whereClause : Option Expression
  groupBy : Option Expression
  having : Option Expression
  orderBy : Option Expression
  options : Option Expression
  /-- From `SELECT` to where reading stopped. -/
  range : WordRange
  deriving DecidableEq

end SqlScript
