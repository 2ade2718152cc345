/-!
# Token/Basic — the lexical categories of a script

A token says what a word is.  The three large families are types of their own: keywords, names of
aggregate functions, and symbols.  Keywords and aggregates carry the spelling they have in scripts,
so their constructors are written in capitals.
-/

namespace SqlScript

/-- A reserved word, or a reserved phrase of two words. -/
inductive Keyword where
  | SELECT | DISTINCT | TOP | PERCENT | TIES | AS | FROM | WHERE
  | GROUP_BY | ORDER_BY | PARTITION_BY | FORCE_ORDER
  | JOIN | ON | INNER | LEFT | RIGHT | FULL | CROSS | OUTER
  | HAVING | INTO | CASE | WHEN | THEN | ELSE | END | CUBE | ROLLUP
  | UPDATE | DELETE | INSERT | TRUNCATE | GO | WITH | OPTION
  | UNION | EXCEPT | INTERSECT | IS | NULL | EXISTS
  | AND | OR | NOT | IN | BETWEEN | LIKE | ANY | ALL | SOME
  deriving DecidableEq

/-- A function name that is cased like a keyword. -/
inductive Aggregate where
  | SUM | AVG | COUNT | COUNT_BIG | MIN | MAX | STDEV | STDEVP | VAR | VARP
  | STRING_AGG | CHECKSUM_AGG | GROUPING | GROUPING_ID | APPROX_COUNT_DISTINCT | RECOMPILE
  deriving DecidableEq

/-- An operator or a punctuation mark. -/
inductive Symbol where
  | plus | minus | star | slash | modulo | assign
  | eq | notEq | lt | gt | ltEq | gtEq
  | bitAnd | bitOr | bitXor | bitNot
  | lparen | rparen | lbracket | rbracket | lbrace | rbrace
  | comma | period | semicolon
  deriving DecidableEq

/-- The lexical category of a word. -/
inductive Token where
  /-- The end of the script. -/
  | eof
  /-- Text that is no word of the language. -/
  | illegal
  /-- A line comment or a block comment. -/
  | comment
  /-- A plain, bracketed or quoted name. -/
  | ident
  /-- A number without a decimal point. -/
  | int
  /-- A number with a decimal point. -/
  | float
  /-- A string literal. -/
  | string
  | keyword (k : Keyword)
  | aggregate (a : Aggregate)
  | symbol (s : Symbol)
  deriving DecidableEq

namespace Keyword

/-- The keywords up to the aggregates in the listing of tokens. -/
def clauses : List Keyword :=
  [SELECT, DISTINCT, TOP, PERCENT, TIES, AS, FROM, WHERE,
   GROUP_BY, ORDER_BY, PARTITION_BY, FORCE_ORDER,
   JOIN, ON, INNER, LEFT, RIGHT, FULL, CROSS, OUTER,
   HAVING, INTO, CASE, WHEN, THEN, ELSE, END, CUBE, ROLLUP,
   UPDATE, DELETE, INSERT, TRUNCATE, GO, WITH, OPTION,
   UNION, EXCEPT, INTERSECT, IS, NULL, EXISTS]

/-- The keywords after the aggregates in the listing of tokens. -/
def connectives : List Keyword :=
  [AND, OR, NOT, IN, BETWEEN, LIKE, ANY, ALL, SOME]

/-- Every keyword. -/
def all : List Keyword := clauses ++ connectives

theorem mem_all (k : Keyword) : k ∈ all := by cases k <;> decide

end Keyword

namespace Aggregate

/-- Every aggregate. -/
def all : List Aggregate :=
  [SUM, AVG, COUNT, COUNT_BIG, MIN, MAX, STDEV, STDEVP, VAR, VARP,
   STRING_AGG, CHECKSUM_AGG, GROUPING, GROUPING_ID, APPROX_COUNT_DISTINCT, RECOMPILE]

theorem mem_all (a : Aggregate) : a ∈ all := by cases a <;> decide

end Aggregate

namespace Symbol

/-- Every symbol. -/
def all : List Symbol :=
  [plus, minus, star, slash, modulo, assign, eq, notEq, lt, gt, ltEq, gtEq,
   bitAnd, bitOr, bitXor, bitNot, lparen, rparen, lbracket, rbracket, lbrace, rbrace,
   comma, period, semicolon]

theorem mem_all (s : Symbol) : s ∈ all := by cases s <;> decide

end Symbol

namespace Token

/-- Every token, in the order of the listing. -/
def all : List Token :=
  [eof, illegal, comment, ident, int, float, string] ++ Keyword.clauses.map keyword ++
    Aggregate.all.map aggregate ++ Keyword.connectives.map keyword ++ Symbol.all.map symbol

theorem mem_all (t : Token) : t ∈ all := by
  cases t with
  | keyword k =>
    have hk := List.mem_append.mp (Keyword.mem_all k)
    simpa [all] using hk
  | aggregate a => simp [all, Aggregate.mem_all a]
  | symbol s => simp [all, Symbol.mem_all s]
  | _ => decide

/-- The place of a token in the listing, from 0. -/
def ordinal (t : Token) : Nat := all.idxOf t

/-- Identifiers, numbers and strings. -/
def isLiteral : Token → Bool
  | ident | int | float | string => true
  | _ => false

/-- Words with a fixed spelling of letters: keywords and aggregates. -/
def isKeyword : Token → Bool
  | keyword _ | aggregate _ => true
  | _ => false

/-- Operators and punctuation marks. -/
def isOperator : Token → Bool
  | symbol _ => true
  | _ => false

/-- Names of aggregate functions. -/
def isAggregate : Token → Bool
  | aggregate _ => true
  | _ => false

/-- Keywords that can open a join. -/
def startsJoin : Token → Bool
  | keyword .JOIN | keyword .INNER | keyword .LEFT | keyword .RIGHT | keyword .FULL
  | keyword .CROSS => true
  | _ => false

/-- How tightly an operator binds, 1 being loosest; 0 for what is no operator. -/
def precedence : Token → Nat
  | symbol .assign => 1
  | keyword .ALL | keyword .ANY | keyword .BETWEEN | keyword .IN | keyword .LIKE | keyword .OR
  | keyword .SOME => 2
  | keyword .AND => 3
  | keyword .NOT => 4
  | symbol .eq | symbol .lt | symbol .gt | symbol .ltEq | symbol .gtEq | symbol .notEq => 5
  | symbol .plus | symbol .minus => 6
  | symbol .star | symbol .slash | symbol .modulo => 7
  | _ => 0

end Token

end SqlScript
