import SqlScript.Token.Basic
import SqlScript.Text.Case

/-!
# Token/Spelling — how tokens are spelled, and which token a spelling is

`Token.spelling` writes a token the way a script does, in capitals; `Token.keyword?` and
`Token.aggregate?` read a spelling back, whatever its case, from a table of their own.  The tables
hold what the spellings say and nothing else (`keyword?_eq_some_iff`, `aggregate?_eq_some_iff`).
`Token.name` is the identifier a token goes by in reports.
-/

namespace SqlScript

/-- The spelling in capitals; a phrase has a single space. -/
def Keyword.spelling : Keyword → String
  | SELECT => "SELECT" | DISTINCT => "DISTINCT" | TOP => "TOP" | PERCENT => "PERCENT"
  | TIES => "TIES" | AS => "AS" | FROM => "FROM" | WHERE => "WHERE"
  | GROUP_BY => "GROUP BY" | ORDER_BY => "ORDER BY" | PARTITION_BY => "PARTITION BY"
  | FORCE_ORDER => "FORCE ORDER"
  | JOIN => "JOIN" | ON => "ON" | INNER => "INNER" | LEFT => "LEFT" | RIGHT => "RIGHT"
  | FULL => "FULL" | CROSS => "CROSS" | OUTER => "OUTER"
  | HAVING => "HAVING" | INTO => "INTO" | CASE => "CASE" | WHEN => "WHEN" | THEN => "THEN"
  | ELSE => "ELSE" | END => "END" | CUBE => "CUBE" | ROLLUP => "ROLLUP"
  | UPDATE => "UPDATE" | DELETE => "DELETE" | INSERT => "INSERT" | TRUNCATE => "TRUNCATE"
  | GO => "GO" | WITH => "WITH" | OPTION => "OPTION"
  | UNION => "UNION" | EXCEPT => "EXCEPT" | INTERSECT => "INTERSECT"
  | IS => "IS" | NULL => "NULL" | EXISTS => "EXISTS"
  | AND => "AND" | OR => "OR" | NOT => "NOT" | IN => "IN" | BETWEEN => "BETWEEN"
  | LIKE => "LIKE" | ANY => "ANY" | ALL => "ALL" | SOME => "SOME"

/-- The spelling in capitals. -/
def Aggregate.spelling : Aggregate → String
  | SUM => "SUM" | AVG => "AVG" | COUNT => "COUNT" | COUNT_BIG => "COUNT_BIG"
  | MIN => "MIN" | MAX => "MAX" | STDEV => "STDEV" | STDEVP => "STDEVP"
  | VAR => "VAR" | VARP => "VARP" | STRING_AGG => "STRING_AGG" | CHECKSUM_AGG => "CHECKSUM_AGG"
  | GROUPING => "GROUPING" | GROUPING_ID => "GROUPING_ID"
  | APPROX_COUNT_DISTINCT => "APPROX_COUNT_DISTINCT" | RECOMPILE => "RECOMPILE"

/-- The spelling; inequality has a second one, `<>`. -/
def Symbol.spelling : Symbol → String
  | plus => "+" | minus => "-" | star => "*" | slash => "/" | modulo => "%" | assign => "="
  | eq => "=" | notEq => "!=" | lt => "<" | gt => ">" | ltEq => "<=" | gtEq => ">="
  | bitAnd => "&" | bitOr => "|" | bitXor => "^" | bitNot => "~"
  | lparen => "(" | rparen => ")" | lbracket => "[" | rbracket => "]"
  | lbrace => "\x7b" | rbrace => "\x7d" | comma => "," | period => "." | semicolon => ";"

/-- The identifier a symbol goes by. -/
def Symbol.name : Symbol → String
  | plus => "Plus" | minus => "Minus" | star => "Star" | slash => "Slash" | modulo => "Modulo"
  | assign => "Assign" | eq => "Eq" | notEq => "NotEq" | lt => "Lt" | gt => "Gt"
  | ltEq => "LtEq" | gtEq => "GtEq" | bitAnd => "BitAnd" | bitOr => "BitOr"
  | bitXor => "BitXor" | bitNot => "BitNot" | lparen => "LParen" | rparen => "RParen"
  | lbracket => "LBracket" | rbracket => "RBracket" | lbrace => "LBrace" | rbrace => "RBrace"
  | comma => "Comma" | period => "Period" | semicolon => "Semicolon"

/-- The parts of a spelling, divided at blanks and underscores, each with a capital first letter,
in one word: `GROUP BY` is `GroupBy`. -/
def camelCase (spelling : String) : String :=
  let rec go : (initial : Bool) → List Char → List Char
    | _, [] => []
    | initial, c :: cs =>
      if c = ' ' ∨ c = '_' then go true cs
      else (if initial then c.toUpper else c.toLower) :: go false cs
  String.ofList (go true spelling.toList)

namespace Token

/-- The canonical spelling of a token; categories without one have a name in capitals. -/
def spelling : Token → String
  | eof => "EOF"
  | illegal => "ILLEGAL"
  | comment => "COMMENT"
  | ident => "IDENT"
  | int => "INT"
  | float => "FLOAT"
  | string => "STRING"
  | keyword k => k.spelling
  | aggregate a => a.spelling
  | symbol s => s.spelling

/-- The identifier a token goes by in reports. -/
def name : Token → String
  | symbol s => s.name
  | t => camelCase t.spelling

/-! ## Reading a spelling back -/

/-- The keywords by their spellings; a phrase is found with a single space only. -/
def keywordTable : List (String × Keyword) :=
  [("SELECT", .SELECT), ("DISTINCT", .DISTINCT), ("TOP", .TOP), ("PERCENT", .PERCENT),
   ("TIES", .TIES), ("AS", .AS), ("FROM", .FROM), ("WHERE", .WHERE), ("GROUP BY", .GROUP_BY),
   ("ORDER BY", .ORDER_BY), ("PARTITION BY", .PARTITION_BY), ("FORCE ORDER", .FORCE_ORDER),
   ("JOIN", .JOIN), ("ON", .ON), ("INNER", .INNER), ("LEFT", .LEFT), ("RIGHT", .RIGHT),
   ("FULL", .FULL), ("CROSS", .CROSS), ("OUTER", .OUTER), ("HAVING", .HAVING), ("INTO", .INTO),
   ("CASE", .CASE), ("WHEN", .WHEN), ("THEN", .THEN), ("ELSE", .ELSE), ("END", .END),
   ("CUBE", .CUBE), ("ROLLUP", .ROLLUP), ("UPDATE", .UPDATE), ("DELETE", .DELETE),
   ("INSERT", .INSERT), ("TRUNCATE", .TRUNCATE), ("GO", .GO), ("WITH", .WITH), ("OPTION", .OPTION),
   ("UNION", .UNION), ("EXCEPT", .EXCEPT), ("INTERSECT", .INTERSECT), ("IS", .IS), ("NULL", .NULL),
   ("EXISTS", .EXISTS), ("AND", .AND), ("OR", .OR), ("NOT", .NOT), ("IN", .IN),
   ("BETWEEN", .BETWEEN), ("LIKE", .LIKE), ("ANY", .ANY), ("ALL", .ALL), ("SOME", .SOME)]

/-- The aggregates by their spellings. -/
def aggregateTable : List (String × Aggregate) :=
  [("SUM", .SUM), ("AVG", .AVG), ("COUNT", .COUNT), ("COUNT_BIG", .COUNT_BIG), ("MIN", .MIN),
   ("MAX", .MAX), ("STDEV", .STDEV), ("STDEVP", .STDEVP), ("VAR", .VAR), ("VARP", .VARP),
   ("STRING_AGG", .STRING_AGG), ("CHECKSUM_AGG", .CHECKSUM_AGG), ("GROUPING", .GROUPING),
   ("GROUPING_ID", .GROUPING_ID), ("APPROX_COUNT_DISTINCT", .APPROX_COUNT_DISTINCT),
   ("RECOMPILE", .RECOMPILE)]

/-- The keyword a text spells, in any case. -/
def keyword? (text : String) : Option Keyword := keywordTable.lookup (Text.upper text)

/-- The aggregate a text spells, in any case. -/
def aggregate? (text : String) : Option Aggregate := aggregateTable.lookup (Text.upper text)

/-- The token of a plain word: a keyword, an aggregate, or else an identifier. -/
def ofWord (text : String) : Token :=
  match keyword? text with
  | some k => keyword k
  | none => match aggregate? text with
    | some a => aggregate a
    | none => ident

/-- A table that has every value under its spelling, and no other entries, reads spellings back. -/
theorem lookup_eq_some_iff_spelling {α : Type} {table : List (String × α)} {spelling : α → String}
    (hentries : ∀ entry ∈ table, spelling entry.2 = entry.1)
    (hfound : ∀ a, table.lookup (spelling a) = some a) {text : String} {a : α} :
    table.lookup text = some a ↔ spelling a = text := by
  constructor
  · intro h
    obtain ⟨before, behind, htable, -⟩ := List.lookup_eq_some_iff.mp h
    exact hentries (text, a) (by simp [htable])
  · rintro rfl
    exact hfound a

/-- **The keyword found is the one that is spelled so.** -/
theorem keyword?_eq_some_iff {text : String} {k : Keyword} :
    keyword? text = some k ↔ k.spelling = Text.upper text := by
  have hentries : ∀ entry ∈ keywordTable, entry.2.spelling = entry.1 := by decide +kernel
  have hfound : ∀ k ∈ Keyword.all, keywordTable.lookup k.spelling = some k := by decide +kernel
  exact lookup_eq_some_iff_spelling hentries fun k => hfound k (Keyword.mem_all k)

/-- **The aggregate found is the one that is spelled so.** -/
theorem aggregate?_eq_some_iff {text : String} {a : Aggregate} :
    aggregate? text = some a ↔ a.spelling = Text.upper text := by
  have hentries : ∀ entry ∈ aggregateTable, entry.2.spelling = entry.1 := by decide +kernel
  have hfound : ∀ a ∈ Aggregate.all, aggregateTable.lookup a.spelling = some a := by
    decide +kernel
  exact lookup_eq_some_iff_spelling hentries fun a => hfound a (Aggregate.mem_all a)

end Token

end SqlScript
