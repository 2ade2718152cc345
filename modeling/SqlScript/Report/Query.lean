import SqlScript.Report.Json
import SqlScript.Report.Tree
import SqlScript.Script.Outline

/-!
# Report/Query — queries as JSON and as a tree

Both reports show the same records with the same field names in the same order.
-/

namespace SqlScript

/-- The identifier a quantifier goes by in reports. -/
def Quantifier.name : Quantifier → String
  | all => "All"
  | distinct => "Distinct"

namespace Report

/-! ## JSON -/

/-- A word. -/
def wordJson (w : Word) : Json :=
  .object [("token", .string w.token.name), ("literal", .string w.literal),
    ("span", .object [("start", .number w.span.start), ("end", .number w.span.stop)])]

/-- A range of words. -/
def rangeJson (r : WordRange) : Json :=
  .object [("start", .number r.start), ("end", .number r.stop)]

/-- A run of words. -/
def expressionJson (e : Expression) : Json :=
  .object [("words", .list (e.words.map wordJson)), ("range", rangeJson e.range)]

/-- A run of words that may be absent. -/
def expressionJson? : Option Expression → Json := Json.ofOption expressionJson

/-- The row limit. -/
def topJson (t : Top) : Json :=
  .object [("expr", expressionJson t.count), ("percent", .bool t.percent),
    ("with_ties", .bool t.withTies)]

/-- A table. -/
def tableJson (t : Table) : Json :=
  .object [("name", .string t.source.nameText), ("derived", expressionJson? t.source.query?),
    ("as_keyword", .bool t.asKeyword), ("alias", Json.ofOption .string t.aliasName),
    ("hints", expressionJson? t.hints)]

/-- A join. -/
def joinJson (j : Join) : Json :=
  .object [("join_type", .string j.kind.name), ("right_table", tableJson j.table),
    ("condition", expressionJson? j.condition)]

/-- The tables of a query. -/
def fromJson (f : FromClause) : Json :=
  .object [("table", tableJson f.table), ("joins", .list (f.joins.map joinJson))]

/-- A query. -/
def queryJson (q : Query) : Json :=
  .object [("distinct", Json.ofOption (fun k => .string k.name) q.quantifier),
    ("top", Json.ofOption topJson q.top),
    ("columns", .list (q.columns.map expressionJson)),
    ("into", Json.ofOption (fun n => .string n.text) q.into),
    ("from", Json.ofOption fromJson q.fromClause),
    ("where_clause", expressionJson? q.whereClause),
    ("group_by", expressionJson? q.groupBy),
    ("having", expressionJson? q.having),
    ("order_by", expressionJson? q.orderBy),
    ("options", expressionJson? q.options),
    ("range", rangeJson q.range)]

/-- **The report on a script**: its name, its queries and the text of its diagnostics. -/
def outlineJson (o : Outline) : Json :=
  .object [("name", .string o.script.name), ("queries", .list (o.queries.map queryJson)),
    ("diagnostics", .list (o.diagnostics.map fun d => .string d.message))]

/-! ## Trees -/

/-- A word. -/
def wordTree (w : Word) : Tree :=
  .record "Word" [("token", .leaf w.token.name), ("literal", .ofText w.literal),
    ("span", .record "Span" [("start", .ofNat w.span.start), ("end", .ofNat w.span.stop)])]

/-- A range of words. -/
def rangeTree (r : WordRange) : Tree := .leaf (toString r.start ++ ".." ++ toString r.stop)

/-- A run of words. -/
def expressionTree (e : Expression) : Tree :=
  .record "Expression" [("words", .list (e.words.map wordTree)), ("range", rangeTree e.range)]

/-- A run of words that may be absent. -/
def expressionTree? : Option Expression → Tree := Tree.ofOption expressionTree

/-- The row limit. -/
def topTree (t : Top) : Tree :=
  .record "TopClause" [("expr", expressionTree t.count), ("percent", .ofBool t.percent),
    ("with_ties", .ofBool t.withTies)]

/-- A table. -/
def tableTree (t : Table) : Tree :=
  .record "TableName" [("name", .ofText t.source.nameText),
    ("derived", expressionTree? t.source.query?), ("as_keyword", .ofBool t.asKeyword),
    ("alias", Tree.ofOption .ofText t.aliasName), ("hints", expressionTree? t.hints)]

/-- A join. -/
def joinTree (j : Join) : Tree :=
  .record "Join" [("join_type", .leaf j.kind.name), ("right_table", tableTree j.table),
    ("condition", expressionTree? j.condition)]

/-- The tables of a query. -/
def fromTree (f : FromClause) : Tree :=
  .record "FromClause" [("table", tableTree f.table), ("joins", .list (f.joins.map joinTree))]

/-- **A query as a tree.** -/
def queryTree (q : Query) : Tree :=
  .record "SelectQuery" [("distinct", Tree.ofOption (fun k => .leaf k.name) q.quantifier),
    ("top", Tree.ofOption topTree q.top),
    ("columns", .list (q.columns.map expressionTree)),
    ("into", Tree.ofOption (fun n => .ofText n.text) q.into),
    ("from", Tree.ofOption fromTree q.fromClause),
    ("where_clause", expressionTree? q.whereClause),
    ("group_by", expressionTree? q.groupBy),
    ("having", expressionTree? q.having),
    ("order_by", expressionTree? q.orderBy),
    ("options", expressionTree? q.options),
    ("range", rangeTree q.range)]

end Report

end SqlScript
