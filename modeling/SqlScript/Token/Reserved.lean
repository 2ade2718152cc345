import SqlScript.Text.Case

/-!
# Token/Reserved — reserved words and phrase heads

Not every reserved word is a keyword of its own: `DESC`, `DECLARE` or the table hint `NOLOCK` are
read as identifiers.  They are listed here because they are cased like keywords.
-/

namespace SqlScript.Token

/-- The reserved words of the language and its table hints, in capitals. -/
def reservedWords : List String :=
  ["ADD", "ALL", "ALTER", "AND", "ANY", "AS", "ASC", "AUTHORIZATION", "AVG", "BACKUP", "BEGIN",
   "BETWEEN", "BREAK", "BROWSE", "BULK", "BY", "CASCADE", "CASE", "CHECK", "CHECKPOINT", "CLOSE",
   "CLUSTERED", "COALESCE", "COLLATE", "COLUMN", "COMMIT", "COMPUTE", "CONSTRAINT", "CONTAINS",
   "CONTAINSTABLE", "CONTINUE", "CONVERT", "COUNT", "CREATE", "CROSS", "CURRENT", "CURRENT_DATE",
   "CURRENT_TIME", "CURRENT_TIMESTAMP", "CURRENT_USER", "CURSOR", "DATABASE", "DBCC",
   "DEALLOCATE", "DECLARE", "DEFAULT", "DELETE", "DENY", "DESC", "DISK", "DISTINCT",
   "DISTRIBUTED", "DOUBLE", "DROP", "DUMP", "ELSE", "END", "ERRLVL", "ESCAPE", "EXCEPT", "EXEC",
   "EXECUTE", "EXISTS", "EXIT", "EXTERNAL", "FETCH", "FILE", "FILLFACTOR", "FOR", "FORCESCAN",
   "FORCESEEK", "FOREIGN", "FREETEXT", "FREETEXTTABLE", "FROM", "FULL", "FUNCTION", "GOTO",
   "GRANT", "GROUP", "HAVING", "HOLDLOCK", "IDENTITY", "IDENTITYCOL", "IDENTITY_INSERT", "IF",
   "IN", "INDEX", "INNER", "INSERT", "INTERSECT", "INTO", "IS", "JOIN", "KEY", "KILL", "LEFT",
   "LIKE", "LINENO", "LOAD", "MAX", "MERGE", "MIN", "NATIONAL", "NOCHECK", "NOLOCK",
   "NONCLUSTERED", "NOT", "NOWAIT", "NULL", "NULLIF", "OF", "OFF", "OFFSETS", "ON", "OPEN",
   "OPENDATASOURCE", "OPENQUERY", "OPENROWSET", "OPENXML", "OPTION", "OR", "ORDER", "OUTER",
   "OVER", "PAGLOCK", "PARTITION", "PERCENT", "PIVOT", "PLAN", "PRECISION", "PRIMARY", "PRINT",
   "PROC", "PROCEDURE", "PUBLIC", "RAISERROR", "READ", "READCOMMITTED", "READPAST", "READTEXT",
   "READUNCOMMITTED", "RECOMPILE", "RECONFIGURE", "REFERENCES", "REPEATABLEREAD", "REPLICATION",
   "RESTORE", "RESTRICT", "RETURN", "REVERT", "REVOKE", "RIGHT", "ROLLBACK", "ROWCOUNT",
   "ROWGUIDCOL", "ROWLOCK", "RULE", "SAVE", "SCHEMA", "SECURITYAUDIT", "SELECT",
   "SEMANTICKEYPHRASETABLE", "SEMANTICSIMILARITYDETAILSTABLE", "SEMANTICSIMILARITYTABLE",
   "SERIALIZABLE", "SESSION_USER", "SET", "SETUSER", "SHUTDOWN", "SOME", "STATISTICS", "SUM",
   "SYSTEM_USER", "TABLE", "TABLESAMPLE", "TABLOCK", "TABLOCKX", "TEXTSIZE", "THEN", "TO", "TOP",
   "TRAN", "TRANSACTION", "TRIGGER", "TRUNCATE", "TRY_CONVERT", "TSEQUAL", "UNION", "UNIQUE",
   "UNPIVOT", "UPDATE", "UPDATETEXT", "UPDLOCK", "USE", "USER", "VALUES", "VARYING", "VIEW",
   "WAITFOR", "WHEN", "WHERE", "WHILE", "WITH", "WRITETEXT", "XLOCK"]

/-- A text that spells a reserved word, in any case. -/
def isReserved (text : String) : Bool := reservedWords.contains (Text.upper text)

/-- The words that open a keyword of two words. -/
def phraseHeads : List String := ["GROUP", "ORDER", "PARTITION", "FORCE"]

/-- How many more words complete the phrase that a text opens; `none` if it opens none. -/
def phraseRemainder? (text : String) : Option Nat :=
  if phraseHeads.contains (Text.upper text) then some 1 else none

end SqlScript.Token
