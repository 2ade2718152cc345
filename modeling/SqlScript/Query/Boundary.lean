import SqlScript.Token.Basic

/-!
# Query/Boundary — the tokens at which runs of words end

A statement ends at a semicolon, at `GO` and at the end of the script, whatever is open.  Outside
parentheses the columns of a query end at any keyword that opens a clause or a statement, and so
does the body of a clause, which may however contain `FROM` and `INTO`.
-/

namespace SqlScript.Token

/-- Tokens that end every run. -/
def endsStatement : Token → Bool
  | eof | symbol .semicolon | keyword .GO => true
  | _ => false

/-- Tokens that end the body of a clause outside parentheses. -/
def endsClause : Token → Bool
  | keyword .WHERE | keyword .GROUP_BY | keyword .HAVING | keyword .ORDER_BY | keyword .OPTION
  | keyword .SELECT | keyword .UPDATE | keyword .INSERT | keyword .DELETE | keyword .TRUNCATE
  | keyword .UNION | keyword .EXCEPT | keyword .INTERSECT
  | symbol .rparen => true
  | _ => false

/-- Tokens that end the columns of a query outside parentheses. -/
def endsColumns : Token → Bool
  | keyword .FROM | keyword .INTO => true
  | t => t.endsClause

/-- Tokens behind `WITH` that make it a part of the clause it stands in. -/
def continuesWith : Token → Bool
  | keyword .ROLLUP | keyword .CUBE | symbol .lparen => true
  | _ => false

/-- A token opens a join unless it is the name of a function, as in `LEFT(s, 3)`. -/
def opensJoin (t next : Token) : Bool := t.startsJoin && next != symbol .lparen

end SqlScript.Token
