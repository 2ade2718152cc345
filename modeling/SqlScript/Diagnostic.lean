import SqlScript.Lexeme.Basic
import SqlScript.Text.Quoted
import SqlScript.Word

/-!
# Diagnostic — what is wrong with a script, and where

A diagnostic is a cause at a position.  Lexical causes are the faults of lexemes; syntax causes say
what the grammar wanted and what stood there instead.  All wording is in `Cause.text`.
-/

namespace SqlScript

/-- What the grammar of a query wanted at some word. -/
inductive Expectation where
  | topArgument
  | closingParenthesis
  | column
  | tableAfterInto
  | tableAfterFrom
  | tableAfterJoin
  | aliasAfterAs
  | joinKeyword
  | joinCondition
  | onKeyword
  /-- The body of the clause a keyword opens. -/
  | bodyAfter (k : Keyword)
  deriving DecidableEq

/-- The wording of an expectation. -/
def Expectation.text : Expectation → String
  | topArgument => "( or number after TOP"
  | closingParenthesis => ")"
  | column => "column expression"
  | tableAfterInto => "table name after INTO"
  | tableAfterFrom => "table name or ( after FROM"
  | tableAfterJoin => "table name or ( after JOIN"
  | aliasAfterAs => "alias after AS"
  | joinKeyword => "JOIN"
  | joinCondition => "join condition"
  | onKeyword => "ON"
  | bodyAfter k => "expression after " ++ k.spelling

/-- What is wrong. -/
inductive Cause where
  | lexical (fault : LexicalFault)
  /-- A word other than the expected one. -/
  | unexpectedToken (expected : String) (found : Token) (literal : String)
  /-- The script ended where the grammar wanted more. -/
  | unexpectedEnd (expected : String)
  deriving DecidableEq

namespace Cause

/-- The cause that `found` stands where `expected` was wanted. -/
def unexpected (expected : String) (found : Word) : Cause :=
  if found.isEof then unexpectedEnd expected
  else unexpectedToken expected found.token found.literal

/-- The wording of a cause. -/
def text : Cause → String
  | lexical .unterminatedString => "unterminated string literal"
  | lexical .unterminatedComment => "unterminated block comment"
  | lexical .unterminatedIdentifier => "unterminated delimited identifier"
  | lexical (.illegalCharacter ch) => "illegal character " ++ Text.quotedChar ch
  | unexpectedToken expected found literal =>
    "unexpected token: expected " ++ expected ++ ", found " ++ found.spelling ++ " `" ++ literal
      ++ "`"
  | unexpectedEnd expected => "unexpected end of input: expected " ++ expected

end Cause

/-- A cause at a place. -/
structure Diagnostic where
  position : Position
  cause : Cause
  deriving DecidableEq

/-- The text of a diagnostic: the position, then the cause. -/
def Diagnostic.message (d : Diagnostic) : String := d.position.text ++ ": " ++ d.cause.text

end SqlScript
