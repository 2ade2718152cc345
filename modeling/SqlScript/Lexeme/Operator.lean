import SqlScript.Token.Basic

/-!
# Lexeme/Operator — the symbols of one and two characters

An opening bracket is not among them, since it opens a delimited name, and nothing is ever read as
an assignment.
-/

namespace SqlScript.Symbol

/-- The symbol one character makes. -/
def ofChar? : Char → Option Symbol
  | '+' => some plus
  | '-' => some minus
  | '*' => some star
  | '/' => some slash
  | '%' => some modulo
  | '=' => some eq
  | '&' => some bitAnd
  | '|' => some bitOr
  | '^' => some bitXor
  | '~' => some bitNot
  | '(' => some lparen
  | ')' => some rparen
  | ']' => some rbracket
  | '\x7b' => some lbrace
  | '\x7d' => some rbrace
  | ',' => some comma
  | '.' => some period
  | ';' => some semicolon
  | '<' => some lt
  | '>' => some gt
  | _ => none

/-- The symbol two characters make together. -/
def ofPair? : Char → Char → Option Symbol
  | '<', '=' => some ltEq
  | '<', '>' => some notEq
  | '>', '=' => some gtEq
  | '!', '=' => some notEq
  | _, _ => none

end SqlScript.Symbol
