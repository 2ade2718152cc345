import SqlScript.Casing
import SqlScript.Command.Run
import SqlScript.Main
import SqlScript.Report.Query
import SqlScript.Script.Outline
import SqlScript.Proofs.Lexeme.LetterCase
import SqlScript.Proofs.Script.Tiling
import SqlScript.Proofs.Lexeme.Literal
import SqlScript.Proofs.Script.Lossless
import SqlScript.Proofs.Script.LetterCase
import SqlScript.Proofs.Casing.Print
import SqlScript.Proofs.Casing.Stream
import SqlScript.Proofs.Casing.Recase
import SqlScript.Proofs.Casing.Reprint
import SqlScript.Proofs.Query.Clean
import SqlScript.Proofs.Query.Faithful
import SqlScript.Proofs.Query.Balance
import SqlScript.Proofs.Query.WellFormed
import SqlScript.Proofs.Query.ReadBack
import SqlScript.Proofs.Query.Pieces
import SqlScript.Proofs.Query.Relabel
import SqlScript.Proofs.Query.Carried
import SqlScript.Proofs.Query.Visible
import SqlScript.Proofs.Query.Isolation
import SqlScript.Proofs.Query.Comments
import SqlScript.Proofs.Query.LetterCase
import SqlScript.Proofs.Query.Coverage
import SqlScript.Proofs.Query.Slices
import SqlScript.Proofs.Query.BareJoin
import SqlScript.Proofs.Query.Level
import SqlScript.Proofs.Query.Nesting
import SqlScript.Proofs.Lexeme.Ending
import SqlScript.Proofs.Lexeme.Lookahead
import SqlScript.Proofs.Script.Retiling
import SqlScript.Proofs.Place.Counting
import SqlScript.Proofs.Script.Places
import SqlScript.Proofs.Script.Separator
import SqlScript.Proofs.Script.Blanking
import SqlScript.Proofs.Query.ByteOrderMark
import SqlScript.Proofs.Query.Invariant
import SqlScript.Proofs.Query.Sight
import SqlScript.Proofs.Script.Faults
import SqlScript.Proofs.Script.BlockComment
import SqlScript.Proofs.Lexeme.Language
import SqlScript.Proofs.Checked.Cursor
import SqlScript.Proofs.Checked.Scan
import SqlScript.Proofs.Script.Spelling
import SqlScript.Proofs.Script.Phrases
import SqlScript.Proofs.Casing.Effect
import SqlScript.Proofs.Query.RunEnds
import SqlScript.Proofs.Query.Bounds
import SqlScript.Proofs.Checked.Grammar
import SqlScript.Proofs.Checked.Bytes
import SqlScript.Proofs.Checked.Place
import SqlScript.Proofs.Checked.Print
import SqlScript.Proofs.Checked.Safe
import SqlScript.Proofs.Script.StringLiteral
import SqlScript.Proofs.Place.LineBreak
import SqlScript.Proofs.Query.Refused
import SqlScript.Proofs.Script.Keywords
import SqlScript.Proofs.Checked.CommentEnd
