import FrontEnd.Source.Cursor
import FrontEnd.IR.Builder
import FrontEnd.IR.HandOff
import FrontEnd.Main
import FrontEnd.Proofs.Grammar
import FrontEnd.Proofs.Precedence
import FrontEnd.Proofs.Progress
import FrontEnd.Proofs.ExprCompleteness
import FrontEnd.Proofs.ExprSoundness
import FrontEnd.Proofs.Lexemes
import FrontEnd.Proofs.Scanning
import FrontEnd.Proofs.TokenCover
import FrontEnd.Proofs.TokenRoundTrip
import FrontEnd.Proofs.Construction
import FrontEnd.Proofs.Returning
import FrontEnd.Proofs.ScriptGrammar
import FrontEnd.Proofs.ScriptProgress
import FrontEnd.Proofs.StatementSoundness
import FrontEnd.Proofs.ScriptSoundness
import FrontEnd.Proofs.StatementCompleteness
import FrontEnd.Proofs.ScriptCompleteness
import FrontEnd.Proofs.Rendering
import FrontEnd.Proofs.RenderedExpr
import FrontEnd.Proofs.RenderedScript
import FrontEnd.Proofs.ScriptRoundTrip
import FrontEnd.Proofs.Growth
import FrontEnd.Proofs.Requests
import FrontEnd.Proofs.Typing
import FrontEnd.Proofs.Naming
import FrontEnd.Proofs.Congruence
import FrontEnd.Proofs.NestingLimit
import FrontEnd.Proofs.Layout
import FrontEnd.Proofs.TreeHeight
import FrontEnd.Proofs.ReadWellFormed
import FrontEnd.Proofs.Shape
import FrontEnd.Proofs.CursorScan
import FrontEnd.Proofs.NoViolation
import FrontEnd.Proofs.DepthLimit
import FrontEnd.Proofs.Isolation
import FrontEnd.Proofs.RawInstructions
import FrontEnd.Proofs.Continuations
import FrontEnd.Proofs.Rounding
import FrontEnd.Proofs.FloatText
import FrontEnd.Proofs.TreePieces
import FrontEnd.Proofs.TreeText
import FrontEnd.Proofs.ProgramText
import FrontEnd.Proofs.Lines
import FrontEnd.Proofs.FirstFault
import FrontEnd.Proofs.Refusals
import FrontEnd.Proofs.Insertions
import FrontEnd.Proofs.Lookahead
import FrontEnd.Proofs.Completions
import FrontEnd.Proofs.Counting
import FrontEnd.Proofs.Calls
import FrontEnd.Proofs.BareTypes
import FrontEnd.Proofs.SameTypes
import FrontEnd.Proofs.TypeText
import FrontEnd.Proofs.JoinedLines
import FrontEnd.Proofs.OneLine
import FrontEnd.Proofs.CommaLists
import FrontEnd.Proofs.CallLists
import FrontEnd.Proofs.ScriptLists
import FrontEnd.Proofs.Margins
import FrontEnd.Proofs.Places
import FrontEnd.Proofs.Recursion
import FrontEnd.Proofs.Termination
import FrontEnd.Proofs.Trimming
import FrontEnd.Proofs.ByteCursor
import FrontEnd.Proofs.CursorCalls
