import FrontEnd.Parse.Script
import FrontEnd.Token.Scan

/-! Parsing a source. A fault is located in the source only when it is reported; a session keeps the
tokens that are left from one parse to the next. -/

namespace FrontEnd

structure ParseError where
  cause : Cause
  /-- The token at fault, or none at the end. -/
  token : Option Token
  location : Source.Location
  deriving DecidableEq

namespace ParseError

/-- Locates a fault: at its token, or at the end of the source. -/
def ofFault (src : String) (fault : Fault) : Except Violation ParseError :=
  let token := fault.site.head?
  match Source.locate? src ((token.map Token.begin).getD src.utf8ByteSize) with
  | some location => .ok ⟨fault.cause, token, location⟩
  | none => .error .splitsCharacter

def foundText : Option Token → String
  | some t => t.kind.label ++ " `" ++ t.text ++ "`"
  | none => "end of input"

def message (e : ParseError) : String :=
  e.location.text ++ ": " ++
    match e.cause with
    | .unexpected (some kind) =>
      "expected token " ++ kind.label ++ ", but got " ++ foundText e.token
    | .unexpected none => "unexpected " ++ foundText e.token
    | .definition d => d.message
    | .invalidLiteral text => "invalid literal `" ++ text ++ "`"
    | .invalidTarget => "invalid assignment target"
    | .tooDeep => "nesting is too deep"

end ParseError

/-- A source, the number of its tokens that are passed, and those that are left. -/
structure Session where
  source : String
  passed : Nat
  rest : List Token

namespace Session

def ofTokens (source : String) (tokens : List Token) : Session :=
  ⟨source, 0, tokens⟩

def goTo (rest : List Token) (s : Session) : Session :=
  { s with passed := s.passed + (s.rest.length - rest.length), rest }

/-- Runs a parser on the tokens that are left. A fault leaves the tokens from where the parser
stopped; one that cannot be located leaves everything as it was. -/
def run {α : Type} (p : Parser α) (s : Session) : Except (Failure ParseError) α × Session :=
  match p s.rest with
  | .ok a rest => (.ok a, s.goTo rest)
  | .error fault rest =>
    match ParseError.ofFault s.source fault with
    | .ok e => (.error (.error e), s.goTo rest)
    | .error v => (.error (.violation v), s)

def current (s : Session) : Option Token :=
  s.rest.head?

/-- The token `n` places behind the current one. That place has to be a position, be there a token
or not. -/
def peek (n : Nat) (s : Session) : Except Violation (Option Token) := do
  let _ ← Source.stepForward n s.passed
  return s.rest[n]?

def isAtEnd (s : Session) : Bool :=
  s.rest.isEmpty

def isAt (n : Nat) (kind : TokenKind) (s : Session) : Except Violation Bool := do
  return (← s.peek n).any fun t => t.kind = kind

def advance (s : Session) : Session :=
  s.goTo s.rest.tail

def unexpected (expected : Option TokenKind) (s : Session) : Except Violation ParseError :=
  ParseError.ofFault s.source ⟨.unexpected expected, s.rest⟩

end Session

inductive SourceError where
  | scan (e : ScanError)
  | parse (e : ParseError)
  deriving DecidableEq

namespace SourceError

def message : SourceError → String
  | scan e => e.message
  | parse e => e.message

end SourceError

namespace Parse

def maxLevels : Nat := 128

def source {α : Type} (p : Parser α) (src : String) : Except (Failure SourceError) α :=
  match tokenize src with
  | .error e => .error (.error (.scan e))
  | .ok tokens =>
    match ((Session.ofTokens src tokens).run p).1 with
    | .ok a => .ok a
    | .error (.error e) => .error (.error (.parse e))
    | .error (.violation v) => .error (.violation v)

def readScript (src : String) : Except (Failure SourceError) Program.Script :=
  source (script maxLevels) src

def readExpr (src : String) : Except (Failure SourceError) Program.Expr :=
  source (do let e ← expr maxLevels; Parser.finish; return e) src

def readStatements (src : String) : Except (Failure SourceError) (List Program.Statement) :=
  source (do let ss ← statements maxLevels; Parser.finish; return ss) src

end Parse

end FrontEnd
