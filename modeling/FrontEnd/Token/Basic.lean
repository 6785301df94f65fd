import FrontEnd.Source.Position
import FrontEnd.Text.Quoted
import FrontEnd.Token.Kind

/-! Tokens: a piece of the source with its kind and the byte offset where it begins. -/

namespace FrontEnd

/-- A piece of the source. The text of a string literal is what stands between its quotes. -/
structure Token where
  kind : TokenKind
  text : String
  begin : Nat
  deriving DecidableEq

namespace Token

/-- The byte offset behind the token. -/
def stop (t : Token) : Nat :=
  t.begin + t.text.utf8ByteSize

/-- The same offset for a token that may not come from a source: it has to be a position. -/
def checkedStop (t : Token) : Except Violation Nat :=
  Source.stepForward t.text.utf8ByteSize t.begin

def render (t : Token) : String :=
  "Token(" ++ t.kind.label ++ ", " ++ Text.quoteString t.text ++ ", "
    ++ toString t.begin ++ ".." ++ toString t.stop ++ ")"

def renderAll (ts : List Token) : String :=
  "[" ++ ", ".intercalate (ts.map render) ++ "]"

end Token

end FrontEnd
