import FrontEnd.Parse.Session
import FrontEnd.Text.Blank

/-! The interactive shell, without its input and output. Each line is answered by its tokens and its
tree; the end of the input, a line that is no text and a broken precondition end the shell. -/

namespace FrontEnd.Shell

def prompt : String := "> "

/-- The tree of a line: of a script if it starts with `namespace`, of statements if it ends like
one, and of an expression otherwise. -/
def readTree (line : List Char) : Except (Failure SourceError) Tree :=
  let src := String.ofList line
  if "namespace".toList.isPrefixOf line then (Parse.readScript src).map Program.Script.toTree
  else if line.getLast? = some ';' ∨ line.getLast? = some '\x7d' then
    (Parse.readStatements src).map Program.Statement.listTree
  else (Parse.readExpr src).map Program.Expr.toTree

/-- What is written for a line of input, and the status with which the shell ends then, if it
does. -/
structure Reply where
  text : String
  status : Option UInt8

def finished : UInt8 := 0

/-- The status of a shell that a broken precondition ended. -/
def broken : UInt8 := 101

def treeText (line : List Char) : Except Violation String :=
  match readTree line with
  | .ok t => return (← t.checkedLayout 0) ++ "\n"
  | .error (.error e) => .ok ("error: " ++ e.message ++ "\n")
  | .error (.violation v) => .error v

/-- The answer to a line: its tokens as it stands, and its tree without the blanks around it. -/
def answer (line : String) : Reply :=
  match tokenize line with
  | .error e => ⟨"error: " ++ e.message ++ "\n", none⟩
  | .ok tokens =>
    let shown := Token.renderAll tokens ++ "\n"
    match treeText (Text.trim line.toList) with
    | .ok text => ⟨shown ++ text, none⟩
    | .error _ => ⟨shown, some broken⟩

/-- The reply to a line of input. An empty line, without even a line feed, is the end of the
input. -/
def step (line : List UInt8) : Reply :=
  if line.isEmpty then ⟨"^D\n", some finished⟩
  else
    match String.fromUTF8? ⟨line.toArray⟩ with
    | none => ⟨"failed to run: stream did not contain valid UTF-8\n", some finished⟩
    | some s => answer s

def lines (input : List UInt8) : List (List UInt8) :=
  input.foldr
    (fun b ls =>
      if b = 10 then [b] :: ls
      else
        match ls with
        | [] => [[b]]
        | l :: ls => (b :: l) :: ls)
    []

/-- What the shell writes, piece by piece, when it is given these lines and then the end of the
input, and the status with which it ends. -/
def pieces : List (List UInt8) → List String × UInt8
  | [] => ([prompt, (step []).text], finished)
  | l :: ls =>
    let reply := step l
    match reply.status with
    | none =>
      let (texts, status) := pieces ls
      (prompt :: reply.text :: texts, status)
    | some status => ([prompt, reply.text], status)

def transcript (input : List UInt8) : String × UInt8 :=
  let (texts, status) := pieces (lines input)
  (String.join texts, status)

end FrontEnd.Shell
