import FrontEnd.Program.Expr

/-! Statements. Whatever follows an `if` in its list is the continuation of that `if`, in which its
branches join. -/

namespace FrontEnd.Program

inductive Statement where
  | assignment (target value : Expr)
  /-- A call of a function in scope. -/
  | call (name : String) (args : List Expr)
  /-- A chain of references that ends in a call. -/
  | chainCall (reference : Expr)
  | branch (condition : Expr) (thenPart : List Statement) (elsePart : Option (List Statement))
      (continuation : List Statement)
  | loop (condition : Expr) (body : List Statement)
  | block (body : List Statement)
  | ret (value : Option Expr)
  | increment (target : Expr)
  | decrement (target : Expr)
  /-- An expression that is no call. -/
  | eval (expr : Expr)

namespace Statement

/-- What holds of a statement when it holds of the lists in it holds of every statement. -/
@[induction_eliminator]
theorem ind {motive : Statement → Prop}
    (assignment : ∀ target value, motive (assignment target value))
    (call : ∀ name args, motive (call name args))
    (chainCall : ∀ reference, motive (chainCall reference))
    (branch : ∀ condition thenPart elsePart continuation, (∀ s ∈ thenPart, motive s) →
      (∀ body ∈ elsePart, ∀ s ∈ body, motive s) → (∀ s ∈ continuation, motive s) →
      motive (branch condition thenPart elsePart continuation))
    (loop : ∀ condition body, (∀ s ∈ body, motive s) → motive (loop condition body))
    (block : ∀ body, (∀ s ∈ body, motive s) → motive (block body))
    (ret : ∀ value, motive (ret value))
    (increment : ∀ target, motive (increment target))
    (decrement : ∀ target, motive (decrement target))
    (eval : ∀ expr, motive (eval expr)) : ∀ s, motive s :=
  @Statement.rec motive (fun ss => ∀ s ∈ ss, motive s) (fun o => ∀ body ∈ o, ∀ s ∈ body, motive s)
    assignment call chainCall branch loop block ret increment decrement eval
    (by simp) (fun _ _ h hs => by simpa using ⟨h, hs⟩) (by simp) (fun _ h => by simpa using h)

/-- The statement that an expression is on its own, by its shape. -/
def ofExpr : Expr → Statement
  | .call name args none => call name args
  | e => if e.endsInCall then chainCall e else eval e

def listNode (members : List Tree) : Tree :=
  .node "StatementList" [("statements", .list members)]

mutual

def toTree : Statement → Tree
  | assignment target value =>
    .node "Assignment" [("target", target.toTree), ("value", value.toTree)]
  | call name args => .node "Call" [("name", .str name), ("args", .list (args.map Expr.toTree))]
  | chainCall reference => .node "StatementCall" [("reference", reference.toTree)]
  | branch condition thenPart elsePart continuation =>
    .node "If" [("condition", condition.toTree), ("then", listNode (toTrees thenPart)),
      ("else", elseTree elsePart), ("continue", listNode (toTrees continuation))]
  | loop condition body =>
    .node "While" [("condition", condition.toTree), ("body", listNode (toTrees body))]
  | block body => .node "Block" [("body", listNode (toTrees body))]
  | ret value => .node "Return" [("value", .ofOption Expr.toTree value)]
  | increment target => .node "IncrementVar" [("target", target.toTree)]
  | decrement target => .node "DecrementVar" [("target", target.toTree)]
  | eval expr => .node "ExpressionStatement" [("expression", expr.toTree)]

def toTrees : List Statement → List Tree
  | [] => []
  | s :: ss => toTree s :: toTrees ss

def elseTree : Option (List Statement) → Tree
  | none => .null
  | some body => listNode (toTrees body)

end

theorem toTrees_eq_map (ss : List Statement) : toTrees ss = ss.map toTree := by
  induction ss with
  | nil => rfl
  | cons s ss ih => rw [toTrees, ih, List.map_cons]

def listTree (ss : List Statement) : Tree :=
  listNode (toTrees ss)

end Statement

end FrontEnd.Program
