import FrontEnd.Number.Shortest
import FrontEnd.Program.TypeRef
import FrontEnd.Tree

/-! Expressions, and the chains of references among them: `self.items.push(4)` is a chain of three
links, each of which has the next one as its child. -/

namespace FrontEnd.Program

inductive Literal where
  | int (value : Int)
  | float (value : Number.Binary64)
  | bool (value : Bool)
  /-- The text between the quotes, escapes included. -/
  | string (text : String)
  | null
  deriving DecidableEq

namespace Literal

def toTree : Literal → Tree
  | int value => .value (toString value)
  | float value => .value value.text
  | bool value => .value (if value then "true" else "false")
  | string text => .str text
  | null => .null

end Literal

inductive Operator where
  | add | sub | mul | div | exp | mod | eq | notEq | lt | le | gt | ge | and | or | xor | nand
  deriving DecidableEq

namespace Operator

def text : Operator → String
  | add => "Add"
  | sub => "Sub"
  | mul => "Mul"
  | div => "Div"
  | exp => "Exp"
  | mod => "Mod"
  | eq => "Eq"
  | notEq => "NotEq"
  | lt => "Lt"
  | le => "Le"
  | gt => "Gt"
  | ge => "Ge"
  | and => "And"
  | or => "Or"
  | xor => "Xor"
  | nand => "Nand"

end Operator

inductive Expr where
  | binary (op : Operator) (left right : Expr)
  | constant (value : Literal)
  /-- The declaration of a local variable. -/
  | declaration (name : String) (type : TypeRef)
  | var (name : String) (child : Option Expr)
  | call (name : String) (args : List Expr) (child : Option Expr)
  | index (name : String) (index : Expr) (child : Option Expr)
  /-- Access through a type. -/
  | classRef (type : TypeRef) (child : Option Expr)
  /-- The object that a method runs on. -/
  | this (child : Option Expr)
  | negate (value : Expr)
  | inverse (value : Expr)

namespace Expr

/-- What holds of an expression when it holds of its parts holds of every expression. -/
@[induction_eliminator]
theorem ind {motive : Expr → Prop}
    (binary : ∀ op left right, motive left → motive right → motive (binary op left right))
    (constant : ∀ value, motive (constant value))
    (declaration : ∀ name type, motive (declaration name type))
    (var : ∀ name c, (∀ e ∈ c, motive e) → motive (var name c))
    (call : ∀ name args c, (∀ e ∈ args, motive e) → (∀ e ∈ c, motive e) → motive (call name args c))
    (index : ∀ name i c, motive i → (∀ e ∈ c, motive e) → motive (index name i c))
    (classRef : ∀ type c, (∀ e ∈ c, motive e) → motive (classRef type c))
    (this : ∀ c, (∀ e ∈ c, motive e) → motive (this c))
    (negate : ∀ value, motive value → motive (negate value))
    (inverse : ∀ value, motive value → motive (inverse value)) : ∀ e, motive e :=
  @Expr.rec motive (fun c => ∀ e ∈ c, motive e) (fun es => ∀ e ∈ es, motive e)
    binary constant declaration var call index classRef this negate inverse
    (by simp) (fun _ h => by simpa using h) (by simp) (fun _ _ h hs => by simpa using ⟨h, hs⟩)

def child : Expr → Option Expr
  | var _ c => c
  | call _ _ c => c
  | index _ _ c => c
  | classRef _ c => c
  | this c => c
  | _ => none

mutual

/-- The links of a chain, from this one on. -/
def chain : Expr → List Expr
  | var name c => var name c :: chainBelow c
  | call name args c => call name args c :: chainBelow c
  | index name i c => index name i c :: chainBelow c
  | classRef type c => classRef type c :: chainBelow c
  | this c => this c :: chainBelow c
  | e => [e]

def chainBelow : Option Expr → List Expr
  | none => []
  | some e => chain e

end

def lastLink (e : Expr) : Expr :=
  e.chain.getLastD e

def isAssignable (e : Expr) : Bool :=
  match e, e.lastLink with
  | declaration _ _, _ => true
  | _, var _ _ => true
  | _, index _ _ _ => true
  | _, _ => false

def endsInCall (e : Expr) : Bool :=
  match e.lastLink with
  | call _ _ _ => true
  | _ => false

mutual

def toTree : Expr → Tree
  | binary op left right =>
    .node "BinaryOperation" [("op", .value op.text), ("left", toTree left), ("right", toTree right)]
  | constant value => .node "Constant" [("value", value.toTree)]
  | declaration name type => .node "Variable" [("name", .str name), ("type", .value type.text)]
  | var name c => .node "VariableRef" [("name", .str name), ("child", childTree c)]
  | call name args c =>
    .node "MethodCall" [("name", .str name), ("args", .list (toTrees args)), ("child", childTree c)]
  | index name i c =>
    .node "IndexAccess" [("name", .str name), ("index", toTree i), ("child", childTree c)]
  | classRef type c => .node "ClassRef" [("type", .value type.text), ("child", childTree c)]
  | this c => .node "This" [("child", childTree c)]
  | negate value => .node "Negate" [("value", toTree value)]
  | inverse value => .node "Inverse" [("value", toTree value)]

def toTrees : List Expr → List Tree
  | [] => []
  | e :: es => toTree e :: toTrees es

def childTree : Option Expr → Tree
  | none => .null
  | some e => toTree e

end

theorem toTrees_eq_map (es : List Expr) : toTrees es = es.map toTree := by
  induction es with
  | nil => rfl
  | cons e es ih => rw [toTrees, ih, List.map_cons]

theorem childTree_eq (c : Option Expr) : childTree c = .ofOption toTree c := by
  cases c <;> rfl

end Expr

end FrontEnd.Program
