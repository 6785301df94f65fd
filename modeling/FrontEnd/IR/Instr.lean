import FrontEnd.IR.Ty
import FrontEnd.Number.Shortest

/-! Instructions of the intermediate representation and the values they work on. -/

namespace FrontEnd.IR

/-- A named result of an instruction, or a parameter of a function. -/
structure Value where
  name : String
  type : Ty

namespace Value

def text (v : Value) : String :=
  "%" ++ v.name

end Value

inductive Const where
  | bool (value : Bool)
  | int (value : Int)
  | float (value : Number.Binary64)
  /-- The pointer to nothing. -/
  | null
  deriving DecidableEq

namespace Const

def fits : Const → Ty → Bool
  | bool _, .bool => true
  | int _, t => t.isInt
  | float _, t => t.isFloat
  | null, .ptr _ => true
  | _, _ => false

def text : Const → String
  | bool value => if value then "true" else "false"
  | int value => toString value
  | float value => value.text
  | null => "null"

end Const

inductive BinaryOp where
  | add | sub | mul | div | rem | pow | eq | ne | lt | le | gt | ge | and | or | xor
  deriving DecidableEq

namespace BinaryOp

def all : List BinaryOp :=
  [add, sub, mul, div, rem, pow, eq, ne, lt, le, gt, ge, and, or, xor]

def isComparison : BinaryOp → Bool
  | eq | ne | lt | le | gt | ge => true
  | _ => false

def text : BinaryOp → String
  | add => "add"
  | sub => "sub"
  | mul => "mul"
  | div => "div"
  | rem => "rem"
  | pow => "pow"
  | eq => "eq"
  | ne => "ne"
  | lt => "lt"
  | le => "le"
  | gt => "gt"
  | ge => "ge"
  | and => "and"
  | or => "or"
  | xor => "xor"

def ofText? (s : String) : Option BinaryOp :=
  all.find? fun op => op.text = s

def resultType (op : BinaryOp) (t : Ty) : Ty :=
  if op.isComparison then .bool else t

end BinaryOp

inductive Instr where
  | retVoid
  | ret (value : Value)
  /-- Storage for a type; the result is a pointer to it. -/
  | alloca (result : Value) (type : Ty)
  | const (result : Value) (value : Const)
  | load (result ptr : Value)
  | store (value ptr : Value)
  | binary (result : Value) (op : BinaryOp) (left right : Value)

namespace Instr

def isTerminator : Instr → Bool
  | retVoid => true
  | ret _ => true
  | _ => false

def result? : Instr → Option Value
  | alloca result _ => some result
  | const result _ => some result
  | load result _ => some result
  | binary result _ _ _ => some result
  | _ => none

def text : Instr → String
  | retVoid => "ret void"
  | ret value => "ret " ++ value.type.text ++ " " ++ value.text
  | alloca result type => result.text ++ " = alloca " ++ type.text
  | const result value => result.text ++ " = const " ++ result.type.text ++ " " ++ value.text
  | load result ptr =>
    result.text ++ " = load " ++ result.type.text ++ ", " ++ ptr.type.text ++ " " ++ ptr.text
  | store value ptr =>
    "store " ++ value.type.text ++ " " ++ value.text ++ ", " ++ ptr.type.text ++ " " ++ ptr.text
  | binary result op left right =>
    result.text ++ " = " ++ op.text ++ " " ++ left.type.text ++ " " ++ left.text ++ ", "
      ++ right.text

end Instr

end FrontEnd.IR
