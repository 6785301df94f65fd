import FrontEnd.Number.Numeral
import FrontEnd.Parse.Parser

/-! Reading expressions. Operators are read by the power with which they bind on each side, and
every expression or link inside another uses up one nesting level. The parsers with a number of
levels left are made from those with one level less, so what holds of them is shown by induction on
the levels. -/

namespace FrontEnd.Parse

open FrontEnd.Parser FrontEnd.Program

structure Binding where
  op : Operator
  left : Nat
  right : Nat

/-- The operator that the token is between two operands. The power binds tightest and to the right,
all others bind to the left. -/
def binding? : TokenKind → Option Binding
  | .symbol .logicalOr => some ⟨.or, 1, 2⟩
  | .symbol .xor => some ⟨.xor, 1, 2⟩
  | .symbol .logicalAnd => some ⟨.and, 3, 4⟩
  | .symbol .nand => some ⟨.nand, 3, 4⟩
  | .symbol .equal => some ⟨.eq, 5, 6⟩
  | .symbol .notEqual => some ⟨.notEq, 5, 6⟩
  | .symbol .less => some ⟨.lt, 5, 6⟩
  | .symbol .lessEqual => some ⟨.le, 5, 6⟩
  | .symbol .greater => some ⟨.gt, 5, 6⟩
  | .symbol .greaterEqual => some ⟨.ge, 5, 6⟩
  | .symbol .plus => some ⟨.add, 7, 8⟩
  | .symbol .minus => some ⟨.sub, 7, 8⟩
  | .symbol .star => some ⟨.mul, 9, 10⟩
  | .symbol .slash => some ⟨.div, 9, 10⟩
  | .symbol .percent => some ⟨.mod, 9, 10⟩
  | .symbol .power => some ⟨.exp, 12, 11⟩
  | _ => none

def unaryPower : Nat := 11

/-- The parsers one nesting level further in. -/
structure Inner where
  /-- An expression of operators that bind with at least the given power. -/
  expr : Nat → Parser Expr
  /-- A period and the next link of a chain, if there are any. -/
  child : Parser (Option Expr)

def typeRef : Parser TypeRef := do
  symbol .hash
  let name ← name
  let stars ← many do return if ← take (.symbol .star) then some () else none
  return ⟨name, stars.length⟩

/-- The link of a chain whose name has been passed: a call, an element or a variable. -/
def link (inner : Inner) (name : String) : Parser Expr := do
  if ← take (.symbol .openParen) then
    let args ← commaList (.symbol .closeParen) (inner.expr 0)
    symbol .closeParen
    return .call name args (← inner.child)
  if ← take (.symbol .openBracket) then
    let i ← inner.expr 0
    symbol .closeBracket
    return .index name i (← inner.child)
  return .var name (← inner.child)

/-- A period, a name and what the link of that name is, or nothing. -/
def childBy (link : String → Parser Expr) : Parser (Option Expr) := do
  if ← take (.symbol .period) then
    return some (← link (← name))
  return none

/-- The literal that a token has to be, with the blame on the token. -/
def literal (site : List Token) (text : String) : Option Literal → Parser Expr
  | some value => return .constant value
  | none => failAt site (.invalidLiteral text)

/-- The operand that starts with the token just passed, which is the first of `site`. -/
def operandAt (inner : Inner) (site : List Token) (t : Token) : Parser Expr :=
  match t.kind with
  | .int => literal site t.text ((Number.readInt? t.text).map .int)
  | .float => literal site t.text ((Number.readFloat? t.text).map .float)
  | .string => return .constant (.string t.text)
  | .keyword .trueKw => return .constant (.bool true)
  | .keyword .falseKw => return .constant (.bool false)
  | .keyword .nullKw => return .constant .null
  | .symbol .openParen => do
    let e ← inner.expr 0
    symbol .closeParen
    return e
  | .symbol .minus => return .negate (← inner.expr unaryPower)
  | .symbol .bang => return .inverse (← inner.expr unaryPower)
  | .keyword .localKw => do
    let name ← name
    return .declaration name (← typeRef)
  | .keyword .selfKw => return .this (← inner.child)
  | .symbol .hash => do
    let name ← name
    return .classRef ⟨name, 0⟩ (← inner.child)
  | .name => link inner t.text
  | _ => failAt site (.unexpected none)

def operand (inner : Inner) : Parser Expr
  | [] => fail (.unexpected none) []
  | t :: ts => operandAt inner (t :: ts) t ts

/-- Extends an expression by an operator that binds with at least the power `floor`, and its right
operand. -/
def extend (inner : Inner) (floor : Nat) (lhs : Expr) : Parser (Option Expr) := do
  match (← kind?).bind binding? with
  | none => return none
  | some b =>
    if b.left < floor then return none
    skip
    return some (.binary b.op lhs (← inner.expr b.right))

/-- An operand, extended as far as the operators bind. -/
def operands (inner : Inner) (floor : Nat) : Parser Expr := do
  loop (extend inner floor) (← operand inner)

def level : Nat → Inner
  | 0 => ⟨fun _ => fail .tooDeep, childBy fun _ => fail .tooDeep⟩
  | n + 1 => ⟨operands (level n), childBy (link (level n))⟩

def expr (levels : Nat) : Parser Expr :=
  (level levels).expr 0

end FrontEnd.Parse
