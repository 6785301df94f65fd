import FrontEnd.Parse.Expr

/-! Reading statements. A list is read as a flat list of items first; then everything behind an `if`
becomes its continuation. Blocks and `else if` use up nesting levels as expressions do. -/

namespace FrontEnd.Parse

open FrontEnd.Parser FrontEnd.Program

structure Branches where
  condition : Expr
  thenPart : List Statement
  elsePart : Option (List Statement)

namespace Branches

def toStatement (b : Branches) (continuation : List Statement) : Statement :=
  .branch b.condition b.thenPart b.elsePart continuation

end Branches

inductive Item where
  | plain (s : Statement)
  | branches (b : Branches)

namespace Item

/-- The statement list of the items: what follows an `if` is its continuation. -/
def assemble : List Item → List Statement
  | [] => []
  | plain s :: rest => s :: assemble rest
  | branches b :: rest => [b.toStatement (assemble rest)]

end Item

structure InnerBody where
  /-- Statements between braces. -/
  block : Parser (List Statement)
  /-- The `if` behind an `else`. -/
  elseIf : Parser Branches

/-- What follows a `return`: an expression, or nothing in front of a semicolon. -/
def returned (expr : Parser Expr) : Parser (Option Expr) := do
  if ← isAt (.symbol .semicolon) then return none
  return some (← expr)

/-- Checks that a value can be stored into the target, with the blame on its statement. -/
def ensureAssignable (site : List Token) (target : Expr) : Parser Unit :=
  if target.isAssignable then pure () else failAt site .invalidTarget

/-- A statement that starts with an expression. What follows the expression decides what it is, and
failing that its shape. -/
def simpleStatement (expr : Parser Expr) : Parser Statement := do
  let site ← get
  let e ← expr
  if ← take (.symbol .assign) then
    ensureAssignable site e
    return .assignment e (← expr)
  if ← take (.symbol .increment) then
    ensureAssignable site e
    return .increment e
  if ← take (.symbol .decrement) then
    ensureAssignable site e
    return .decrement e
  return .ofExpr e

/-- A statement that is no `if`. -/
def statement (expr : Parser Expr) (block : Parser (List Statement)) : Parser Statement := do
  let site ← get
  match ← kind? with
  | none => fail (.unexpected none)
  | some (.keyword .whileKw) =>
    skip
    let condition ← expr
    return .loop condition (← block)
  | some (.symbol .openBrace) => return .block (← block)
  | some (.keyword .returnKw) =>
    skip
    let value ← returned expr
    symbol .semicolon
    return .ret value
  | some (.symbol .increment) =>
    skip
    let target ← expr
    ensureAssignable site target
    symbol .semicolon
    return .increment target
  | some (.symbol .decrement) =>
    skip
    let target ← expr
    ensureAssignable site target
    symbol .semicolon
    return .decrement target
  | some _ =>
    let s ← simpleStatement expr
    symbol .semicolon
    return s

/-- An `if` with its branches. The `if` behind an `else` stands alone in its list. -/
def branches (expr : Parser Expr) (inner : InnerBody) : Parser Branches := do
  let _ ← expect (.keyword .ifKw)
  let condition ← expr
  let thenPart ← inner.block
  if ← take (.keyword .elseKw) then
    if ← isAt (.keyword .ifKw) then
      let b ← inner.elseIf
      return ⟨condition, thenPart, some [b.toStatement []]⟩
    return ⟨condition, thenPart, some (← inner.block)⟩
  return ⟨condition, thenPart, none⟩

/-- The next member of a list, unless the list ends: at the closing token, or with the input. -/
def item (expr : Parser Expr) (inner : InnerBody) (close : Option TokenKind) :
    Parser (Option Item) := do
  match ← kind? with
  | none => return none
  | some kind =>
    if close = some kind then return none
    if kind = .keyword .ifKw then return some (.branches (← branches expr inner))
    return some (.plain (← statement expr inner.block))

/-- Statements up to the closing token, which stays, or to the end of the input. -/
def statementsUntil (expr : Parser Expr) (inner : InnerBody) (close : Option TokenKind) :
    Parser (List Statement) := do
  return Item.assemble (← many (item expr inner close))

def braced (expr : Parser Expr) (inner : InnerBody) : Parser (List Statement) := do
  symbol .openBrace
  let body ← statementsUntil expr inner (some (.symbol .closeBrace))
  symbol .closeBrace
  return body

def bodyLevel : Nat → InnerBody
  | 0 => ⟨fail .tooDeep, fail .tooDeep⟩
  | n + 1 => ⟨braced (expr n) (bodyLevel n), branches (expr n) (bodyLevel n)⟩

def block (levels : Nat) : Parser (List Statement) :=
  (bodyLevel levels).block

def statements (levels : Nat) : Parser (List Statement) :=
  statementsUntil (expr levels) (bodyLevel levels) none

end FrontEnd.Parse
