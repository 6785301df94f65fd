import FrontEnd.Parse.Statement

/-! Reading scripts. The definitions of a script and the members of a class are read as flat lists
in source order and then sorted by what they are. -/

namespace FrontEnd.Parse

open FrontEnd.Parser FrontEnd.Program

inductive Part where
  | importing (path : List String)
  | defining (c : ClassDecl)
  | function (m : MethodDecl)

namespace Part

def path? : Part → Option (List String)
  | importing path => some path
  | _ => none

def class? : Part → Option ClassDecl
  | defining c => some c
  | _ => none

def function? : Part → Option MethodDecl
  | function m => some m
  | _ => none

def toScript (path : List String) (parts : List Part) : Script where
  path := path
  imports := parts.filterMap path?
  classes := parts.filterMap class?
  functions := parts.filterMap function?

end Part

inductive Member where
  | field (f : FieldDecl)
  | method (m : MethodDecl)

namespace Member

def field? : Member → Option FieldDecl
  | field f => some f
  | _ => none

def method? : Member → Option MethodDecl
  | method m => some m
  | _ => none

end Member

def path : Parser (List String) := do
  let first ← name
  let more ← many do
    if ← take (.symbol .period) then return some (← name)
    return none
  return first :: more

def attributes (levels : Nat) : Parser (List Attribute) :=
  many do
    if ← take (.symbol .atSign) then
      let name ← name
      symbol .openParen
      let args ← commaList (.symbol .closeParen) (expr levels)
      symbol .closeParen
      return some ⟨name, args⟩
    return none

def parameter : Parser Parameter := do
  let site ← get
  let name ← name
  let type ← typeRef
  match Parameter.of name type with
  | .ok p => return p
  | .error e => failAt site (.definition e)

def parameters : Parser (List Parameter) := do
  symbol .openParen
  let params ← commaList (.symbol .closeParen) parameter
  symbol .closeParen
  return params

/-- A function with a body, whose name has been passed. -/
def method (levels : Nat) (attributes : List Attribute) (name : String) (privacy : Privacy)
    (isStatic : Bool) : Parser MethodDecl := do
  let params ← parameters
  let returns ← typeRef
  let body ← block levels
  return { attributes, name, privacy, isStatic, params, returns, body := some body }

/-- A function without a body, whose keyword has been passed. -/
def foreignFunction (attributes : List Attribute) : Parser MethodDecl := do
  let name ← name
  let params ← parameters
  let returns ← typeRef
  symbol .semicolon
  return { attributes, name, privacy := .foreign, isStatic := false, params, returns, body := none }

def privacy : Parser Privacy := do
  if ← take (.keyword .publicKw) then return .visible
  if ← take (.keyword .privateKw) then return .hidden
  fail (.unexpected none)

/-- The next member of a class, unless the class ends. A name in front of a parenthesis is that of a
method. -/
def member (levels : Nat) : Parser (Option Member) := do
  if ← isAt (.symbol .closeBrace) then return none
  let attributes ← attributes levels
  let privacy ← privacy
  let isStatic ← take (.keyword .staticKw)
  let name ← name
  if ← isAt (.symbol .openParen) then
    return some (.method (← method levels attributes name privacy isStatic))
  let type ← typeRef
  symbol .semicolon
  return some (.field { attributes, name, privacy, isStatic, type })

def classDefinition (levels : Nat) (attributes : List Attribute) : Parser ClassDecl := do
  let privacy ← privacy
  let _ ← expect (.keyword .classKw)
  let name ← name
  symbol .openBrace
  let members ← many (member levels)
  symbol .closeBrace
  return { attributes, name, privacy
           fields := members.filterMap Member.field?
           methods := members.filterMap Member.method? }

/-- The next part of a script, unless the input ends. Attributes need a definition behind them. -/
def part (levels : Nat) : Parser (Option Part) := do
  let attributes ← attributes levels
  match ← kind? with
  | none => if attributes.isEmpty then return none else fail (.unexpected none)
  | some (.keyword .importKw) =>
    if attributes.isEmpty then
      skip
      let path ← path
      symbol .semicolon
      return some (.importing path)
    else fail (.unexpected none)
  | some (.keyword .funcKw) =>
    skip
    let name ← name
    return some (.function (← method levels attributes name .global false))
  | some (.keyword .foreignKw) =>
    skip
    return some (.function (← foreignFunction attributes))
  | some (.keyword .publicKw) => return some (.defining (← classDefinition levels attributes))
  | some (.keyword .privateKw) => return some (.defining (← classDefinition levels attributes))
  | some _ => fail (.unexpected none)

def script (levels : Nat) : Parser Script := do
  let _ ← expect (.keyword .namespaceKw)
  let path ← path
  symbol .semicolon
  let parts ← many (part levels)
  return Part.toScript path parts

end FrontEnd.Parse
