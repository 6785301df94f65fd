import FrontEnd.Failure
import FrontEnd.IR.Instr

/-! Modules of the intermediate representation: functions made of blocks made of instructions. A
module only grows. Functions and blocks are named by their places, and a block that has returned
takes no more instructions. -/

namespace FrontEnd.IR

/-- A function of a module, by its place. -/
structure FuncId where
  index : Nat
  deriving DecidableEq

namespace FuncId

def text (id : FuncId) : String :=
  "FunctionId(" ++ toString id.index ++ ")"

end FuncId

/-- A block of a module, by its function and its place there. -/
structure BlockId where
  function : FuncId
  index : Nat
  deriving DecidableEq

namespace BlockId

def text (id : BlockId) : String :=
  "BlockId \x7b function: " ++ id.function.text ++ ", index: " ++ toString id.index ++ " \x7d"

end BlockId

inductive Error where
  | blockTerminated (function block : String)
  | cannotUnreturn (function block : String)
  | terminatorNotAtEnd (function block : String)
  | returnTypeMismatch (function : String) (value : Value) (expected : Ty)
  | voidAllocation
  | unpositioned
  | unknownBlock (id : BlockId)
  | unknownFunction (id : FuncId)
  | notAPointer (value : Value)
  | operandMismatch (op : String) (left right : Ty)
  | constantMismatch (value : Const) (type : Ty)
  | unterminatedBlock (function block : String)

namespace Error

def blockText (function block : String) : String :=
  "block `" ++ block ++ "` in function `" ++ function ++ "`"

def message : Error → String
  | blockTerminated function block =>
    blockText function block ++ " has already returned, cannot add more instructions"
  | cannotUnreturn function block =>
    blockText function block ++ " has returned, this cannot be undone"
  | terminatorNotAtEnd function block =>
    "a terminator must be the last instruction of " ++ blockText function block
  | returnTypeMismatch function value expected =>
    "value " ++ value.text ++ " cannot be returned by function `" ++ function
      ++ "` as it is of type " ++ value.type.text ++ ", not " ++ expected.text
  | voidAllocation => "cannot allocate storage for type void"
  | unpositioned => "the builder isn't positioned at any block"
  | unknownBlock id => "block " ++ id.text ++ " doesn't belong to this module"
  | unknownFunction id => "function " ++ id.text ++ " doesn't belong to this module"
  | notAPointer value =>
    "value " ++ value.text ++ " of type " ++ value.type.text ++ " is not a pointer"
  | operandMismatch op left right =>
    "mismatched operand types for `" ++ op ++ "`: " ++ left.text ++ " and " ++ right.text
  | constantMismatch value type => "constant " ++ value.text ++ " can't have type " ++ type.text
  | unterminatedBlock function block => blockText function block ++ " is not terminated"

end Error

structure Block where
  name : String
  /-- The function that the block belongs to. -/
  function : FuncId
  instrs : List Instr
  hasReturned : Bool

/-- A function. Without blocks it is a declaration of one that is defined elsewhere. -/
structure Func where
  name : String
  returns : Ty
  params : List Ty
  blocks : List Block
  /-- The number that the next drawn name has. It stands for a word of 32 bits, and is exact below
  `2 ^ 32`. -/
  nextName : Nat

namespace Func

def type (f : Func) : Ty :=
  .fn f.returns f.params

def isDeclaration (f : Func) : Bool :=
  f.blocks.isEmpty

def param? (index : Nat) (f : Func) : Option Value :=
  f.params[index]?.map fun t => ⟨"arg" ++ toString index, t⟩

def blockLines (b : Block) : List String :=
  (b.name ++ ":") :: b.instrs.map fun i => "  " ++ i.text

def text (f : Func) : String :=
  if f.isDeclaration then
    "declare fn " ++ f.name ++ "(" ++ ", ".intercalate (f.params.map Ty.text) ++ ") -> "
      ++ f.returns.text
  else
    let params := (List.range f.params.length).filterMap f.param?
    let header := "fn " ++ f.name ++ "("
      ++ ", ".intercalate (params.map fun p => p.text ++ ": " ++ p.type.text) ++ ") -> "
      ++ f.returns.text ++ " \x7b"
    "\n".intercalate (header :: f.blocks.flatMap blockLines ++ ["\x7d"])

end Func

structure Module where
  name : String
  functions : List Func

namespace Module

def empty (name : String) : Module := ⟨name, []⟩

def function? (id : FuncId) (m : Module) : Option Func :=
  m.functions[id.index]?

def block? (id : BlockId) (m : Module) : Option Block := do
  (← m.function? id.function).blocks[id.index]?

def modifyFunction (id : FuncId) (g : Func → Func) (m : Module) : Module :=
  { m with functions := m.functions.modify id.index g }

def modifyBlock (id : BlockId) (g : Block → Block) (m : Module) : Module :=
  m.modifyFunction id.function fun f => { f with blocks := f.blocks.modify id.index g }

theorem function?_modifyFunction (id other : FuncId) (g : Func → Func) (m : Module) :
    (m.modifyFunction id g).function? other =
      if id = other then (m.function? other).map g else m.function? other := by
  cases id
  cases other
  simp only [function?, modifyFunction, List.getElem?_modify, FuncId.mk.injEq]
  split <;> simp

theorem block?_eq_some_iff {id : BlockId} {m : Module} {k : Block} :
    m.block? id = some k ↔
      ∃ f, m.function? id.function = some f ∧ f.blocks[id.index]? = some k := by
  simp [block?, Option.bind_eq_some_iff]

/-- A change of a block changes no other block. -/
theorem block?_modifyBlock (id other : BlockId) (g : Block → Block) (m : Module) :
    (m.modifyBlock id g).block? other =
      if id = other then (m.block? other).map g else m.block? other := by
  obtain ⟨id, n⟩ := id
  obtain ⟨other, n'⟩ := other
  simp only [block?, modifyBlock, function?_modifyFunction, BlockId.mk.injEq]
  by_cases hid : id = other
  · subst hid
    cases m.function? id with
    | none => simp
    | some f =>
      simp only [if_true, Option.map_some, Option.bind_eq_bind, Option.bind_some,
        List.getElem?_modify, true_and]
      split <;> simp
  · simp [hid]

def addFunction (name : String) (returns : Ty) (params : List Ty) (m : Module) : FuncId × Module :=
  (⟨m.functions.length⟩, { m with functions := m.functions ++ [⟨name, returns, params, [], 0⟩] })

theorem function?_addFunction (name : String) (returns : Ty) (params : List Ty) (m : Module)
    (id : FuncId) :
    (m.addFunction name returns params).2.function? id =
      if id.index = m.functions.length then some ⟨name, returns, params, [], 0⟩
      else m.function? id := by
  simp only [function?, addFunction, List.getElem?_append]
  split
  · rw [if_neg (by omega)]
  · split
    · next hid => simp [hid]
    · rw [List.getElem?_eq_none (by simp; omega), List.getElem?_eq_none (by omega)]

def addBlock (id : FuncId) (name : String) (m : Module) : Except Error (BlockId × Module) :=
  match m.function? id with
  | none => .error (.unknownFunction id)
  | some f =>
    .ok (⟨id, f.blocks.length⟩,
      m.modifyFunction id fun f => { f with blocks := f.blocks ++ [⟨name, id, [], false⟩] })

/-- A block and the function that it is in. -/
def locate (id : BlockId) (m : Module) : Except Error (Func × Block) :=
  match m.function? id.function with
  | none => .error (.unknownBlock id)
  | some f =>
    match f.blocks[id.index]? with
    | none => .error (.unknownBlock id)
    | some b => .ok (f, b)

/-- Puts an instruction into an open block, in front of the one at `position`. -/
def insert (id : BlockId) (position : Nat) (i : Instr) (m : Module) :
    Except (Failure Error) Module :=
  match m.locate id with
  | .error e => .error (.error e)
  | .ok (f, b) =>
    if b.hasReturned then .error (.error (.blockTerminated f.name b.name))
    else if b.instrs.length < position then .error (.violation .pastBlockEnd)
    else .ok (m.modifyBlock id fun b => { b with instrs := b.instrs.insertIdx position i })

/-- Says whether a block has returned, which cannot be taken back. -/
def setReturned (id : BlockId) (returned : Bool) (m : Module) : Except Error Module :=
  match m.locate id with
  | .error e => .error e
  | .ok (f, b) =>
    if b.hasReturned && !returned then .error (.cannotUnreturn f.name b.name)
    else .ok (m.modifyBlock id fun b => { b with hasReturned := returned })

def drawName (id : FuncId) (m : Module) : Except Error (String × Module) :=
  match m.function? id with
  | none => .error (.unknownFunction id)
  | some f =>
    .ok (toString f.nextName, m.modifyFunction id fun f => { f with nextName := f.nextName + 1 })

def openBlock? (m : Module) : Option (Func × Block) :=
  m.functions.findSome? fun f => (f.blocks.find? fun b => !b.hasReturned).map fun b => (f, b)

def verify (m : Module) : Except Error Unit :=
  match m.openBlock? with
  | none => .ok ()
  | some (f, b) => .error (.unterminatedBlock f.name b.name)

def text (m : Module) : String :=
  "\n\n".intercalate (("module " ++ m.name) :: m.functions.map Func.text)

end Module

end FrontEnd.IR
