import FrontEnd.IR.Module

/-! Building modules instruction by instruction. A builder stands at a place in a block; each
instruction is put there, and the builder moves behind it. The builder checks what it is given, and
a name that was drawn for an instruction stays drawn if the instruction is then refused. -/

namespace FrontEnd.IR

inductive Side where
  | start
  | stop
  deriving DecidableEq

structure Position where
  block : BlockId
  offset : Nat
  deriving DecidableEq

/-- A module under construction, and the place where it goes on. -/
structure Builder where
  module : Module
  position : Option Position

abbrev Build := EStateM (Failure Error) Builder

namespace Builder

def ofModule (m : Module) : Builder := ⟨m, none⟩

def moveTo (id : BlockId) (side : Side) (b : Builder) : Except Error Builder :=
  match b.module.block? id with
  | none => .error (.unknownBlock id)
  | some block =>
    let offset := match side with
      | .start => 0
      | .stop => block.instrs.length
    .ok { b with position := some ⟨id, offset⟩ }

def ofBlock (m : Module) (id : BlockId) (side : Side) : Except Error Builder :=
  (ofModule m).moveTo id side

def check (i : Instr) (p : Position) (m : Module) : Except Error Unit :=
  match m.function? p.block.function with
  | none => .error (.unknownFunction p.block.function)
  | some f =>
    match m.block? p.block with
    | none => .error (.unknownBlock p.block)
    | some block =>
      let closes : Except Error Unit :=
        if i.isTerminator && !block.hasReturned && p.offset != block.instrs.length then
          .error (.terminatorNotAtEnd f.name block.name)
        else .ok ()
      match i with
      | .alloca _ t => if t.isVoid then .error .voidAllocation else closes
      | .ret v =>
        if v.type.same f.returns then closes
        else .error (.returnTypeMismatch f.name v f.returns)
      | _ => closes

/-- The module with an instruction at a place. A terminator ends the block. -/
def place (i : Instr) (p : Position) (m : Module) : Except (Failure Error) Module :=
  match check i p m with
  | .error e => .error (.error e)
  | .ok () =>
    match m.insert p.block p.offset i with
    | .error e => .error e
    | .ok m' =>
      if i.isTerminator then (m'.setReturned p.block true).mapError .error else .ok m'

/-- Puts an instruction at the builder's place and moves behind it. -/
def insert (i : Instr) (b : Builder) : Except (Failure Error) Builder :=
  match b.position with
  | none => .error (.error .unpositioned)
  | some p =>
    match place i p b.module with
    | .error e => .error e
    | .ok m => .ok ⟨m, some { p with offset := p.offset + 1 }⟩

/-- The outcome of a step, and the builder behind it. A violation leaves the builder as it was. -/
def run {α : Type} (step : Build α) (b : Builder) : Except (Failure Error) α × Builder :=
  match step b with
  | .ok a b' => (.ok a, b')
  | .error (.error e) b' => (.error (.error e), b')
  | .error (.violation v) _ => (.error (.violation v), b)

end Builder

namespace Build

def refuse {α : Type} (e : Error) : Build α :=
  throw (.error e)

def moveTo (id : BlockId) (side : Side) : Build Unit := fun b =>
  match b.moveTo id side with
  | .ok b' => .ok () b'
  | .error e => .error (.error e) b

def add (i : Instr) : Build Unit := fun b =>
  match b.insert i with
  | .ok b' => .ok () b'
  | .error e => .error e b

def drawName : Build String := fun b =>
  match b.position with
  | none => .error (.error .unpositioned) b
  | some p =>
    match b.module.drawName p.block.function with
    | .ok (name, m) => .ok name { b with module := m }
    | .error e => .error (.error e) b

def addResult (type : Ty) (i : Value → Instr) : Build Value := do
  let result : Value := ⟨← drawName, type⟩
  add (i result)
  return result

def pointee (ptr : Value) : Build Ty :=
  match ptr.type.pointee? with
  | some t => pure t
  | none => refuse (.notAPointer ptr)

/-- Ends the block, with a value of the function's return type or without one. -/
def ret : Option Value → Build Unit
  | some value => add (.ret value)
  | none => add .retVoid

def alloca (type : Ty) : Build Value := do
  if type.isVoid then refuse .voidAllocation
  addResult (.ptr type) fun result => .alloca result type

def const (type : Ty) (value : Const) : Build Value := do
  if !value.fits type then refuse (.constantMismatch value type)
  addResult type fun result => .const result value

def load (ptr : Value) : Build Value := do
  let type ← pointee ptr
  addResult type fun result => .load result ptr

def store (value ptr : Value) : Build Unit := do
  let type ← pointee ptr
  if !value.type.same type then refuse (.operandMismatch "store" value.type type)
  add (.store value ptr)

def binary (op : BinaryOp) (left right : Value) : Build Value := do
  if !left.type.same right.type then refuse (.operandMismatch op.text left.type right.type)
  addResult (op.resultType left.type) fun result => .binary result op left right

end Build

end FrontEnd.IR
