import FrontEnd.IR.Module

/-! Handing finished modules over. A module is verified first, so a backend only ever sees modules
all of whose blocks have returned. -/

namespace FrontEnd.IR

/-- Something that takes verified modules. It has a state of its own and may fail. -/
structure Backend (σ ε α : Type) where
  emit : Module → EStateM ε σ α
  /-- What it says of a module that was not verified. -/
  reject : Error → ε

def handOff {σ ε α : Type} (backend : Backend σ ε α) (m : Module) : EStateM ε σ α :=
  match m.verify with
  | .error e => throw (backend.reject e)
  | .ok () => backend.emit m

/-- A place for bytes, which may have room for so many only. -/
structure Sink where
  capacity : Option Nat
  written : List UInt8

namespace Sink

/-- Takes as many of the bytes as there is room for. -/
def write (bytes : List UInt8) (s : Sink) : Sink :=
  match s.capacity with
  | none => { s with written := s.written ++ bytes }
  | some n => { s with written := s.written ++ bytes.take (n - s.written.length) }

def hasRoom (bytes : List UInt8) (s : Sink) : Bool :=
  match s.capacity with
  | none => true
  | some n => s.written.length + bytes.length ≤ n

end Sink

inductive WriteError where
  | invalid (e : Error)
  | diskFull

namespace WriteError

def message : WriteError → String
  | invalid e => "invalid module: " ++ e.message
  | diskFull => "failed to write module: disk full"

end WriteError

/-- The backend that writes the text of a module and a line feed. -/
def textBackend : Backend Sink WriteError Unit where
  emit m := fun s =>
    let bytes := (m.text ++ "\n").toUTF8.toList
    if s.hasRoom bytes then .ok () (s.write bytes) else .error .diskFull (s.write bytes)
  reject := .invalid

end FrontEnd.IR
