/-! References to types by name, as programs write them. -/

namespace FrontEnd.Program

/-- A type name behind a number sign, and the number of stars behind it. -/
structure TypeRef where
  name : String
  /-- The number of stars. It stands for a word of 32 bits, and is exact below `2 ^ 32`. -/
  pointerDepth : Nat
  deriving DecidableEq

namespace TypeRef

/-- Whether this is the type without values. A pointer to it is not. -/
def isVoid (t : TypeRef) : Bool :=
  t.name = "void" && t.pointerDepth = 0

def text (t : TypeRef) : String :=
  "#" ++ t.name ++ String.ofList (List.replicate t.pointerDepth '*')

end TypeRef

end FrontEnd.Program
