import FrontEnd.Failure

/-! Positions, counted in bytes of a text or in tokens. A position fits a word of 64 bits, and to
step past the last one breaks a precondition, whether anything stands there or not. -/

namespace FrontEnd.Source

/-- The last position: the largest word of 64 bits. -/
def lastPosition : Nat := 18446744073709551615

def stepForward (count position : Nat) : Except Violation Nat :=
  if position + count ≤ lastPosition then .ok (position + count) else .error .pastLastPosition

/-- A step succeeds exactly if it ends at the last position or before it, and then it is exact. -/
theorem stepForward_eq_ok_iff {count position target : Nat} :
    stepForward count position = .ok target ↔
      target = position + count ∧ position + count ≤ lastPosition := by
  unfold stepForward
  split <;> simp_all [eq_comm]

end FrontEnd.Source
