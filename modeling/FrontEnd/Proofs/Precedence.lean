import FrontEnd.Proofs.Grammar

/-! How the layers of the grammar and the binding powers of the operators belong together: an
operator of a layer binds its left operand with the power of the layer and its right operand with one
more, and the operands of the layer have the next power but one. -/

namespace FrontEnd.Grammar

open FrontEnd.Parse FrontEnd.Program

namespace Layer

/-- The power with which the operators of the layer bind what stands left of them. -/
def power : Layer → Nat
  | or => 1
  | and => 3
  | cmp => 5
  | add => 7
  | mul => 9
  | unary => 11
  | primary => 12

theorem power_le_power_next (l : Layer) : l.power ≤ l.next.power := by
  cases l <;> decide

/-- The operators of a layer bind as the layer says. -/
theorem binding?_of_operator? {l : Layer} {s : Symbol} {op : Operator}
    (h : l.operator? s = some op) :
    binding? (.symbol s) = some ⟨op, l.power, l.power + 1⟩ ∧ l.next.power = l.power + 2 := by
  unfold operator? at h
  split at h <;> first | (cases h; exact ⟨rfl, rfl⟩) | cases h

/-- Every operator belongs to a layer, but for the power, which binds to the right. -/
theorem operator?_of_binding? {kind : TokenKind} {b : Binding} (h : binding? kind = some b) :
    (∃ l s, kind = .symbol s ∧ operator? l s = some b.op ∧ b.left = l.power ∧
      b.right = l.power + 1) ∨ (kind = .symbol .power ∧ b = ⟨.exp, 12, 11⟩) := by
  unfold binding? at h
  split at h <;> cases h
  · exact .inl ⟨or, _, rfl, rfl, rfl, rfl⟩
  · exact .inl ⟨or, _, rfl, rfl, rfl, rfl⟩
  · exact .inl ⟨and, _, rfl, rfl, rfl, rfl⟩
  · exact .inl ⟨and, _, rfl, rfl, rfl, rfl⟩
  · exact .inl ⟨cmp, _, rfl, rfl, rfl, rfl⟩
  · exact .inl ⟨cmp, _, rfl, rfl, rfl, rfl⟩
  · exact .inl ⟨cmp, _, rfl, rfl, rfl, rfl⟩
  · exact .inl ⟨cmp, _, rfl, rfl, rfl, rfl⟩
  · exact .inl ⟨cmp, _, rfl, rfl, rfl, rfl⟩
  · exact .inl ⟨cmp, _, rfl, rfl, rfl, rfl⟩
  · exact .inl ⟨add, _, rfl, rfl, rfl, rfl⟩
  · exact .inl ⟨add, _, rfl, rfl, rfl, rfl⟩
  · exact .inl ⟨mul, _, rfl, rfl, rfl, rfl⟩
  · exact .inl ⟨mul, _, rfl, rfl, rfl, rfl⟩
  · exact .inl ⟨mul, _, rfl, rfl, rfl, rfl⟩
  · exact .inr ⟨rfl, rfl⟩

end Layer

/-- An expression of a layer is one of every looser layer. -/
theorem Derivation.exists_loosened {l t : Layer} (d : Derivation (.expr t))
    (h : l.power ≤ t.power) :
    ∃ d' : Derivation (.expr l), d'.tokens = d.tokens ∧ d'.value = d.value ∧
      d'.nesting = d.nesting ∧ ∀ rest, d'.Separated rest ↔ d.Separated rest := by
  by_cases hlt : l = t
  · subst hlt
    exact ⟨d, rfl, rfl, rfl, fun _ => Iff.rfl⟩
  · have hp : l ≠ .primary := by
      rintro rfl
      cases t <;> simp_all [Layer.power]
    have hn : l.next.power ≤ t.power := by
      cases l <;> cases t <;> simp_all [Layer.power, Layer.next]
    obtain ⟨d', h1, h2, h3, h4⟩ := d.exists_loosened hn
    exact ⟨.next hp d', h1, h2, h3, h4⟩
termination_by t.power - l.power
decreasing_by
  have : l.power < l.next.power := by cases l <;> simp_all [Layer.power, Layer.next]
  omega

end FrontEnd.Grammar
