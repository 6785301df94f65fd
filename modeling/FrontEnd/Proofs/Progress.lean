import FrontEnd.Parse.Expr

/-! Parsers only go forward: whatever the outcome, what is left is an end of what was there, and an
expression takes at least one token. So the loops over operators and arguments are not cut short by
their clock, and `loop_eq` and `many_eq` apply to them. -/

namespace FrontEnd.Parser

variable {α β σ : Type}

/-- A parser that leaves an end of its input, also when it fails. -/
structure Forward (p : Parser α) : Prop where
  ok : ∀ {ts a us}, p ts = .ok a us → us <:+ ts
  error : ∀ {ts e us}, p ts = .error e us → us <:+ ts

/-- A parser that takes a token when it succeeds. -/
structure Consumes (p : Parser α) : Prop extends Forward p where
  shrinks : ∀ {ts a us}, p ts = .ok a us → us.length < ts.length

theorem bind_ok {p : Parser α} {f : α → Parser β} {ts us : List Token} {a : α}
    (h : p ts = .ok a us) : (p >>= f) ts = f a us := by
  rw [bind_apply, h]

theorem bind_error {p : Parser α} {f : α → Parser β} {ts us : List Token} {e : Fault}
    (h : p ts = .error e us) : (p >>= f) ts = .error e us := by
  rw [bind_apply, h]

theorem bind_eq_ok_iff {p : Parser α} {f : α → Parser β} {ts vs : List Token} {b : β} :
    (p >>= f) ts = .ok b vs ↔ ∃ a us, p ts = .ok a us ∧ f a us = .ok b vs := by
  rw [bind_apply]
  cases h : p ts <;> simp [and_assoc]

theorem bind_eq_error_iff {p : Parser α} {f : α → Parser β} {ts vs : List Token} {e : Fault} :
    (p >>= f) ts = .error e vs ↔
      p ts = .error e vs ∨ ∃ a us, p ts = .ok a us ∧ f a us = .error e vs := by
  rw [bind_apply]
  cases h : p ts <;> simp [and_assoc]

theorem pure_eq_ok_iff {a b : α} {ts us : List Token} :
    (pure a : Parser α) ts = .ok b us ↔ a = b ∧ ts = us := by
  rw [pure_apply]
  simp

theorem Forward.pure (a : α) : Forward (pure a : Parser α) where
  ok h := by
    obtain ⟨-, rfl⟩ := pure_eq_ok_iff.1 h
    exact List.suffix_refl _
  error h := by cases h

theorem Forward.bind {p : Parser α} {f : α → Parser β} (hp : Forward p)
    (hf : ∀ a, Forward (f a)) : Forward (p >>= f) where
  ok h := by
    obtain ⟨a, us, h1, h2⟩ := bind_eq_ok_iff.1 h
    exact ((hf a).ok h2).trans (hp.ok h1)
  error h := by
    rcases bind_eq_error_iff.1 h with h1 | ⟨a, us, h1, h2⟩
    · exact hp.error h1
    · exact ((hf a).error h2).trans (hp.ok h1)

theorem Consumes.bind {p : Parser α} {f : α → Parser β} (hp : Consumes p)
    (hf : ∀ a, Forward (f a)) : Consumes (p >>= f) where
  toForward := hp.toForward.bind hf
  shrinks h := by
    obtain ⟨a, us, h1, h2⟩ := bind_eq_ok_iff.1 h
    have h3 := hp.shrinks h1
    have h4 := ((hf a).ok h2).length_le
    omega

theorem Forward.ite {c : Prop} [Decidable c] {p q : Parser α} (hp : Forward p) (hq : Forward q) :
    Forward (if c then p else q) := by
  split
  · exact hp
  · exact hq

theorem consumes_fail (cause : Cause) : Consumes (fail cause : Parser α) where
  ok h := by cases h
  error h := by
    cases h
    exact List.suffix_refl _
  shrinks h := by cases h

theorem consumes_failAt (site : List Token) (cause : Cause) :
    Consumes (failAt site cause : Parser α) where
  ok h := by cases h
  error h := by
    cases h
    exact List.suffix_refl _
  shrinks h := by cases h

theorem forward_kind? : Forward kind? where
  ok h := by
    cases h
    exact List.suffix_refl _
  error h := by cases h

theorem forward_skip : Forward skip where
  ok h := by
    cases h
    exact List.tail_suffix _
  error h := by cases h

theorem forward_isAt (kind : TokenKind) : Forward (isAt kind) where
  ok h := by
    cases h
    exact List.suffix_refl _
  error h := by cases h

/-- Whether the token was passed tells whether it was there. -/
theorem take_eq_ok_iff {kind : TokenKind} {ts us : List Token} {b : Bool} :
    take kind ts = .ok b us ↔
      (b = true ∧ ∃ t, t.kind = kind ∧ ts = t :: us) ∨
      (b = false ∧ ts = us ∧ ∀ t ∈ ts.head?, t.kind ≠ kind) := by
  cases ts with
  | nil => simp [take, and_comm, eq_comm]
  | cons t ts =>
    rw [take]
    split <;> grind

theorem take_ne_error {kind : TokenKind} {ts us : List Token} {e : Fault} :
    take kind ts ≠ .error e us := by
  cases ts with
  | nil => simp [take]
  | cons t ts =>
    rw [take]
    split <;> simp

theorem forward_take (kind : TokenKind) : Forward (take kind) where
  ok h := by
    rcases take_eq_ok_iff.1 h with ⟨-, t, -, rfl⟩ | ⟨-, rfl, -⟩
    · exact List.suffix_cons _ _
    · exact List.suffix_refl _
  error h := absurd h take_ne_error

theorem expect_eq_ok_iff {kind : TokenKind} {ts us : List Token} {t : Token} :
    expect kind ts = .ok t us ↔ t.kind = kind ∧ ts = t :: us := by
  cases ts with
  | nil => simp [expect]
  | cons u ts =>
    rw [expect]
    split <;> grind

theorem consumes_expect (kind : TokenKind) : Consumes (expect kind) where
  ok h := by
    obtain ⟨-, rfl⟩ := expect_eq_ok_iff.1 h
    exact List.suffix_cons _ _
  error {ts e us} h := by
    cases ts with
    | nil =>
      cases h
      exact List.suffix_refl _
    | cons t ts =>
      rw [expect] at h
      split at h <;> cases h
      exact List.suffix_refl _
  shrinks h := by
    obtain ⟨-, rfl⟩ := expect_eq_ok_iff.1 h
    exact Nat.lt_succ_self _

theorem consumes_symbol (s : Symbol) : Consumes (symbol s) :=
  (consumes_expect _).bind fun _ => .pure _

theorem consumes_name : Consumes name :=
  (consumes_expect _).bind fun _ => .pure _

/-- A relation between parsers that sequences keep is kept by loops under clocks of one length. -/
theorem related_iterate {R : ∀ {α : Type}, Parser α → Parser α → Prop}
    (hpure : ∀ {α : Type} (a : α), R (pure a : Parser α) (pure a))
    (hbind : ∀ {α β : Type} {p q : Parser α} {f g : α → Parser β},
      R p q → (∀ a, R (f a) (g a)) → R (p >>= f) (q >>= g))
    {step step' : σ → Parser (Option σ)} (h : ∀ s, R (step s) (step' s))
    {clock clock' : List Token} (hc : clock.length = clock'.length) (s : σ) :
    R (iterate step clock s) (iterate step' clock' s) := by
  induction clock generalizing clock' s with
  | nil =>
    obtain rfl : clock' = [] := List.length_eq_zero_iff.1 hc.symm
    refine hbind (h s) fun s? => ?_
    cases s? with
    | none => exact hpure _
    | some s' => exact hpure _
  | cons t clock ih =>
    cases clock' with
    | nil => cases hc
    | cons t' clock' =>
      refine hbind (h s) fun s? => ?_
      cases s? with
      | none => exact hpure _
      | some s' => exact ih (Nat.succ.inj hc) s'

/-- A loop goes forward if its rounds do, whatever its clock says. -/
theorem forward_iterate {step : σ → Parser (Option σ)} (h : ∀ s, Forward (step s))
    (clock : List Token) (s : σ) : Forward (iterate step clock s) :=
  @related_iterate σ (fun p _ => Forward p) .pure (fun hp hf => hp.bind hf) step step h clock clock
    rfl s

theorem forward_loop {step : σ → Parser (Option σ)} (h : ∀ s, Forward (step s)) (s : σ) :
    Forward (loop step s) where
  ok := (forward_iterate h _ s).ok
  error := (forward_iterate h _ s).error

theorem forward_many {item : Parser (Option α)} (h : Forward item) : Forward (many item) :=
  (forward_loop (fun _ => h.bind fun _ => .pure _) []).bind fun _ => .pure _

/-- One more item of a comma list: a comma that the closing token does not follow, and an item. -/
def nextItem (close : TokenKind) (item : Parser α) : Parser (Option α) := do
  if ← take (.symbol .comma) then
    if ← isAt close then return none
    return some (← item)
  return none

theorem commaList_eq (close : TokenKind) (item : Parser α) :
    commaList close item = (do
      if ← isAt close then return []
      let first ← item
      let more ← many (nextItem close item)
      return first :: more) := rfl

theorem forward_nextItem (close : TokenKind) {item : Parser α} (h : Forward item) :
    Forward (nextItem close item) :=
  (forward_take _).bind fun _ => .ite
    ((forward_isAt _).bind fun _ => .ite (.pure _) (h.bind fun _ => .pure _)) (.pure _)

theorem forward_commaList (close : TokenKind) {item : Parser α} (h : Forward item) :
    Forward (commaList close item) :=
  (forward_isAt _).bind fun _ => .ite (.pure _) (h.bind fun _ =>
    (forward_many (forward_nextItem close h)).bind fun _ => .pure _)

/-- The comma in front of an item is a token that the round takes. -/
theorem itemAdvances_nextItem (close : TokenKind) {item : Parser α} (h : Forward item) :
    ItemAdvances (nextItem close item) := by
  intro ts a vs hs
  obtain ⟨b, us, ht, hn⟩ := bind_eq_ok_iff.1 hs
  rcases take_eq_ok_iff.1 ht with ⟨rfl, t, -, rfl⟩ | ⟨rfl, rfl, -⟩
  · have hf : Forward ((isAt close).bind fun b => if b then pure none else some <$> item) :=
      (forward_isAt _).bind fun _ => .ite (.pure _) (h.bind fun _ => .pure _)
    exact Nat.lt_succ_of_le (hf.ok hn).length_le
  · cases hn

end FrontEnd.Parser

namespace FrontEnd.Parse

open FrontEnd.Parser FrontEnd.Program

def star : Parser (Option Unit) := do
  return if ← take (.symbol .star) then some () else none

theorem typeRef_eq : typeRef = (do
    symbol .hash
    let name ← name
    let stars ← many star
    return ⟨name, stars.length⟩) := rfl

theorem itemAdvances_star : ItemAdvances star := by
  intro ts a us hs
  obtain ⟨b, vs, ht, hp⟩ := bind_eq_ok_iff.1 hs
  rcases take_eq_ok_iff.1 ht with ⟨rfl, t, -, rfl⟩ | ⟨rfl, rfl, -⟩
  · cases hp
    exact Nat.lt_succ_self _
  · cases hp

theorem consumes_typeRef : Consumes typeRef :=
  (consumes_symbol _).bind fun _ => consumes_name.toForward.bind fun _ =>
    (forward_many ((forward_take _).bind fun _ => .pure _)).bind fun _ => .pure _

structure InnerForward (inner : Inner) : Prop where
  expr : ∀ floor, Consumes (inner.expr floor)
  child : Forward inner.child

section Inner

variable {inner : Inner}

theorem forward_link (h : InnerForward inner) (name : String) : Forward (link inner name) := by
  refine (forward_take _).bind fun _ => .ite ?_ ?_
  · exact (forward_commaList _ (h.expr 0).toForward).bind fun _ =>
      (consumes_symbol _).toForward.bind fun _ => h.child.bind fun _ => .pure _
  · refine (forward_take _).bind fun _ => .ite ?_ (h.child.bind fun _ => .pure _)
    exact (h.expr 0).toForward.bind fun _ => (consumes_symbol _).toForward.bind fun _ =>
      h.child.bind fun _ => .pure _

theorem forward_childBy {link : String → Parser Expr} (h : ∀ name, Forward (link name)) :
    Forward (childBy link) :=
  (forward_take _).bind fun _ => .ite
    (consumes_name.toForward.bind fun name => (h name).bind fun _ => .pure _) (.pure _)

theorem forward_literal (site : List Token) (text : String) (value? : Option Literal) :
    Forward (literal site text value?) := by
  cases value? with
  | none => exact (consumes_failAt _ _).toForward
  | some value => exact .pure _

theorem forward_operandAt (h : InnerForward inner) (site : List Token) (t : Token) :
    Forward (operandAt inner site t) := by
  have hunary := (h.expr unaryPower).toForward
  unfold operandAt
  split
  · exact forward_literal _ _ _
  · exact forward_literal _ _ _
  · exact .pure _
  · exact .pure _
  · exact .pure _
  · exact .pure _
  · exact (h.expr 0).toForward.bind fun _ => (consumes_symbol _).toForward.bind fun _ => .pure _
  · exact hunary.bind fun _ => .pure _
  · exact hunary.bind fun _ => .pure _
  · exact consumes_name.toForward.bind fun _ => consumes_typeRef.toForward.bind fun _ => .pure _
  · exact h.child.bind fun _ => .pure _
  · exact consumes_name.toForward.bind fun _ => h.child.bind fun _ => .pure _
  · exact forward_link h _
  · exact (consumes_failAt _ _).toForward

theorem consumes_operand (h : InnerForward inner) : Consumes (operand inner) where
  ok {ts e us} hs := by
    cases ts with
    | nil => cases hs
    | cons t ts => exact ((forward_operandAt h _ t).ok hs).trans (List.suffix_cons _ _)
  error {ts e us} hs := by
    cases ts with
    | nil =>
      cases hs
      exact List.suffix_refl _
    | cons t ts => exact ((forward_operandAt h _ t).error hs).trans (List.suffix_cons _ _)
  shrinks {ts e us} hs := by
    cases ts with
    | nil => cases hs
    | cons t ts => exact Nat.lt_succ_of_le ((forward_operandAt h _ t).ok hs).length_le

theorem forward_extend (h : InnerForward inner) (floor : Nat) (lhs : Expr) :
    Forward (extend inner floor lhs) := by
  refine forward_kind?.bind fun k? => ?_
  cases k?.bind binding? with
  | none => exact .pure _
  | some b =>
    exact .ite (.pure _) (forward_skip.bind fun _ => (h.expr _).toForward.bind fun _ => .pure _)

theorem consumes_operands (h : InnerForward inner) (floor : Nat) : Consumes (operands inner floor) :=
  (consumes_operand h).bind fun _ => forward_loop (forward_extend h floor) _

end Inner

/-- Every parser of expressions takes a token, however many levels are left. -/
theorem innerForward_level (n : Nat) : InnerForward (level n) := by
  induction n with
  | zero => exact ⟨fun _ => consumes_fail _, forward_childBy fun _ => (consumes_fail _).toForward⟩
  | succ n ih => exact ⟨consumes_operands ih, forward_childBy (forward_link ih)⟩

end FrontEnd.Parse
