import FrontEnd.Parse.Script
import FrontEnd.Proofs.ExprSteps

/-! The parsers of statements and scripts only go forward as well, and every statement, `if`, block,
attribute, member and part takes a token. So the loops over them are not cut short by their clock.
-/

namespace FrontEnd.Parser

variable {α β : Type}

theorem Forward.bind_consumes {p : Parser α} {f : α → Parser β} (hp : Forward p)
    (hf : ∀ a, Consumes (f a)) : Consumes (p >>= f) where
  toForward := hp.bind fun a => (hf a).toForward
  shrinks h := by
    obtain ⟨a, us, h1, h2⟩ := bind_eq_ok_iff.1 h
    have h3 := (hp.ok h1).length_le
    have h4 := (hf a).shrinks h2
    omega

theorem get_apply (ts : List Token) : (get : Parser (List Token)) ts = .ok ts ts := rfl

theorem forward_get : Forward (get : Parser (List Token)) where
  ok h := by
    cases h
    exact List.suffix_refl _
  error h := by cases h

theorem kind?_eq_ok_iff {kind : Option TokenKind} {ts us : List Token} :
    kind? ts = .ok kind us ↔ ts.head?.map Token.kind = kind ∧ ts = us := by
  simp [kind?]

/-- A parser that takes a token if it finds something. -/
theorem itemAdvances_of_consumes {p : Parser α} {f : α → Option β} (h : Consumes p) :
    ItemAdvances (p >>= fun a => pure (f a)) := by
  intro ts b us hs
  obtain ⟨a, vs, hp, hf⟩ := bind_eq_ok_iff.1 hs
  obtain ⟨-, rfl⟩ := pure_eq_ok_iff.1 hf
  exact h.shrinks hp

/-- The token that starts an item is one that the item takes. -/
theorem itemAdvances_take {kind : TokenKind} {p : Parser (Option α)} (h : Forward p) :
    ItemAdvances (take kind >>= fun b => if b then p else pure none) := by
  intro ts a us hs
  obtain ⟨b, vs, ht, hp⟩ := bind_eq_ok_iff.1 hs
  rcases take_eq_ok_iff.1 ht with ⟨rfl, t, -, rfl⟩ | ⟨rfl, rfl, -⟩
  · exact Nat.lt_succ_of_le (h.ok hp).length_le
  · cases hp

end FrontEnd.Parser

namespace FrontEnd.Parse

open FrontEnd.Parser FrontEnd.Program

theorem consumes_expr (n : Nat) : Consumes (expr n) :=
  (innerForward_level n).expr 0

structure BodyForward (inner : InnerBody) : Prop where
  block : Consumes inner.block
  elseIf : Consumes inner.elseIf

section Body

variable {expr : Parser Expr} {inner : InnerBody}

theorem forward_returned (he : Consumes expr) : Forward (returned expr) :=
  (forward_isAt _).bind fun _ => .ite (.pure _) (he.toForward.bind fun _ => .pure _)

theorem forward_ensureAssignable (site : List Token) (target : Expr) :
    Forward (ensureAssignable site target) :=
  .ite (.pure _) (consumes_failAt _ _).toForward

theorem consumes_simpleStatement (he : Consumes expr) : Consumes (simpleStatement expr) := by
  have hcheck := forward_ensureAssignable
  refine forward_get.bind_consumes fun site => he.bind fun e => (forward_take _).bind fun _ => .ite ?_
    ((forward_take _).bind fun _ => .ite ?_ ((forward_take _).bind fun _ => .ite ?_ (.pure _)))
  · exact (hcheck _ _).bind fun _ => he.toForward.bind fun _ => .pure _
  · exact (hcheck _ _).bind fun _ => .pure _
  · exact (hcheck _ _).bind fun _ => .pure _

theorem consumes_statement (he : Consumes expr) (hb : Consumes inner.block) :
    Consumes (statement expr inner.block) := by
  have hstop := consumes_symbol .semicolon
  have hcheck := forward_ensureAssignable
  refine forward_get.bind_consumes fun site => forward_kind?.bind_consumes fun kind => ?_
  split
  · exact consumes_fail _
  · exact forward_skip.bind_consumes fun _ => he.bind fun _ => hb.toForward.bind fun _ => .pure _
  · exact hb.bind fun _ => .pure _
  · exact forward_skip.bind_consumes fun _ => (forward_returned he).bind_consumes fun _ =>
      hstop.bind fun _ => .pure _
  · exact forward_skip.bind_consumes fun _ => he.bind fun _ => (hcheck _ _).bind fun _ =>
      hstop.toForward.bind fun _ => .pure _
  · exact forward_skip.bind_consumes fun _ => he.bind fun _ => (hcheck _ _).bind fun _ =>
      hstop.toForward.bind fun _ => .pure _
  · exact (consumes_simpleStatement he).bind fun _ => hstop.toForward.bind fun _ => .pure _

theorem consumes_branches (he : Consumes expr) (hi : BodyForward inner) :
    Consumes (branches expr inner) := by
  refine (consumes_expect _).bind fun _ => he.toForward.bind fun _ => hi.block.toForward.bind fun _ =>
    (forward_take _).bind fun _ => .ite ((forward_isAt _).bind fun _ => .ite ?_ ?_) (.pure _)
  · exact hi.elseIf.toForward.bind fun _ => .pure _
  · exact hi.block.toForward.bind fun _ => .pure _

theorem forward_item (he : Consumes expr) (hi : BodyForward inner) (close : Option TokenKind) :
    Forward (item expr inner close) := by
  refine forward_kind?.bind fun kind => ?_
  cases kind with
  | none => exact .pure _
  | some kind =>
    refine .ite (.pure _) (.ite ?_ ?_)
    · exact (consumes_branches he hi).toForward.bind fun _ => .pure _
    · exact (consumes_statement he hi.block).toForward.bind fun _ => .pure _

theorem itemAdvances_item (he : Consumes expr) (hi : BodyForward inner)
    (close : Option TokenKind) : ItemAdvances (item expr inner close) := by
  intro ts a us hs
  obtain ⟨kind, vs, hk, h⟩ := bind_eq_ok_iff.1 hs
  obtain ⟨-, rfl⟩ := kind?_eq_ok_iff.1 hk
  cases kind with
  | none => cases h
  | some kind =>
    dsimp only at h
    split at h
    · cases h
    split at h
    · exact itemAdvances_of_consumes (consumes_branches he hi) _ _ _ h
    · exact itemAdvances_of_consumes (consumes_statement he hi.block) _ _ _ h

theorem forward_statementsUntil (he : Consumes expr) (hi : BodyForward inner)
    (close : Option TokenKind) : Forward (statementsUntil expr inner close) :=
  (forward_many (forward_item he hi close)).bind fun _ => .pure _

theorem consumes_braced (he : Consumes expr) (hi : BodyForward inner) :
    Consumes (braced expr inner) :=
  (consumes_symbol _).bind fun _ => (forward_statementsUntil he hi _).bind fun _ =>
    (consumes_symbol _).toForward.bind fun _ => .pure _

end Body

/-- Every parser of blocks takes a token, however many levels are left. -/
theorem bodyForward_level (n : Nat) : BodyForward (bodyLevel n) := by
  induction n with
  | zero => exact ⟨consumes_fail _, consumes_fail _⟩
  | succ n ih =>
    exact ⟨consumes_braced (consumes_expr n) ih, consumes_branches (consumes_expr n) ih⟩

def segment : Parser (Option String) := do
  if ← take (.symbol .period) then return some (← name)
  return none

theorem path_eq : path = (do
    let first ← name
    let more ← many segment
    return first :: more) := rfl

theorem itemAdvances_segment : ItemAdvances segment :=
  itemAdvances_take (consumes_name.toForward.bind fun _ => .pure _)

theorem forward_segment : Forward segment :=
  (forward_take _).bind fun _ => .ite (consumes_name.toForward.bind fun _ => .pure _) (.pure _)

theorem consumes_path : Consumes path :=
  consumes_name.bind fun _ => (forward_many forward_segment).bind fun _ => .pure _

def attributeTail (levels : Nat) : Parser (Option Attribute) := do
  let name ← name
  symbol .openParen
  let args ← commaList (.symbol .closeParen) (expr levels)
  symbol .closeParen
  return some ⟨name, args⟩

def attribute? (levels : Nat) : Parser (Option Attribute) := do
  if ← take (.symbol .atSign) then attributeTail levels else return none

theorem attributes_eq (levels : Nat) : attributes levels = many (attribute? levels) := rfl

theorem forward_attributeTail (n : Nat) : Forward (attributeTail n) :=
  consumes_name.toForward.bind fun _ => (consumes_symbol _).toForward.bind fun _ =>
    (forward_commaList _ (consumes_expr n).toForward).bind fun _ =>
      (consumes_symbol _).toForward.bind fun _ => .pure _

theorem itemAdvances_attribute? (n : Nat) : ItemAdvances (attribute? n) :=
  itemAdvances_take (forward_attributeTail n)

theorem forward_attribute? (n : Nat) : Forward (attribute? n) :=
  (forward_take _).bind fun _ => .ite (forward_attributeTail n) (.pure _)

theorem forward_attributes (n : Nat) : Forward (attributes n) := by
  rw [attributes_eq]
  exact forward_many (forward_attribute? n)

theorem consumes_parameter : Consumes parameter := by
  refine forward_get.bind_consumes fun _ => consumes_name.bind fun _ =>
    consumes_typeRef.toForward.bind fun _ => ?_
  split
  · exact .pure _
  · exact (consumes_failAt _ _).toForward

theorem consumes_parameters : Consumes parameters :=
  (consumes_symbol _).bind fun _ => (forward_commaList _ consumes_parameter.toForward).bind fun _ =>
    (consumes_symbol _).toForward.bind fun _ => .pure _

theorem consumes_method (n : Nat) (attributes : List Attribute) (name : String) (privacy : Privacy)
    (isStatic : Bool) : Consumes (method n attributes name privacy isStatic) :=
  consumes_parameters.bind fun _ => consumes_typeRef.toForward.bind fun _ =>
    (bodyForward_level n).block.toForward.bind fun _ => .pure _

theorem consumes_foreignFunction (attributes : List Attribute) :
    Consumes (foreignFunction attributes) :=
  consumes_name.bind fun _ => consumes_parameters.toForward.bind fun _ =>
    consumes_typeRef.toForward.bind fun _ => (consumes_symbol _).toForward.bind fun _ => .pure _

theorem privacy_cases {ts us : List Token} {p : Privacy} (h : privacy ts = .ok p us) :
    ∃ t, ts = t :: us ∧ (t.kind = .keyword .publicKw ∧ p = .visible ∨
      t.kind = .keyword .privateKw ∧ p = .hidden) := by
  obtain ⟨b, vs, ht, h1⟩ := bind_eq_ok_iff.1 h
  rcases take_eq_ok_iff.1 ht with ⟨rfl, t, hk, rfl⟩ | ⟨rfl, rfl, -⟩
  · cases h1
    exact ⟨t, rfl, .inl ⟨hk, rfl⟩⟩
  · obtain ⟨b, vs, ht, h2⟩ := bind_eq_ok_iff.1 h1
    rcases take_eq_ok_iff.1 ht with ⟨rfl, t, hk, rfl⟩ | ⟨rfl, rfl, -⟩
    · cases h2
      exact ⟨t, rfl, .inr ⟨hk, rfl⟩⟩
    · cases h2

theorem consumes_privacy : Consumes privacy where
  toForward := (forward_take _).bind fun _ => .ite (.pure _) ((forward_take _).bind fun _ =>
    .ite (.pure _) (consumes_fail _).toForward)
  shrinks h := by
    obtain ⟨t, rfl, -⟩ := privacy_cases h
    exact Nat.lt_succ_self _

theorem forward_member (n : Nat) : Forward (member n) := by
  refine (forward_isAt _).bind fun _ => .ite (.pure _) ((forward_attributes n).bind fun _ =>
    consumes_privacy.toForward.bind fun _ => (forward_take _).bind fun _ =>
      consumes_name.toForward.bind fun _ => (forward_isAt _).bind fun _ => .ite ?_ ?_)
  · exact (consumes_method _ _ _ _ _).toForward.bind fun _ => .pure _
  · exact consumes_typeRef.toForward.bind fun _ => (consumes_symbol _).toForward.bind fun _ =>
      .pure _

theorem itemAdvances_member (n : Nat) : ItemAdvances (member n) := by
  intro ts a us hs
  obtain ⟨b, vs, hb, h⟩ := bind_eq_ok_iff.1 hs
  obtain ⟨rfl, -⟩ := isAt_eq_ok_iff.1 hb
  cases b with
  | true => cases h
  | false =>
    refine Consumes.shrinks ((forward_attributes n).bind_consumes fun _ => consumes_privacy.bind
      fun _ => (forward_take _).bind fun _ => consumes_name.toForward.bind fun _ =>
        (forward_isAt _).bind fun _ => .ite ?_ ?_) h
    · exact (consumes_method _ _ _ _ _).toForward.bind fun _ => .pure _
    · exact consumes_typeRef.toForward.bind fun _ => (consumes_symbol _).toForward.bind fun _ =>
        .pure _

theorem consumes_classDefinition (n : Nat) (attributes : List Attribute) :
    Consumes (classDefinition n attributes) :=
  consumes_privacy.bind fun _ => (consumes_expect _).toForward.bind fun _ =>
    consumes_name.toForward.bind fun _ => (consumes_symbol _).toForward.bind fun _ =>
      (forward_many (forward_member n)).bind fun _ => (consumes_symbol _).toForward.bind fun _ =>
        .pure _

/-- The part of a script behind its attributes, by the kind of the token there. -/
theorem itemAdvances_part (n : Nat) : ItemAdvances (part n) := by
  intro ts a us hs
  obtain ⟨as, vs, ha, h⟩ := bind_eq_ok_iff.1 hs
  obtain ⟨kind, ws, hk, h⟩ := bind_eq_ok_iff.1 h
  obtain ⟨-, rfl⟩ := kind?_eq_ok_iff.1 hk
  have hle := ((forward_attributes n).ok ha).length_le
  have hclass := consumes_classDefinition n as
  have hmethod := consumes_method n as
  have hlt : us.length < vs.length := by
    split at h
    · split at h <;> cases h
    · split at h
      · exact (forward_skip.bind_consumes fun _ => consumes_path.bind fun _ =>
          (consumes_symbol _).toForward.bind fun _ => .pure _).shrinks h
      · cases h
    · exact (forward_skip.bind_consumes fun _ => consumes_name.bind fun _ =>
        (hmethod _ _ _).toForward.bind fun _ => .pure _).shrinks h
    · exact (forward_skip.bind_consumes fun _ => (consumes_foreignFunction as).bind fun _ =>
        .pure _).shrinks h
    · exact (hclass.bind fun _ => .pure _).shrinks h
    · exact (hclass.bind fun _ => .pure _).shrinks h
    · cases h
  omega

end FrontEnd.Parse
