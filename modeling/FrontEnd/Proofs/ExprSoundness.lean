import FrontEnd.Parse.Session
import FrontEnd.Proofs.ExprSteps
import FrontEnd.Proofs.Precedence

/-! Every expression that is read has a derivation: the tokens that were passed, in order, are those
of a derivation, and the expression is the one it stands for. The induction is on the levels. In the
loop over operators the invariant is the layer of the left operand: no operator that binds tighter
than that layer comes next, so the operator that does come can take it as its left operand. -/

namespace FrontEnd.Parse

open FrontEnd.Parser FrontEnd.Grammar FrontEnd.Program

/-- The tokens in front of `us` are a phrase with that value, nested less than `n` deep. -/
def Derived (p : Phrase) (n : Nat) (ts us : List Token) (v : p.Value) : Prop :=
  ∃ d : Derivation p, ts = d.tokens ++ us ∧ d.value = v ∧ d.Separated us ∧ d.nesting < n

/-- An expression of a layer is one of every looser layer. -/
theorem Derived.loosen {l t : Layer} {n : Nat} {ts us : List Token} {e : Expr}
    (hd : Derived (.expr t) n ts us e) (h : l.power ≤ t.power) : Derived (.expr l) n ts us e := by
  obtain ⟨d, rfl, rfl, hs, hn⟩ := hd
  obtain ⟨d', h1, h2, h3, h4⟩ := d.exists_loosened h
  exact ⟨d', by rw [h1], h2, (h4 us).2 hs, by omega⟩

/-- Between the powers of a layer and of its operands there is no other layer. -/
theorem power_next_le {l t : Layer} {s : Symbol} {op : Operator} (h : l.operator? s = some op)
    (hle : l.power + 1 ≤ t.power) : l.next.power ≤ t.power := by
  have hn := (Layer.binding?_of_operator? h).2
  cases l <;> cases t <;> simp_all [Layer.power, Layer.next]

/-- Nothing binds tighter than the layer of the operands. -/
theorem stops_primary (ts : List Token) : Stops (Layer.power .primary + 1) ts := by
  intro t ht b hb
  rcases Layer.operator?_of_binding? hb with ⟨l, s, -, -, hl, -⟩ | ⟨-, rfl⟩
  · rw [hl]
    cases l <;> decide
  · decide

theorem eq_primary {l : Layer} (h : 12 ≤ l.power) : l = .primary := by
  cases l <;> simp [Layer.power] at h
  rfl

theorem exists_stars {ts us : List Token} {xs : List Unit} (h : many star ts = .ok xs us) :
    ∃ stars : List (Mark .star), ts = stars.map Subtype.val ++ us ∧ stars.length = xs.length ∧
      NotAt (.symbol .star) us := by
  refine many_induction itemAdvances_star
    (P := fun ts xs us => ∃ stars : List (Mark .star), ts = stars.map Subtype.val ++ us ∧
      stars.length = xs.length ∧ NotAt (.symbol .star) us) ?_ ?_ h
  · intro ts us hs
    obtain ⟨b, vs, ht, hp⟩ := bind_eq_ok_iff.1 hs
    rcases take_eq_ok_iff.1 ht with ⟨rfl, t, hk, rfl⟩ | ⟨rfl, rfl, hk⟩
    · cases hp
    · cases hp
      exact ⟨[], rfl, rfl, hk⟩
  · rintro ts vs us ⟨⟩ as hs ⟨stars, rfl, hl, hk⟩
    obtain ⟨b, ws, ht, hp⟩ := bind_eq_ok_iff.1 hs
    rcases take_eq_ok_iff.1 ht with ⟨rfl, t, hkt, rfl⟩ | ⟨rfl, rfl, -⟩
    · cases hp
      exact ⟨⟨t, hkt⟩ :: stars, rfl, by simp [hl], hk⟩
    · cases hp

/-- A type that is read is written so. -/
theorem exists_typeForm {ts us : List Token} {type : TypeRef} (h : typeRef ts = .ok type us) :
    ∃ f : TypeForm, ts = f.tokens ++ us ∧ f.value = type ∧ NotAt (.symbol .star) us := by
  obtain ⟨_, vs, hh, h1⟩ := bind_eq_ok_iff.1 h
  obtain ⟨hash, hhash, rfl⟩ := symbol_eq_ok_iff.1 hh
  obtain ⟨text, ws, hn, h2⟩ := bind_eq_ok_iff.1 h1
  obtain ⟨name, hname, rfl, rfl⟩ := name_eq_ok_iff.1 hn
  obtain ⟨xs, zs, hs, h3⟩ := bind_eq_ok_iff.1 h2
  obtain ⟨rfl, rfl⟩ := pure_eq_ok_iff.1 h3
  obtain ⟨stars, rfl, hl, hk⟩ := exists_stars hs
  exact ⟨⟨⟨hash, hhash⟩, ⟨name, hname⟩, stars⟩, rfl, by rw [TypeForm.value, hl], hk⟩

/-- What the parsers further in find has a derivation that fits into `n` levels. -/
structure InnerSound (inner : Inner) (n : Nat) : Prop where
  expr : ∀ {floor ts e us}, floor ≤ unaryPower → inner.expr floor ts = .ok e us →
    Stops floor us ∧ ∃ l : Layer, floor ≤ l.power ∧ Derived (.expr l) n ts us e
  child : ∀ {ts c us}, inner.child ts = .ok c us → Derived .links (n + 1) ts us c

section Inner

variable {inner : Inner} {n : Nat}

theorem InnerSound.whole (hi : InnerSound inner n) {ts us : List Token} {e : Expr}
    (h : inner.expr 0 ts = .ok e us) : Derived (.expr .or) n ts us e := by
  obtain ⟨-, l, -, hd⟩ := hi.expr (Nat.zero_le _) h
  exact hd.loosen (by cases l <;> decide)

theorem InnerSound.unary (hi : InnerSound inner n) {ts us : List Token} {e : Expr}
    (h : inner.expr unaryPower ts = .ok e us) :
    Stops unaryPower us ∧ Derived (.expr .unary) n ts us e := by
  obtain ⟨hs, l, hl, hd⟩ := hi.expr (Nat.le_refl _) h
  exact ⟨hs, hd.loosen hl⟩

/-- What follows the first argument of a list is written so. -/
theorem derived_moreArgs (hi : InnerSound inner n) (hf : InnerForward inner) {ts us : List Token}
    {es : List Expr} (h : many (nextItem (.symbol .closeParen) (inner.expr 0)) ts = .ok es us) :
    Derived .moreArgs (n + 1) ts us es := by
  refine many_induction (itemAdvances_nextItem _ (hf.expr 0).toForward)
    (P := fun ts es us => Derived .moreArgs (n + 1) ts us es) ?_ ?_ h
  · intro ts us hn
    rcases nextItem_cases hn with ⟨-, rfl⟩ | ⟨-, t, hk, rfl⟩ | ⟨t, vs, e, -, -, -, he⟩
    · exact ⟨.noMoreArgs, rfl, rfl, trivial, Nat.succ_pos _⟩
    · exact ⟨.lastComma ⟨t, hk⟩, rfl, rfl, trivial, Nat.succ_pos _⟩
    · cases he
  · rintro ts vs us e es hn ⟨more, rfl, rfl, hsm, hnm⟩
    rcases nextItem_cases hn with ⟨he, -⟩ | ⟨he, -⟩ | ⟨t, ws, e', hk, rfl, harg, he⟩
    · cases he
    · cases he
    · cases he
      obtain ⟨arg, rfl, rfl, hsa, hna⟩ := hi.whole harg
      refine ⟨.nextArg ⟨t, hk⟩ arg more, by simp, rfl, ⟨hsa, hsm⟩, ?_⟩
      rw [Derivation.nesting]
      omega

theorem derived_args (hi : InnerSound inner n) (hf : InnerForward inner) {ts us : List Token}
    {es : List Expr} (h : commaList (.symbol .closeParen) (inner.expr 0) ts = .ok es us) :
    Derived .args (n + 1) ts us es := by
  rcases commaList_cases h with ⟨rfl, rfl⟩ | ⟨e, vs, es, he, hm, rfl⟩
  · exact ⟨.noArgs, rfl, rfl, trivial, Nat.succ_pos _⟩
  · obtain ⟨first, rfl, rfl, hsf, hnf⟩ := hi.whole he
    obtain ⟨more, rfl, rfl, hsm, hnm⟩ := derived_moreArgs hi hf hm
    refine ⟨.someArgs first more, by simp, rfl, ⟨hsf, hsm⟩, ?_⟩
    rw [Derivation.nesting]
    omega

/-- A link that is read is a link and the chain behind it. -/
theorem derived_link (hi : InnerSound inner n) (hf : InnerForward inner) (name : TokenOf .name)
    {ts us : List Token} {e : Expr} (h : link inner name.1.text ts = .ok e us) :
    ∃ (link : Derivation .link) (links : Derivation .links),
      name.1 :: ts = link.tokens ++ (links.tokens ++ us) ∧ link.value links.value = e ∧
      link.Separated (links.tokens ++ us) ∧ links.Separated us ∧
      link.nesting < n + 1 ∧ links.nesting < n + 1 := by
  obtain ⟨t, vs, es, u, ws, c, ht, rfl, ha, hu, hc, rfl⟩ |
    ⟨t, vs, i, u, ws, c, ht, rfl, hx, hu, hc, rfl⟩ | ⟨c, hc, rfl⟩ := link_cases h
  · obtain ⟨args, rfl, rfl, hsa, hna⟩ := derived_args hi hf ha
    obtain ⟨links, rfl, rfl, hsl, hnl⟩ := hi.child hc
    exact ⟨.call name ⟨t, ht⟩ args ⟨u, hu⟩, links, by simp, rfl, hsa, hsl, hna, hnl⟩
  · obtain ⟨d, rfl, rfl, hsd, hnd⟩ := hi.whole hx
    obtain ⟨links, rfl, rfl, hsl, hnl⟩ := hi.child hc
    refine ⟨.index name ⟨t, ht⟩ d ⟨u, hu⟩, links, by simp, rfl, hsd, hsl, ?_, hnl⟩
    rw [Derivation.nesting]
    omega
  · obtain ⟨links, rfl, rfl, hsl, hnl⟩ := hi.child hc
    exact ⟨.var name, links, rfl, rfl, trivial, hsl, Nat.succ_pos _, hnl⟩

theorem derived_links (hi : InnerSound inner n) (hf : InnerForward inner) {ts us : List Token}
    {c : Option Expr} (h : childBy (link inner) ts = .ok c us) :
    Derived .links (n + 2) ts us c := by
  rcases childBy_cases h with ⟨rfl, rfl⟩ | ⟨t, u, vs, e, ht, hu, rfl, hl, rfl⟩
  · exact ⟨.noLinks, rfl, rfl, trivial, Nat.succ_pos _⟩
  · obtain ⟨link, links, heq, rfl, hs, hsl, hn, hnl⟩ := derived_link hi hf ⟨u, hu⟩ hl
    refine ⟨.dot ⟨t, ht⟩ link links, ?_, rfl, ⟨hs, hsl⟩, ?_⟩
    · simpa using heq
    · rw [Derivation.nesting]
      omega

/-- An operand that `us` is left behind: a primary, or a sign and what it stands in front of. -/
def DerivedOperand (n : Nat) (ts us : List Token) (e : Expr) : Prop :=
  Derived (.expr .primary) n ts us e ∨ (Derived (.expr .unary) n ts us e ∧ Stops unaryPower us)

theorem derived_literal {t : Token} {us : List Token} {value : Literal}
    (h : literal? t = some value) : DerivedOperand (n + 1) (t :: us) us (.constant value) :=
  .inl ⟨.literal h, rfl, rfl, trivial, Nat.succ_pos _⟩

theorem derived_number {t : Token} {site ts us : List Token} {value? : Option Literal} {e : Expr}
    (ht : literal? t = value?) (h : Parse.literal site t.text value? ts = .ok e us) :
    DerivedOperand (n + 1) (t :: ts) us e := by
  cases value? with
  | none => cases h
  | some value =>
    cases h
    exact derived_literal ht

theorem derived_chain (root : Derivation .root) (hi : InnerSound inner n) {ts us : List Token}
    {c : Option Expr} (hs : root.Separated ts) (hn : root.nesting < n + 1)
    (h : inner.child ts = .ok c us) :
    DerivedOperand (n + 1) (root.tokens ++ ts) us (root.value c) := by
  obtain ⟨links, rfl, rfl, hsl, hnl⟩ := hi.child h
  refine .inl ⟨.chain root links, by simp, rfl, ⟨hs, hsl⟩, ?_⟩
  rw [Derivation.nesting]
  omega

theorem derived_group (hi : InnerSound inner n) {t : Token} {ts us : List Token} {e : Expr}
    (ht : t.kind = .symbol .openParen)
    (h : (inner.expr 0 >>= fun e => symbol .closeParen >>= fun _ => pure e) ts = .ok e us) :
    DerivedOperand (n + 1) (t :: ts) us e := by
  obtain ⟨e', vs, he, h1⟩ := bind_eq_ok_iff.1 h
  obtain ⟨_, ws, hc, hp⟩ := bind_eq_ok_iff.1 h1
  obtain ⟨u, hu, rfl⟩ := symbol_eq_ok_iff.1 hc
  obtain ⟨rfl, rfl⟩ := pure_eq_ok_iff.1 hp
  obtain ⟨d, rfl, rfl, hs, hn⟩ := hi.whole he
  refine .inl ⟨.group ⟨t, ht⟩ d ⟨u, hu⟩, by simp, rfl, hs, ?_⟩
  rw [Derivation.nesting]
  omega

theorem derived_declaration {t : Token} {ts us : List Token} {e : Expr}
    (ht : t.kind = .keyword .localKw)
    (h : (Parser.name >>= fun text => typeRef >>= fun type => pure (.declaration text type)) ts =
      .ok e us) : DerivedOperand (n + 1) (t :: ts) us e := by
  obtain ⟨text, vs, hn, h1⟩ := bind_eq_ok_iff.1 h
  obtain ⟨u, hu, rfl, rfl⟩ := name_eq_ok_iff.1 hn
  obtain ⟨type, ws, hty, hp⟩ := bind_eq_ok_iff.1 h1
  obtain ⟨rfl, rfl⟩ := pure_eq_ok_iff.1 hp
  obtain ⟨f, rfl, rfl, hstar⟩ := exists_typeForm hty
  exact .inl ⟨.declaration ⟨t, ht⟩ ⟨u, hu⟩ f, rfl, rfl, hstar, Nat.succ_pos _⟩

/-- An operand that is read has a derivation, by the kind of its first token. -/
theorem derived_operand (hi : InnerSound inner n) (hf : InnerForward inner) {ts us : List Token}
    {e : Expr} (h : operand inner ts = .ok e us) : DerivedOperand (n + 1) ts us e := by
  cases ts with
  | nil => cases h
  | cons t ts =>
    change operandAt inner (t :: ts) t ts = .ok e us at h
    generalize hp : operandAt inner (t :: ts) t = p at h
    unfold operandAt at hp
    split at hp <;> subst hp
    · next hk => exact derived_number (by simp only [literal?, hk]) h
    · next hk => exact derived_number (by simp only [literal?, hk]) h
    · next hk =>
      cases h
      exact derived_literal (by simp only [literal?, hk])
    · next hk =>
      cases h
      exact derived_literal (by simp only [literal?, hk])
    · next hk =>
      cases h
      exact derived_literal (by simp only [literal?, hk])
    · next hk =>
      cases h
      exact derived_literal (by simp only [literal?, hk])
    · next hk => exact derived_group hi hk h
    · next hk =>
      obtain ⟨e', vs, he, hp⟩ := bind_eq_ok_iff.1 h
      obtain ⟨rfl, rfl⟩ := pure_eq_ok_iff.1 hp
      obtain ⟨hstop, d, rfl, rfl, hs, hn⟩ := hi.unary he
      refine .inr ⟨⟨.negate ⟨t, hk⟩ d, rfl, rfl, hs, ?_⟩, hstop⟩
      rw [Derivation.nesting]
      omega
    · next hk =>
      obtain ⟨e', vs, he, hp⟩ := bind_eq_ok_iff.1 h
      obtain ⟨rfl, rfl⟩ := pure_eq_ok_iff.1 hp
      obtain ⟨hstop, d, rfl, rfl, hs, hn⟩ := hi.unary he
      refine .inr ⟨⟨.inverse ⟨t, hk⟩ d, rfl, rfl, hs, ?_⟩, hstop⟩
      rw [Derivation.nesting]
      omega
    · next hk => exact derived_declaration hk h
    · next hk =>
      obtain ⟨c, vs, hc, hp⟩ := bind_eq_ok_iff.1 h
      obtain ⟨rfl, rfl⟩ := pure_eq_ok_iff.1 hp
      exact derived_chain (.selfRoot ⟨t, hk⟩) hi trivial (Nat.succ_pos _) hc
    · next hk =>
      obtain ⟨text, vs, hn, h1⟩ := bind_eq_ok_iff.1 h
      obtain ⟨u, hu, rfl, rfl⟩ := name_eq_ok_iff.1 hn
      obtain ⟨c, ws, hc, hp⟩ := bind_eq_ok_iff.1 h1
      obtain ⟨rfl, rfl⟩ := pure_eq_ok_iff.1 hp
      exact derived_chain (.typeRoot ⟨t, hk⟩ ⟨u, hu⟩) hi trivial (Nat.succ_pos _) hc
    · next hk =>
      obtain ⟨link, links, heq, rfl, hs, hsl, hn, hnl⟩ := derived_link hi hf ⟨t, hk⟩ h
      refine .inl ⟨.chain (.linkRoot link) links, ?_, rfl, ⟨hs, hsl⟩, ?_⟩
      · simpa using heq
      · rw [Derivation.nesting, Derivation.nesting]
        omega
    · cases h

/-- What the loop over operators keeps: its left operand is an expression of some layer, and no
operator that binds tighter than that layer comes next. -/
def LeftOperand (n floor : Nat) (ts : List Token) (lhs : Expr) (us : List Token) : Prop :=
  ∃ l : Layer, floor ≤ l.power ∧ Derived (.expr l) n ts us lhs ∧ Stops (l.power + 1) us

theorem leftOperand_of_operand {floor : Nat} (hfloor : floor ≤ unaryPower) {ts us : List Token}
    {e : Expr} (h : DerivedOperand n ts us e) : LeftOperand n floor ts e us := by
  rcases h with hd | ⟨hd, hs⟩
  · exact ⟨.primary, Nat.le_succ_of_le hfloor, hd, stops_primary us⟩
  · exact ⟨.unary, hfloor, hd, hs.mono (Nat.le_succ _)⟩

/-- An operator takes the left operand, loosened to its own layer, and the operand on its right. -/
theorem leftOperand_extend (hi : InnerSound inner n) {floor : Nat} (hfloor : floor ≤ unaryPower)
    {ts us vs : List Token} {lhs e : Expr} (hl : LeftOperand (n + 1) floor ts lhs us)
    (h : extend inner floor lhs us = .ok (some e) vs) : LeftOperand (n + 1) floor ts e vs := by
  obtain ⟨l, -, hleft, hstop⟩ := hl
  rcases extend_cases h with ⟨hr, -, -⟩ | ⟨t, ws, b, rhs, rfl, hb, hle, hr, he⟩
  · cases hr
  · cases he
    have hbl : b.left ≤ l.power := Nat.le_of_lt_succ (stops_cons.1 hstop b hb)
    rcases Layer.operator?_of_binding? hb with ⟨m, s, hk, hop, hml, hmr⟩ | ⟨hk, rfl⟩
    · have hm : m.power + 1 ≤ unaryPower := by
        have := (Layer.binding?_of_operator? hop).2
        cases m <;> simp_all [Layer.power, Layer.next, unaryPower]
      rw [hmr] at hr
      obtain ⟨hs, r, hmr, hright⟩ := hi.expr hm hr
      obtain ⟨left, rfl, rfl, hsl, hnl⟩ := hleft.loosen (hml ▸ hbl)
      obtain ⟨right, rfl, rfl, hsr, hnr⟩ := hright.loosen (power_next_le hop hmr)
      refine ⟨m, hml ▸ hle, ⟨.binary left ⟨t, hk⟩ hop right, ?_, rfl, ⟨hsl, hsr⟩, ?_⟩, hs⟩
      · simp
      · rw [Derivation.nesting]
        omega
    · obtain rfl := eq_primary hbl
      obtain ⟨base, rfl, rfl, hsb, hnb⟩ := hleft
      obtain ⟨hs, exponent, rfl, rfl, hse, hne⟩ := hi.unary hr
      refine ⟨.unary, hfloor, ⟨.power base ⟨t, hk⟩ exponent, ?_, rfl, ⟨hsb, hse⟩, ?_⟩,
        hs.mono (Nat.le_succ _)⟩
      · simp
      · rw [Derivation.nesting]
        omega

theorem derived_operands (hi : InnerSound inner n) (hf : InnerForward inner) {floor : Nat}
    (hfloor : floor ≤ unaryPower) {ts us : List Token} {e : Expr}
    (h : operands inner floor ts = .ok e us) :
    Stops floor us ∧ ∃ l : Layer, floor ≤ l.power ∧ Derived (.expr l) (n + 1) ts us e := by
  obtain ⟨e', vs, ho, hl⟩ := bind_eq_ok_iff.1 h
  obtain ⟨ws, ⟨l, hle, hd, -⟩, hnone⟩ := loop_invariant (advances_extend hf)
    (P := LeftOperand (n + 1) floor ts)
    (fun lhs us e vs hP hs => leftOperand_extend hi hfloor hP hs)
    (leftOperand_of_operand hfloor (derived_operand hi hf ho)) hl
  rcases extend_cases hnone with ⟨-, rfl, hstop⟩ | ⟨t, zs, b, rhs, -, -, -, -, hr⟩
  · exact ⟨hstop, l, hle, hd⟩
  · cases hr

end Inner

theorem innerSound_level (n : Nat) : InnerSound (level n) n := by
  induction n with
  | zero =>
    refine ⟨fun _ h => ?_, fun h => ?_⟩
    · cases h
    · rcases childBy_cases h with ⟨rfl, rfl⟩ | ⟨t, u, vs, e, -, -, -, hl, -⟩
      · exact ⟨.noLinks, rfl, rfl, trivial, Nat.succ_pos _⟩
      · cases hl
  | succ n ih =>
    have hf := innerForward_level n
    exact ⟨fun hfloor h => derived_operands ih hf hfloor h, fun h => derived_links ih hf h⟩

/-- If an expression is read from a place in any tokens on, then the tokens between that place and
the one where the reading ends are those of a derivation, and the expression is the one that it
stands for. -/
theorem exists_derivation_of_run {source : String} {tokens : List Token} {i : Nat} {e : Expr}
    {after : Session}
    (h : Session.run (expr maxLevels) ⟨source, i, tokens.drop i⟩ = (.ok e, after)) :
    ∃ d : Derivation (.expr .or), d.tokens = tokens.extract i after.passed ∧ d.value = e ∧
      d.Separated after.rest ∧ 1 + d.nesting ≤ maxLevels ∧
      after.rest = tokens.drop after.passed := by
  rw [Session.run] at h
  rcases hr : expr maxLevels (tokens.drop i) with ⟨e', rest⟩ | ⟨fault, rest⟩
  · rw [hr] at h
    cases h
    obtain ⟨d, hts, rfl, hs, hn⟩ := (innerSound_level maxLevels).whole hr
    refine ⟨d, ?_, rfl, hs, by omega, ?_⟩
    · simp only [Session.goTo, List.extract_eq_take_drop, Nat.add_sub_cancel_left, hts]
      simp
    · simp only [Session.goTo, ← List.drop_drop, hts]
      simp
  · rw [hr] at h
    dsimp only at h
    cases hp : ParseError.ofFault source fault <;> rw [hp] at h <;> cases h

/-- The tokens `; a + b * c )`. -/
def sumInside : List Token :=
  [⟨.symbol .semicolon, ";", 0⟩, ⟨.name, "a", 2⟩, ⟨.symbol .plus, "+", 4⟩, ⟨.name, "b", 6⟩,
    ⟨.symbol .star, "*", 8⟩, ⟨.name, "c", 10⟩, ⟨.symbol .closeParen, ")", 12⟩]

/-- Behind the semicolon a sum is read up to the parenthesis, and the product is inside it. -/
theorem exists_derivation_sumInside :
    ∃ d : Derivation (.expr .or), d.tokens = sumInside.extract 1 6 ∧
      d.value = .binary .add (.var "a" none) (.binary .mul (.var "b" none) (.var "c" none)) := by
  have h : Session.run (expr maxLevels) ⟨"; a + b * c )", 1, sumInside.drop 1⟩ =
      (.ok (.binary .add (.var "a" none) (.binary .mul (.var "b" none) (.var "c" none))),
        ⟨"; a + b * c )", 6, sumInside.drop 6⟩) := by rfl
  obtain ⟨d, hts, hv, -⟩ := exists_derivation_of_run h
  exact ⟨d, hts, hv⟩

end FrontEnd.Parse
