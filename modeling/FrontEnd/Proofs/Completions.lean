import FrontEnd.Proofs.Lookahead

/-! An expression fails at the first token that cannot go on with it. All that stands in front of an
unexpected token is the front of some expression: what the parser still waits for at that place (an
operand, a name, a closing bracket) completes it. And the token itself decides: whatever stands
behind it, it is unexpected. -/

namespace FrontEnd.Parser

variable {α β σ : Type}

/-- The parser finds the first token of `site` unexpected, or the end if `site` is empty. -/
def Unfit (p : Parser α) (ts site : List Token) : Prop :=
  ∃ k us, p ts = .error ⟨.unexpected k, site⟩ us

theorem unfit_bind_iff {p : Parser α} {f : α → Parser β} {ts site : List Token} :
    Unfit (p >>= f) ts site ↔
      Unfit p ts site ∨ ∃ a us, p ts = .ok a us ∧ Unfit (f a) us site := by
  simp only [Unfit, bind_eq_error_iff, exists_or]
  refine or_congr Iff.rfl ⟨?_, ?_⟩
  · rintro ⟨k, vs, a, us, hp, hf⟩
    exact ⟨a, us, hp, k, vs, hf⟩
  · rintro ⟨a, us, hp, k, vs, hf⟩
    exact ⟨k, vs, a, us, hp, hf⟩

theorem not_unfit_pure {a : α} {ts site : List Token} : ¬ Unfit (pure a : Parser α) ts site :=
  nofun

/-- What is made of a result cannot be unfit. -/
theorem unfit_map_iff {p : Parser α} {f : α → β} {ts site : List Token} :
    Unfit (p >>= fun a => pure (f a)) ts site ↔ Unfit p ts site := by
  rw [unfit_bind_iff]
  refine ⟨?_, .inl⟩
  rintro (h | ⟨a, us, -, h⟩)
  · exact h
  · exact absurd h not_unfit_pure

theorem not_unfit_take {kind : TokenKind} {ts site : List Token} : ¬ Unfit (take kind) ts site := by
  rintro ⟨k, us, h⟩
  exact take_ne_error h

theorem not_unfit_isAt {kind : TokenKind} {ts site : List Token} : ¬ Unfit (isAt kind) ts site := by
  rintro ⟨k, us, h⟩
  cases h

theorem Unfit.expect_site {kind : TokenKind} {ts site : List Token}
    (h : Unfit (expect kind) ts site) : ts = site := by
  obtain ⟨k, us, h⟩ := h
  obtain ⟨-, he, -⟩ := expect_eq_error_iff.1 h
  cases he
  rfl

theorem Unfit.symbol_site {s : Symbol} {ts site : List Token} (h : Unfit (symbol s) ts site) :
    ts = site :=
  (unfit_map_iff.1 h).expect_site

theorem Unfit.name_site {ts site : List Token} (h : Unfit name ts site) : ts = site :=
  (unfit_map_iff.1 h).expect_site

/-- A loop fails in one of its rounds, and up to there its invariant has been kept. -/
theorem Unfit.loop_invariant {step : σ → Parser (Option σ)} (ha : Advances step)
    {P : σ → List Token → Prop}
    (hstep : ∀ s ts s' us, P s ts → step s ts = .ok (some s') us → P s' us)
    {s : σ} {ts site : List Token} (h0 : P s ts) (h : Unfit (loop step s) ts site) :
    ∃ s' us, P s' us ∧ Unfit (step s') us site := by
  obtain ⟨k, vs, h⟩ := h
  induction hn : ts.length using Nat.strongRecOn generalizing s ts with
  | ind n ih =>
    subst hn
    rw [loop_eq ha] at h
    rcases hs : step s ts with ⟨_ | s1, us⟩ | ⟨e, us⟩ <;> rw [hs] at h
    · cases h
    · exact ih _ (ha _ _ _ _ hs) (hstep _ _ _ _ h0 hs) h rfl
    · cases h
      exact ⟨s, ts, h0, k, _, hs⟩

/-- Items are found one after the other, until one of them fails. -/
theorem Unfit.many_induction {item : Parser (Option α)} (ha : ItemAdvances item) {site : List Token}
    {P : List Token → Prop} (hfail : ∀ ts, Unfit item ts site → P ts)
    (hcons : ∀ ts us a, item ts = .ok (some a) us → P us → P ts)
    {ts : List Token} (h : Unfit (many item) ts site) : P ts := by
  induction hn : ts.length using Nat.strongRecOn generalizing ts with
  | ind n ih =>
    subst hn
    obtain ⟨k, vs, h⟩ := h
    rcases hi : item ts with ⟨_ | a, us⟩ | ⟨e, us⟩
    · rw [many_of_none ha hi] at h
      cases h
    · rw [many_of_some ha hi] at h
      exact hcons ts us a hi (ih _ (ha _ _ _ hi) (unfit_map_iff.1 ⟨k, vs, h⟩) rfl)
    · rw [many_of_error ha hi] at h
      cases h
      exact hfail ts ⟨k, _, hi⟩

end FrontEnd.Parser

namespace FrontEnd.Grammar

open FrontEnd.Parse FrontEnd.Parser FrontEnd.Program

/-- The tokens in front of `site` are the front of a phrase: some tokens behind them complete it. -/
def BrokenOff (p : Phrase) (ts site : List Token) : Prop :=
  ∃ front back, ∃ d : Derivation p, ts = front ++ site ∧ d.tokens = front ++ back ∧ d.Separated []

/-- A whole phrase is a front of itself. -/
theorem brokenOff_of_derivation {p : Phrase} (d : Derivation p) {site : List Token}
    (h : d.Separated site) : BrokenOff p (d.tokens ++ site) site :=
  ⟨d.tokens, [], d, rfl, by simp, h.mono fun _ => notAt_nil _⟩

theorem BrokenOff.loosen {l t : Layer} {ts site : List Token} (hb : BrokenOff (.expr t) ts site)
    (h : l.power ≤ t.power) : BrokenOff (.expr l) ts site := by
  obtain ⟨front, back, d, rfl, htokens, hs⟩ := hb
  obtain ⟨d', h1, -, -, h4⟩ := d.exists_loosened h
  exact ⟨front, back, d', rfl, by rw [h1, htokens], (h4 []).2 hs⟩

def someName : TokenOf .name := ⟨⟨.name, "x", 0⟩, rfl⟩

def someMark (s : Symbol) : Mark s := ⟨⟨.symbol s, s.text, 0⟩, rfl⟩

/-- Where an operand is wanted, a name is one. -/
theorem brokenOff_nil (l : Layer) (site : List Token) : BrokenOff (.expr l) site site := by
  have hname : BrokenOff (.expr .primary) site site :=
    ⟨[], [someName.1], .chain (.linkRoot (.var someName)) .noLinks, rfl, rfl, trivial, trivial⟩
  exact hname.loosen (by cases l <;> decide)

section Phrases

variable {t : Token} {ts site : List Token}

theorem BrokenOff.group (ht : t.kind = .symbol .openParen) (h : BrokenOff (.expr .or) ts site) :
    BrokenOff (.expr .primary) (t :: ts) site := by
  obtain ⟨front, back, d, rfl, htokens, hs⟩ := h
  refine ⟨t :: front, back ++ [(someMark .closeParen).1], .group ⟨t, ht⟩ d (someMark .closeParen),
    rfl, by simp [htokens], ?_⟩
  exact hs.mono fun _ => notAt_cons.2 (by decide)

theorem BrokenOff.negate (ht : t.kind = .symbol .minus) (h : BrokenOff (.expr .unary) ts site) :
    BrokenOff (.expr .unary) (t :: ts) site := by
  obtain ⟨front, back, d, rfl, htokens, hs⟩ := h
  exact ⟨t :: front, back, .negate ⟨t, ht⟩ d, rfl, by simp [htokens], hs⟩

theorem BrokenOff.inverse (ht : t.kind = .symbol .bang) (h : BrokenOff (.expr .unary) ts site) :
    BrokenOff (.expr .unary) (t :: ts) site := by
  obtain ⟨front, back, d, rfl, htokens, hs⟩ := h
  exact ⟨t :: front, back, .inverse ⟨t, ht⟩ d, rfl, by simp [htokens], hs⟩

/-- An operator is followed by the front of its right operand. -/
theorem BrokenOff.binary {l : Layer} {s : Symbol} {op : Operator} {left : Derivation (.expr l)}
    (hleft : left.Separated (t :: ts)) (ht : t.kind = .symbol s) (hop : l.operator? s = some op)
    (h : BrokenOff (.expr l.next) ts site) :
    BrokenOff (.expr l) (left.tokens ++ t :: ts) site := by
  obtain ⟨front, back, right, rfl, htokens, hs⟩ := h
  refine ⟨left.tokens ++ t :: front, back, .binary left ⟨t, ht⟩ hop right, by simp,
    by simp [htokens], ?_, hs⟩
  exact hleft.mono fun hn => notAt_cons.2 (notAt_cons.1 hn)

theorem BrokenOff.power {base : Derivation (.expr .primary)} (hbase : base.Separated (t :: ts))
    (ht : t.kind = .symbol .power) (h : BrokenOff (.expr .unary) ts site) :
    BrokenOff (.expr .unary) (base.tokens ++ t :: ts) site := by
  obtain ⟨front, back, exponent, rfl, htokens, hs⟩ := h
  refine ⟨base.tokens ++ t :: front, back, .power base ⟨t, ht⟩ exponent, by simp,
    by simp [htokens], ?_, hs⟩
  exact hbase.mono fun hn => notAt_cons.2 (notAt_cons.1 hn)

/-- Arguments go on with a comma or not at all. -/
theorem notAt_star_of_moreArgs (more : Derivation .moreArgs) :
    NotAt (.symbol .star) (more.tokens ++ []) := by
  cases more with
  | noMoreArgs => exact notAt_nil _
  | lastComma mark => exact notAt_cons.2 (by simp)
  | nextArg mark arg more => exact notAt_cons.2 (by simp)

theorem BrokenOff.firstArg (h : BrokenOff (.expr .or) ts site) : BrokenOff .args ts site := by
  obtain ⟨front, back, d, rfl, htokens, hs⟩ := h
  exact ⟨front, back, .someArgs d .noMoreArgs, rfl, by simp [htokens], hs, trivial⟩

theorem BrokenOff.laterArg {first : Derivation (.expr .or)} (hfirst : first.Separated ts)
    (h : BrokenOff .moreArgs ts site) : BrokenOff .args (first.tokens ++ ts) site := by
  obtain ⟨front, back, more, rfl, htokens, hs⟩ := h
  exact ⟨first.tokens ++ front, back, .someArgs first more, by simp, by simp [htokens],
    hfirst.mono fun _ => notAt_star_of_moreArgs more, hs⟩

theorem BrokenOff.nextArg (ht : t.kind = .symbol .comma) (h : BrokenOff (.expr .or) ts site) :
    BrokenOff .moreArgs (t :: ts) site := by
  obtain ⟨front, back, d, rfl, htokens, hs⟩ := h
  exact ⟨t :: front, back, .nextArg ⟨t, ht⟩ d .noMoreArgs, rfl, by simp [htokens], hs, trivial⟩

theorem BrokenOff.afterArg (ht : t.kind = .symbol .comma) {arg : Derivation (.expr .or)}
    (harg : arg.Separated ts) (h : BrokenOff .moreArgs ts site) :
    BrokenOff .moreArgs (t :: (arg.tokens ++ ts)) site := by
  obtain ⟨front, back, more, rfl, htokens, hs⟩ := h
  exact ⟨t :: (arg.tokens ++ front), back, .nextArg ⟨t, ht⟩ arg more, by simp, by simp [htokens],
    harg.mono fun _ => notAt_star_of_moreArgs more, hs⟩

/-- The tokens in front of `site` are the front of a link and of the chain behind it. -/
def BrokenChain (ts site : List Token) : Prop :=
  ∃ front back, ∃ (link : Derivation .link) (links : Derivation .links), ts = front ++ site ∧
    link.tokens ++ links.tokens = front ++ back ∧ link.Separated links.tokens ∧ links.Separated []

theorem BrokenOff.call {name : Token} (hn : name.kind = .name) (ht : t.kind = .symbol .openParen)
    (h : BrokenOff .args ts site) : BrokenChain (name :: t :: ts) site := by
  obtain ⟨front, back, args, rfl, htokens, hs⟩ := h
  refine ⟨name :: t :: front, back ++ [(someMark .closeParen).1],
    .call ⟨name, hn⟩ ⟨t, ht⟩ args (someMark .closeParen), .noLinks, rfl, by simp [htokens], ?_,
    trivial⟩
  exact hs.mono fun _ => notAt_cons.2 (by decide)

theorem BrokenOff.index {name : Token} (hn : name.kind = .name)
    (ht : t.kind = .symbol .openBracket) (h : BrokenOff (.expr .or) ts site) :
    BrokenChain (name :: t :: ts) site := by
  obtain ⟨front, back, d, rfl, htokens, hs⟩ := h
  refine ⟨name :: t :: front, back ++ [(someMark .closeBracket).1],
    .index ⟨name, hn⟩ ⟨t, ht⟩ d (someMark .closeBracket), .noLinks, rfl, by simp [htokens], ?_,
    trivial⟩
  exact hs.mono fun _ => notAt_cons.2 (by decide)

/-- A chain goes on with a period or not at all. -/
theorem notAt_star_of_links (links : Derivation .links) : NotAt (.symbol .star) links.tokens := by
  simpa using notAt_links links (by decide) (notAt_nil _)

theorem BrokenOff.afterLink (link : Derivation .link) (hlink : link.Separated ts)
    (h : BrokenOff .links ts site) : BrokenChain (link.tokens ++ ts) site := by
  obtain ⟨front, back, links, rfl, htokens, hs⟩ := h
  exact ⟨link.tokens ++ front, back, link, links, by simp, by simp [htokens],
    hlink.mono fun _ => notAt_star_of_links links, hs⟩

theorem BrokenOff.afterRoot (root : Derivation .root) (hroot : root.Separated ts)
    (h : BrokenOff .links ts site) : BrokenOff (.expr .primary) (root.tokens ++ ts) site := by
  obtain ⟨front, back, links, rfl, htokens, hs⟩ := h
  refine ⟨root.tokens ++ front, back, .chain root links, by simp, by simp [htokens], ?_, hs⟩
  exact hroot.mono fun _ => by simpa using notAt_star_of_links links

theorem BrokenChain.primary (h : BrokenChain ts site) : BrokenOff (.expr .primary) ts site := by
  obtain ⟨front, back, link, links, rfl, htokens, hl, hs⟩ := h
  refine ⟨front, back, .chain (.linkRoot link) links, rfl, htokens, ?_, hs⟩
  rw [List.append_nil]
  exact hl

theorem BrokenChain.dot (ht : t.kind = .symbol .period) (h : BrokenChain ts site) :
    BrokenOff .links (t :: ts) site := by
  obtain ⟨front, back, link, links, rfl, htokens, hl, hs⟩ := h
  exact ⟨t :: front, back, .dot ⟨t, ht⟩ link links, rfl, by simp [htokens], by simpa using hl, hs⟩

/-- Behind a period comes a name. -/
theorem brokenOff_period (ht : t.kind = .symbol .period) (site : List Token) :
    BrokenOff .links (t :: site) site :=
  ⟨[t], [someName.1], .dot ⟨t, ht⟩ (.var someName) .noLinks, rfl, rfl, trivial, trivial⟩

theorem brokenOff_hash (ht : t.kind = .symbol .hash) (site : List Token) :
    BrokenOff (.expr .primary) (t :: site) site :=
  ⟨[t], [someName.1], .chain (.typeRoot ⟨t, ht⟩ someName) .noLinks, rfl, rfl, trivial, trivial⟩

end Phrases

end FrontEnd.Grammar

namespace FrontEnd.Parse

open FrontEnd.Parser FrontEnd.Grammar FrontEnd.Program

/-- Where the parsers further in find a token unexpected, a phrase of theirs is broken off. -/
structure InnerBroken (inner : Inner) : Prop where
  expr : ∀ {floor ts site}, floor ≤ unaryPower → Unfit (inner.expr floor) ts site →
    ∃ l : Layer, floor ≤ l.power ∧ BrokenOff (.expr l) ts site
  child : ∀ {ts site}, Unfit inner.child ts site → BrokenOff .links ts site

/-- What has been read is a front of itself. -/
theorem Derived.brokenOff {p : Phrase} {n : Nat} {ts us : List Token} {v : p.Value}
    (h : Derived p n ts us v) : BrokenOff p ts us := by
  obtain ⟨d, rfl, -, hs, -⟩ := h
  exact brokenOff_of_derivation d hs

section Inner

variable {inner : Inner} {n : Nat} {ts site : List Token}

theorem InnerBroken.whole (hb : InnerBroken inner) (h : Unfit (inner.expr 0) ts site) :
    BrokenOff (.expr .or) ts site := by
  obtain ⟨l, -, hl⟩ := hb.expr (Nat.zero_le _) h
  exact hl.loosen (by cases l <;> decide)

theorem InnerBroken.unary (hb : InnerBroken inner) (h : Unfit (inner.expr unaryPower) ts site) :
    BrokenOff (.expr .unary) ts site := by
  obtain ⟨l, hle, hl⟩ := hb.expr (Nat.le_refl _) h
  exact hl.loosen hle

/-- An expression in brackets fails inside, or its closing bracket is missing. -/
theorem brokenOff_bracketed (hi : InnerSound inner n) (hb : InnerBroken inner) {α : Type}
    {s : Symbol} {f : Expr → α}
    (h : Unfit (inner.expr 0 >>= fun e => symbol s >>= fun _ => pure (f e)) ts site) :
    BrokenOff (.expr .or) ts site := by
  rcases unfit_bind_iff.1 h with h | ⟨e, us, he, h⟩
  · exact hb.whole h
  · obtain rfl := (unfit_map_iff.1 h).symbol_site
    exact (hi.whole he).brokenOff

theorem brokenOff_moreArgs (hi : InnerSound inner n) (hf : InnerForward inner)
    (hb : InnerBroken inner)
    (h : Unfit (many (nextItem (.symbol .closeParen) (inner.expr 0))) ts site) :
    BrokenOff .moreArgs ts site := by
  refine Unfit.many_induction (itemAdvances_nextItem _ (hf.expr 0).toForward)
    (P := fun ts => BrokenOff .moreArgs ts site) (fun ts hn => ?_) (fun ts us e hn ih => ?_) h
  · obtain htake | ⟨b, us, htake, h1⟩ := unfit_bind_iff.1 hn
    · exact absurd htake not_unfit_take
    rcases take_eq_ok_iff.1 htake with ⟨rfl, t, ht, rfl⟩ | ⟨rfl, rfl, -⟩
    · obtain hat | ⟨c, vs, hat, h2⟩ := unfit_bind_iff.1 h1
      · exact absurd hat not_unfit_isAt
      obtain ⟨rfl, -⟩ := isAt_eq_ok_iff.1 hat
      cases c with
      | true => exact absurd h2 not_unfit_pure
      | false => exact (hb.whole (unfit_map_iff.1 h2)).nextArg ht
    · exact absurd h1 not_unfit_pure
  · rcases nextItem_cases hn with ⟨he, -⟩ | ⟨he, -⟩ | ⟨t, vs, e', ht, rfl, harg, he⟩
    · cases he
    · cases he
    · obtain ⟨arg, rfl, -, hs, -⟩ := hi.whole harg
      exact ih.afterArg ht hs

theorem brokenOff_args (hi : InnerSound inner n) (hf : InnerForward inner) (hb : InnerBroken inner)
    (h : Unfit (commaList (.symbol .closeParen) (inner.expr 0)) ts site) :
    BrokenOff .args ts site := by
  obtain hat | ⟨b, us, hat, h1⟩ := unfit_bind_iff.1 h
  · exact absurd hat not_unfit_isAt
  obtain ⟨rfl, -⟩ := isAt_eq_ok_iff.1 hat
  cases b with
  | true => exact absurd h1 not_unfit_pure
  | false =>
    obtain he | ⟨e, us, he, h2⟩ := unfit_bind_iff.1 h1
    · exact (hb.whole he).firstArg
    · obtain ⟨first, rfl, -, hs, -⟩ := hi.whole he
      exact (brokenOff_moreArgs hi hf hb (unfit_map_iff.1 h2)).laterArg hs

/-- A link fails among its arguments, in its index, or in the chain behind it. -/
theorem brokenChain_link (hi : InnerSound inner n) (hf : InnerForward inner)
    (hb : InnerBroken inner) (name : TokenOf .name) (h : Unfit (link inner name.1.text) ts site) :
    BrokenChain (name.1 :: ts) site := by
  obtain hparen | ⟨b, us, hparen, h1⟩ := unfit_bind_iff.1 h
  · exact absurd hparen not_unfit_take
  rcases take_eq_ok_iff.1 hparen with ⟨rfl, t, ht, rfl⟩ | ⟨rfl, rfl, -⟩
  · obtain hargs | ⟨es, vs, hargs, h2⟩ := unfit_bind_iff.1 h1
    · exact (brokenOff_args hi hf hb hargs).call name.2 ht
    obtain hclose | ⟨_, ws, hclose, h3⟩ := unfit_bind_iff.1 h2
    · obtain rfl := hclose.symbol_site
      exact (derived_args hi hf hargs).brokenOff.call name.2 ht
    · obtain ⟨u, hu, rfl⟩ := symbol_eq_ok_iff.1 hclose
      obtain ⟨args, rfl, -, hs, -⟩ := derived_args hi hf hargs
      have hchain := (hb.child (unfit_map_iff.1 h3)).afterLink
        (.call name ⟨t, ht⟩ args ⟨u, hu⟩) hs
      simpa using hchain
  obtain hbracket | ⟨b, us, hbracket, h2⟩ := unfit_bind_iff.1 h1
  · exact absurd hbracket not_unfit_take
  rcases take_eq_ok_iff.1 hbracket with ⟨rfl, t, ht, rfl⟩ | ⟨rfl, rfl, -⟩
  · obtain he | ⟨e, vs, he, h3⟩ := unfit_bind_iff.1 h2
    · exact (hb.whole he).index name.2 ht
    obtain hclose | ⟨_, ws, hclose, h4⟩ := unfit_bind_iff.1 h3
    · obtain rfl := hclose.symbol_site
      exact (hi.whole he).brokenOff.index name.2 ht
    · obtain ⟨u, hu, rfl⟩ := symbol_eq_ok_iff.1 hclose
      obtain ⟨d, rfl, -, hs, -⟩ := hi.whole he
      have hchain := (hb.child (unfit_map_iff.1 h4)).afterLink
        (.index name ⟨t, ht⟩ d ⟨u, hu⟩) hs
      simpa using hchain
  · exact (hb.child (unfit_map_iff.1 h2)).afterLink (.var name) trivial

theorem brokenOff_childBy {link : String → Parser Expr}
    (hl : ∀ (name : TokenOf .name) us, Unfit (link name.1.text) us site →
      BrokenChain (name.1 :: us) site) (h : Unfit (childBy link) ts site) :
    BrokenOff .links ts site := by
  obtain hperiod | ⟨b, us, hperiod, h1⟩ := unfit_bind_iff.1 h
  · exact absurd hperiod not_unfit_take
  rcases take_eq_ok_iff.1 hperiod with ⟨rfl, t, ht, rfl⟩ | ⟨rfl, rfl, -⟩
  · obtain hname | ⟨text, vs, hname, h2⟩ := unfit_bind_iff.1 h1
    · obtain rfl := hname.name_site
      exact brokenOff_period ht _
    · obtain ⟨u, hu, rfl, rfl⟩ := name_eq_ok_iff.1 hname
      exact (hl ⟨u, hu⟩ vs (unfit_map_iff.1 h2)).dot ht
  · exact absurd h1 not_unfit_pure

/-- No star is ever missed. -/
theorem not_unfit_stars : ¬ Unfit (many star) ts site :=
  Unfit.many_induction itemAdvances_star (P := fun _ => False)
    (fun _ h => not_unfit_take (unfit_map_iff.1 h)) (fun _ _ _ _ h => h)

/-- Behind `local` come a name, a number sign and the name of a type. -/
theorem brokenOff_declaration {t : Token} (ht : t.kind = .keyword .localKw)
    (h : Unfit (Parser.name >>= fun text => typeRef >>= fun type =>
      pure (Expr.declaration text type)) ts site) : BrokenOff (.expr .primary) (t :: ts) site := by
  obtain hname | ⟨text, us, hname, h1⟩ := unfit_bind_iff.1 h
  · obtain rfl := hname.name_site
    exact ⟨[t], [someName.1, (someMark .hash).1, someName.1],
      .declaration ⟨t, ht⟩ someName ⟨someMark .hash, someName, []⟩, rfl, rfl, notAt_nil _⟩
  obtain ⟨u, hu, rfl, rfl⟩ := name_eq_ok_iff.1 hname
  obtain hhash | ⟨_, vs, hhash, h2⟩ := unfit_bind_iff.1 (unfit_map_iff.1 h1)
  · obtain rfl := hhash.symbol_site
    exact ⟨[t, u], [(someMark .hash).1, someName.1],
      .declaration ⟨t, ht⟩ ⟨u, hu⟩ ⟨someMark .hash, someName, []⟩, rfl, rfl, notAt_nil _⟩
  obtain ⟨hash, hk, rfl⟩ := symbol_eq_ok_iff.1 hhash
  obtain htype | ⟨type, ws, htype, h3⟩ := unfit_bind_iff.1 h2
  · obtain rfl := htype.name_site
    exact ⟨[t, u, hash], [someName.1],
      .declaration ⟨t, ht⟩ ⟨u, hu⟩ ⟨⟨hash, hk⟩, someName, []⟩, rfl, rfl, notAt_nil _⟩
  · exact absurd (unfit_map_iff.1 h3) not_unfit_stars

theorem not_unfit_literal {text : String} {value? : Option Literal} {us : List Token} :
    ¬ Unfit (literal us text value?) ts site := by
  cases value? with
  | none => rintro ⟨k, vs, ⟨⟩⟩
  | some value => exact not_unfit_pure

/-- An operand fails at its first token, or what that token starts is broken off. -/
theorem brokenOff_operand (hi : InnerSound inner n) (hf : InnerForward inner)
    (hb : InnerBroken inner) (h : Unfit (operand inner) ts site) :
    BrokenOff (.expr .unary) ts site := by
  have hprimary : Layer.power .unary ≤ Layer.power .primary := by decide
  cases ts with
  | nil =>
    obtain ⟨k, us, h⟩ := h
    cases h
    exact brokenOff_nil _ _
  | cons t ts =>
    change Unfit (operandAt inner (t :: ts) t) ts site at h
    generalize hp : operandAt inner (t :: ts) t = p at h
    unfold operandAt at hp
    split at hp <;> subst hp
    · exact absurd h not_unfit_literal
    · exact absurd h not_unfit_literal
    · exact absurd h not_unfit_pure
    · exact absurd h not_unfit_pure
    · exact absurd h not_unfit_pure
    · exact absurd h not_unfit_pure
    · next hk => exact ((brokenOff_bracketed hi hb h).group hk).loosen hprimary
    · next hk => exact (hb.unary (unfit_map_iff.1 h)).negate hk
    · next hk => exact (hb.unary (unfit_map_iff.1 h)).inverse hk
    · next hk => exact (brokenOff_declaration hk h).loosen hprimary
    · next hk =>
      exact ((hb.child (unfit_map_iff.1 h)).afterRoot (.selfRoot ⟨t, hk⟩) trivial).loosen
        hprimary
    · next hk =>
      refine BrokenOff.loosen ?_ hprimary
      obtain hname | ⟨text, us, hname, h1⟩ := unfit_bind_iff.1 h
      · obtain rfl := hname.name_site
        exact brokenOff_hash hk _
      · obtain ⟨u, hu, rfl, rfl⟩ := name_eq_ok_iff.1 hname
        exact (hb.child (unfit_map_iff.1 h1)).afterRoot (.typeRoot ⟨t, hk⟩ ⟨u, hu⟩) trivial
    · next hk => exact (brokenChain_link hi hf hb ⟨t, hk⟩ h).primary.loosen hprimary
    · obtain ⟨k, us, h⟩ := h
      cases h
      exact brokenOff_nil _ _

theorem stops_or_binding (floor : Nat) (ts : List Token) :
    Stops floor ts ∨ ∃ t us b, ts = t :: us ∧ binding? t.kind = some b ∧ floor ≤ b.left := by
  by_cases hs : Stops floor ts
  · exact .inl hs
  · simp only [Stops, not_forall, Nat.not_lt] at hs
    obtain ⟨t, ht, b, hb, hle⟩ := hs
    obtain ⟨us, rfl⟩ := List.head?_eq_some_iff.1 ht
    exact .inr ⟨t, us, b, rfl, hb, hle⟩

/-- A round of the loop over operators fails in the right operand of an operator, and the operator
takes the left operand that has been read. -/
theorem brokenOff_extend (hb : InnerBroken inner) {floor : Nat} (hfloor : floor ≤ unaryPower)
    {us : List Token} {lhs : Expr} (hl : LeftOperand (n + 1) floor ts lhs us)
    (h : Unfit (extend inner floor lhs) us site) :
    ∃ l : Layer, floor ≤ l.power ∧ BrokenOff (.expr l) ts site := by
  obtain ⟨l, -, hleft, hstop⟩ := hl
  obtain hs | ⟨t, vs, b, rfl, hbinding, hle⟩ := stops_or_binding floor us
  · obtain ⟨k, vs, h⟩ := h
    rw [extend_of_stops hs] at h
    cases h
  rw [Unfit, extend_of_binding hbinding hle] at h
  have hr : Unfit (inner.expr b.right) vs site := unfit_map_iff.1 h
  have hbl : b.left ≤ l.power := Nat.le_of_lt_succ (stops_cons.1 hstop b hbinding)
  rcases Layer.operator?_of_binding? hbinding with ⟨m, s, hk, hop, hml, hmr⟩ | ⟨hk, rfl⟩
  · have hm : m.power + 1 ≤ unaryPower := by
      have := (Layer.binding?_of_operator? hop).2
      cases m <;> simp_all [Layer.power, Layer.next, unaryPower]
    rw [hmr] at hr
    obtain ⟨r, hle', hright⟩ := hb.expr hm hr
    obtain ⟨left, rfl, -, hsl, -⟩ := hleft.loosen (hml ▸ hbl)
    exact ⟨m, hml ▸ hle, (hright.loosen (power_next_le hop hle')).binary hsl hk hop⟩
  · obtain rfl := eq_primary hbl
    obtain ⟨base, rfl, -, hsb, -⟩ := hleft
    exact ⟨.unary, hfloor, (hb.unary hr).power hsb hk⟩

theorem brokenOff_operands (hi : InnerSound inner n) (hf : InnerForward inner)
    (hb : InnerBroken inner) {floor : Nat} (hfloor : floor ≤ unaryPower)
    (h : Unfit (operands inner floor) ts site) :
    ∃ l : Layer, floor ≤ l.power ∧ BrokenOff (.expr l) ts site := by
  obtain ho | ⟨e, us, ho, hloop⟩ := unfit_bind_iff.1 h
  · exact ⟨.unary, hfloor, brokenOff_operand hi hf hb ho⟩
  · obtain ⟨lhs, vs, hl, hround⟩ := hloop.loop_invariant (advances_extend hf)
      (P := LeftOperand (n + 1) floor ts)
      (fun _ _ _ _ hP hs => leftOperand_extend hi hfloor hP hs)
      (leftOperand_of_operand hfloor (derived_operand hi hf ho))
    exact brokenOff_extend hb hfloor hl hround

end Inner

theorem innerBroken_level (n : Nat) : InnerBroken (level n) := by
  induction n with
  | zero =>
    -- Want of a level is no unexpected token.
    refine ⟨fun _ h => ?_, fun h => brokenOff_childBy (fun _ _ hl => ?_) h⟩
    · obtain ⟨k, us, h⟩ := h
      cases h
    · obtain ⟨k, us, hl⟩ := hl
      cases hl
  | succ n ih =>
    have hi := innerSound_level n
    have hf := innerForward_level n
    exact ⟨fun hfloor h => brokenOff_operands hi hf ih hfloor h,
      fun h => brokenOff_childBy (fun name _ hl => brokenChain_link hi hf ih name hl) h⟩

theorem brokenOff_wholeExpr {n : Nat} {ts site : List Token}
    (h : Unfit (Reading.parser .expr n) ts site) : BrokenOff (.expr .or) ts site := by
  obtain he | ⟨e, us, he, h1⟩ := unfit_bind_iff.1 h
  · exact (innerBroken_level n).whole he
  · obtain ⟨k, vs, hfinish⟩ := unfit_map_iff.1 h1
    have hsite : us = site := by
      cases us with
      | nil => cases hfinish
      | cons t us =>
        cases hfinish
        rfl
    subst hsite
    exact ((innerSound_level n).whole he).brokenOff

/-- With enough levels a derivation is read, and no token is left. -/
theorem wholeExpr_of_levels (d : Derivation (.expr .or)) (hs : d.Separated []) {n : Nat}
    (hn : 1 + d.nesting ≤ n) : Reading.parser .expr n d.tokens = .ok d.value [] := by
  have hy : Yields (1 + d.nesting ≤ n) (expr n (d.tokens ++ [])) (.ok d.value []) :=
    yields_expr (readBack d) (Nat.zero_le _) (follows_nil _) hs (stops_nil _)
  rw [List.append_nil] at hy
  exact (bind_ok (hy.fit hn)).trans rfl

theorem upTo_finish {rest rest' : List Token} (hs : SameAhead rest rest') :
    UpTo rest rest' finish finish := by
  rw [finish_eq]
  refine (UpTo.kind? hs).bind fun k? => ?_
  cases k? with
  | none => exact .pure _
  | some k => exact .fail _

/-- The token that is unexpected stays so, whatever stands behind it and however many levels more
there are. -/
theorem wholeExpr_unexpected {n m : Nat} (hle : n ≤ m) {front rest us : List Token} {t : Token}
    {k : Option TokenKind}
    (h : Reading.parser .expr n (front ++ t :: rest) = .error ⟨.unexpected k, t :: rest⟩ us)
    (rest' : List Token) :
    ∃ us', Reading.parser .expr m (front ++ t :: rest') =
      .error ⟨.unexpected k, t :: rest'⟩ us' := by
  have hcut : CutShort (Reading.parser .expr n) (Reading.parser .expr m) :=
    related_reading congruence_cutShort (cutShort_expr hle) (bodyCut_level hle) .expr
  have hm : Reading.parser .expr m (front ++ t :: rest) =
      .error ⟨.unexpected k, t :: rest⟩ us := by
    rcases hcut.agree (front ++ t :: rest) with heq | ⟨vs, hdeep, -⟩
    · rw [← heq, h]
    · cases hdeep.symm.trans h
  have hs : SameAhead (t :: rest) (t :: rest') := rfl
  have hup : UpTo (t :: rest) (t :: rest') (Reading.parser .expr m) (Reading.parser .expr m) :=
    ((innerUpTo_level hs m).expr 0).bind fun _ => (upTo_finish hs).bind fun _ => .pure _
  exact hup.error hm

/-- An expression fails at the first token that cannot go on with it. If the token at index `i`, or
the end, is unexpected, then the tokens in front of it can be completed to an expression that is read
if only there are levels enough; and if it is a token, then it is unexpected in the same way in all
tokens that agree up to it, however many levels more there are. -/
theorem unexpected_first {n : Nat} {tokens site rest : List Token} {k : Option TokenKind}
    (h : Reading.parser .expr n tokens = .error ⟨.unexpected k, site⟩ rest) :
    ∃ i ≤ tokens.length, site = tokens.drop i ∧
      (∃ z e levels, ∀ m ≥ levels, Reading.parser .expr m (tokens.take i ++ z) = .ok e []) ∧
      (i < tokens.length → ∀ m ≥ n, ∀ tokens', tokens'.take (i + 1) = tokens.take (i + 1) →
        ∃ rest', Reading.parser .expr m tokens' = .error ⟨.unexpected k, tokens'.drop i⟩ rest') := by
  obtain ⟨front, back, d, rfl, htokens, hs⟩ := brokenOff_wholeExpr ⟨k, rest, h⟩
  refine ⟨front.length, by simp, by simp, ⟨back, d.value, 1 + d.nesting, fun m hm => ?_⟩,
    fun hi m hm tokens' htake => ?_⟩
  · rw [List.take_left, ← htokens]
    exact wholeExpr_of_levels d hs hm
  · cases site with
    | nil => simp at hi
    | cons t site =>
      have hfront : tokens'.take (front.length + 1) = front ++ [t] := by
        rw [htake, List.take_append, List.take_of_length_le (Nat.le_succ _)]
        simp
      obtain ⟨behind, rfl⟩ : ∃ behind, tokens' = front ++ t :: behind :=
        ⟨tokens'.drop (front.length + 1), by
          rw [← List.take_append_drop (front.length + 1) tokens', hfront]
          simp⟩
      rw [List.drop_left]
      exact wholeExpr_unexpected hm h behind

/-- The tokens `(a + f(1, -; b`. -/
def openBrackets : List Token :=
  [⟨.symbol .openParen, "(", 0⟩, ⟨.name, "a", 1⟩, ⟨.symbol .plus, "+", 3⟩, ⟨.name, "f", 5⟩,
    ⟨.symbol .openParen, "(", 6⟩, ⟨.int, "1", 7⟩, ⟨.symbol .comma, ",", 8⟩,
    ⟨.symbol .minus, "-", 10⟩, ⟨.symbol .semicolon, ";", 11⟩, ⟨.name, "b", 13⟩]

/-- The semicolon stands where an operand is wanted, inside two brackets. Up to it the tokens can be
completed, and behind it closing brackets are of no use. -/
theorem unexpected_first_openBrackets :
    Reading.parser .expr maxLevels openBrackets =
      .error ⟨.unexpected none, openBrackets.drop 8⟩ (openBrackets.drop 9) ∧
    (∃ z e levels, ∀ m ≥ levels,
      Reading.parser .expr m (openBrackets.take 8 ++ z) = .ok e []) ∧
    ∃ rest', Reading.parser .expr maxLevels (openBrackets.take 9 ++
        [⟨.symbol .closeParen, ")", 12⟩, ⟨.symbol .closeParen, ")", 13⟩]) =
      .error ⟨.unexpected none, [⟨.symbol .semicolon, ";", 11⟩, ⟨.symbol .closeParen, ")", 12⟩,
        ⟨.symbol .closeParen, ")", 13⟩]⟩ rest' := by
  have h : Reading.parser .expr maxLevels openBrackets =
      .error ⟨.unexpected none, openBrackets.drop 8⟩ (openBrackets.drop 9) := by rfl
  obtain ⟨i, hi, hsite, hcompleted, hstays⟩ := unexpected_first h
  obtain rfl : i = 8 := by
    have hlength := congrArg List.length hsite
    simp only [List.length_drop, openBrackets, List.length_cons, List.length_nil] at hlength hi
    omega
  exact ⟨h, hcompleted, hstays (by decide) maxLevels (Nat.le_refl _) _ rfl⟩

end FrontEnd.Parse
