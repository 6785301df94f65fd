import FrontEnd.Proofs.ExprSoundness
import FrontEnd.Proofs.ScriptGrammar
import FrontEnd.Proofs.ScriptProgress

/-! Statements that are read are written so: all the tokens that were passed, in their order, are
those of a form that stands for what was read. The induction is on the nesting levels; a list is put
together from the right, so the invariant of its loop is the form of the items that are still to
come. -/

namespace FrontEnd.Parse

open FrontEnd.Parser FrontEnd.Grammar FrontEnd.Program

theorem get_eq_ok_iff {ts us vs : List Token} :
    (get : Parser (List Token)) ts = .ok us vs ↔ ts = us ∧ ts = vs := by
  simp [get_apply]

theorem exists_cons_of_kind {ts : List Token} {kind : TokenKind}
    (h : ts.head?.map Token.kind = some kind) : ∃ t us, ts = t :: us ∧ t.kind = kind := by
  cases ts with
  | nil => simp at h
  | cons t us => exact ⟨t, us, rfl, by simpa using h⟩

/-- Where a whole expression ends there is no multiplication. -/
theorem notAt_star_of_stops {ts : List Token} (h : Stops 0 ts) : NotAt (.symbol .star) ts := by
  intro t ht hk
  have hb : binding? t.kind = some ⟨.mul, 9, 10⟩ := by rw [hk]; rfl
  exact absurd (h t ht _ hb) (Nat.not_lt_zero _)

/-- What the parser of expressions finds is an expression that takes at most `n` levels. -/
def ExprSound (expr : Parser Expr) (n : Nat) : Prop :=
  ∀ ts e us, expr ts = .ok e us →
    ∃ f : ExprForm, ts = f.tokens ++ us ∧ f.value = e ∧ f.levels ≤ n

theorem exprSound_expr (n : Nat) : ExprSound (expr n) n := by
  intro ts e us h
  obtain ⟨hstop, -⟩ := (innerSound_level n).expr (Nat.zero_le _) h
  obtain ⟨d, hts, hv, hs, hn⟩ := (innerSound_level n).whole h
  have hd : d.Separated [] := (d.separated_nil_iff (notAt_star_of_stops hstop)).2 hs
  refine ⟨⟨d, hd⟩, hts, hv, ?_⟩
  change 1 + d.nesting ≤ n
  omega

/-- The tokens in front of `us` are a clause that stands for `v` and takes at most `n` levels. -/
def Formed (c : Clause) (n : Nat) (ts us : List Token) (v : c.Value) : Prop :=
  ∃ f : Form c, ts = f.tokens ++ us ∧ f.value = v ∧ f.levels ≤ n

structure BodySound (inner : InnerBody) (n : Nat) : Prop where
  block : ∀ {ts ss us}, inner.block ts = .ok ss us → Formed .block n ts us ss
  elseIf : ∀ {ts b us}, inner.elseIf ts = .ok b us →
    ∃ f : Form .branches, ts = f.tokens ++ us ∧ f.value = b ∧ 1 + f.levels ≤ n

section Body

variable {n : Nat} {expr : Parser Expr} {inner : InnerBody} {ts us : List Token}

theorem ensureAssignable_cases {site : List Token} {target : Expr} {u : Unit}
    (h : ensureAssignable site target ts = .ok u us) : target.isAssignable = true ∧ ts = us := by
  unfold ensureAssignable at h
  split at h
  · next ht => exact ⟨ht, (pure_eq_ok_iff.1 h).2⟩
  · cases h

/-- The end of a counting statement, from its target on. -/
theorem counted_cases {α : Type} {site : List Token} {target : Expr} {s r : α}
    (h : (ensureAssignable site target >>= fun _ => symbol .semicolon >>= fun _ => pure s) ts =
      .ok r us) :
    target.isAssignable = true ∧ r = s ∧ ∃ t, t.kind = .symbol .semicolon ∧ ts = t :: us := by
  obtain ⟨_, vs, ha, h1⟩ := bind_eq_ok_iff.1 h
  obtain ⟨ht, rfl⟩ := ensureAssignable_cases ha
  obtain ⟨_, ws, hs, hp⟩ := bind_eq_ok_iff.1 h1
  obtain ⟨t, hk, rfl⟩ := symbol_eq_ok_iff.1 hs
  obtain ⟨rfl, rfl⟩ := pure_eq_ok_iff.1 hp
  exact ⟨ht, rfl, t, hk, rfl⟩

theorem formed_countFirst (he : ExprSound expr n) {site : List Token} {t : Token} {k : Symbol}
    {make : Expr → Statement} {s : Statement} (hk : t.kind = .symbol k)
    (hm : counting? k = some make)
    (h : (expr >>= fun target => ensureAssignable site target >>= fun _ =>
      symbol .semicolon >>= fun _ => pure (make target)) ts = .ok s us) :
    Formed .statement n (t :: ts) us s := by
  obtain ⟨e, vs, hx, h1⟩ := bind_eq_ok_iff.1 h
  obtain ⟨f, rfl, rfl, hn⟩ := he _ _ _ hx
  obtain ⟨ha, rfl, u, hu, rfl⟩ := counted_cases h1
  exact ⟨.countFirst ⟨t, hk⟩ hm f ha ⟨u, hu⟩, by simp, rfl, hn⟩

/-- What follows the expression that a statement starts with: a value for it, a counting symbol or
nothing. -/
theorem simpleStatement_cases {s : Statement} (h : simpleStatement expr ts = .ok s us) :
    ∃ e vs, expr ts = .ok e vs ∧
      ((∃ t ws v, t.kind = .symbol .assign ∧ vs = t :: ws ∧ e.isAssignable = true ∧
        expr ws = .ok v us ∧ s = .assignment e v) ∨
      (∃ t k make, t.kind = .symbol k ∧ counting? k = some make ∧ vs = t :: us ∧
        e.isAssignable = true ∧ s = make e) ∨
      (vs = us ∧ s = .ofExpr e)) := by
  obtain ⟨site, ts', hg, h1⟩ := bind_eq_ok_iff.1 h
  obtain ⟨rfl, rfl⟩ := get_eq_ok_iff.1 hg
  obtain ⟨e, vs, he, h2⟩ := bind_eq_ok_iff.1 h1
  refine ⟨e, vs, he, ?_⟩
  obtain ⟨b, ws, ht, h3⟩ := bind_eq_ok_iff.1 h2
  rcases take_eq_ok_iff.1 ht with ⟨rfl, t, hk, rfl⟩ | ⟨rfl, rfl, -⟩
  · obtain ⟨_, xs, ha, h4⟩ := bind_eq_ok_iff.1 h3
    obtain ⟨hta, rfl⟩ := ensureAssignable_cases ha
    obtain ⟨v, ys, hv, hp⟩ := bind_eq_ok_iff.1 h4
    obtain ⟨rfl, rfl⟩ := pure_eq_ok_iff.1 hp
    exact .inl ⟨t, ws, v, hk, rfl, hta, hv, rfl⟩
  obtain ⟨b, ws, ht, h5⟩ := bind_eq_ok_iff.1 h3
  rcases take_eq_ok_iff.1 ht with ⟨rfl, t, hk, rfl⟩ | ⟨rfl, rfl, -⟩
  · obtain ⟨_, xs, ha, hp⟩ := bind_eq_ok_iff.1 h5
    obtain ⟨hta, rfl⟩ := ensureAssignable_cases ha
    obtain ⟨rfl, rfl⟩ := pure_eq_ok_iff.1 hp
    exact .inr (.inl ⟨t, .increment, _, hk, rfl, rfl, hta, rfl⟩)
  obtain ⟨b, ws, ht, h6⟩ := bind_eq_ok_iff.1 h5
  rcases take_eq_ok_iff.1 ht with ⟨rfl, t, hk, rfl⟩ | ⟨rfl, rfl, -⟩
  · obtain ⟨_, xs, ha, hp⟩ := bind_eq_ok_iff.1 h6
    obtain ⟨hta, rfl⟩ := ensureAssignable_cases ha
    obtain ⟨rfl, rfl⟩ := pure_eq_ok_iff.1 hp
    exact .inr (.inl ⟨t, .decrement, _, hk, rfl, rfl, hta, rfl⟩)
  obtain ⟨rfl, rfl⟩ := pure_eq_ok_iff.1 h6
  exact .inr (.inr ⟨rfl, rfl⟩)

theorem formed_simple (he : ExprSound expr n) {s : Statement}
    (h : (simpleStatement expr >>= fun s => symbol .semicolon >>= fun _ => pure s) ts = .ok s us) :
    Formed .statement n ts us s := by
  obtain ⟨s', vs, hs, h1⟩ := bind_eq_ok_iff.1 h
  obtain ⟨_, ws, hc, hp⟩ := bind_eq_ok_iff.1 h1
  obtain ⟨u, hu, rfl⟩ := symbol_eq_ok_iff.1 hc
  obtain ⟨rfl, rfl⟩ := pure_eq_ok_iff.1 hp
  obtain ⟨e, xs, hx, h2⟩ := simpleStatement_cases hs
  obtain ⟨f, rfl, rfl, hn⟩ := he _ _ _ hx
  rcases h2 with ⟨t, ys, v, hk, rfl, ha, hv, rfl⟩ | ⟨t, k, make, hk, hm, rfl, ha, rfl⟩ | ⟨rfl, rfl⟩
  · obtain ⟨g, rfl, rfl, hg⟩ := he _ _ _ hv
    exact ⟨.assign f ha ⟨t, hk⟩ g ⟨u, hu⟩, by simp, rfl, Nat.max_le.2 ⟨hn, hg⟩⟩
  · exact ⟨.countLast f ha ⟨t, hk⟩ hm ⟨u, hu⟩, by simp, rfl, hn⟩
  · exact ⟨.bare f ⟨u, hu⟩, by simp, rfl, hn⟩

theorem formed_return (he : ExprSound expr n) {t : Token} {s : Statement}
    (hk : t.kind = .keyword .returnKw)
    (h : (returned expr >>= fun v => symbol .semicolon >>= fun _ => pure (.ret v)) ts = .ok s us) :
    Formed .statement n (t :: ts) us s := by
  obtain ⟨v, vs, hv, h1⟩ := bind_eq_ok_iff.1 h
  obtain ⟨_, ws, hc, hp⟩ := bind_eq_ok_iff.1 h1
  obtain ⟨u, hu, rfl⟩ := symbol_eq_ok_iff.1 hc
  obtain ⟨rfl, rfl⟩ := pure_eq_ok_iff.1 hp
  obtain ⟨b, xs, hb, h2⟩ := bind_eq_ok_iff.1 hv
  obtain ⟨rfl, -⟩ := isAt_eq_ok_iff.1 hb
  cases b with
  | true =>
    obtain ⟨rfl, rfl⟩ := pure_eq_ok_iff.1 h2
    exact ⟨.ret ⟨t, hk⟩ none ⟨u, hu⟩, rfl, rfl, Nat.zero_le _⟩
  | false =>
    obtain ⟨e, ys, hx, hp⟩ := bind_eq_ok_iff.1 h2
    obtain ⟨rfl, rfl⟩ := pure_eq_ok_iff.1 hp
    obtain ⟨f, rfl, rfl, hn⟩ := he _ _ _ hx
    exact ⟨.ret ⟨t, hk⟩ (some f) ⟨u, hu⟩, by simp, rfl, hn⟩

theorem formed_while (he : ExprSound expr n) (hi : BodySound inner n) {t : Token} {s : Statement}
    (hk : t.kind = .keyword .whileKw)
    (h : (expr >>= fun c => inner.block >>= fun body => pure (.loop c body)) ts = .ok s us) :
    Formed .statement n (t :: ts) us s := by
  obtain ⟨c, vs, hc, h1⟩ := bind_eq_ok_iff.1 h
  obtain ⟨body, ws, hb, hp⟩ := bind_eq_ok_iff.1 h1
  obtain ⟨rfl, rfl⟩ := pure_eq_ok_iff.1 hp
  obtain ⟨f, rfl, rfl, hn⟩ := he _ _ _ hc
  obtain ⟨g, rfl, rfl, hg⟩ := hi.block hb
  exact ⟨.whileLoop ⟨t, hk⟩ f g, by simp, rfl, Nat.max_le.2 ⟨hn, hg⟩⟩

/-- A statement that is read is written so, by the kind of its first token. -/
theorem formed_statement (he : ExprSound expr n) (hi : BodySound inner n) {s : Statement}
    (h : statement expr inner.block ts = .ok s us) : Formed .statement n ts us s := by
  obtain ⟨site, ts', hg, h1⟩ := bind_eq_ok_iff.1 h
  obtain ⟨rfl, rfl⟩ := get_eq_ok_iff.1 hg
  obtain ⟨kind, vs, hkind, h2⟩ := bind_eq_ok_iff.1 h1
  obtain ⟨hk, rfl⟩ := kind?_eq_ok_iff.1 hkind
  split at h2
  · cases h2
  · obtain ⟨t, ws, rfl, ht⟩ := exists_cons_of_kind hk
    exact formed_while he hi ht h2
  · obtain ⟨body, ws, hb, hp⟩ := bind_eq_ok_iff.1 h2
    obtain ⟨rfl, rfl⟩ := pure_eq_ok_iff.1 hp
    obtain ⟨g, rfl, rfl, hg⟩ := hi.block hb
    exact ⟨.inner g, rfl, rfl, hg⟩
  · obtain ⟨t, ws, rfl, ht⟩ := exists_cons_of_kind hk
    exact formed_return he ht h2
  · obtain ⟨t, ws, rfl, ht⟩ := exists_cons_of_kind hk
    exact formed_countFirst he ht rfl h2
  · obtain ⟨t, ws, rfl, ht⟩ := exists_cons_of_kind hk
    exact formed_countFirst he ht rfl h2
  · exact formed_simple he h2

theorem formed_branches (he : ExprSound expr n) (hi : BodySound inner n) {b : Branches}
    (h : branches expr inner ts = .ok b us) : Formed .branches n ts us b := by
  obtain ⟨t, vs, ht, h1⟩ := bind_eq_ok_iff.1 h
  obtain ⟨hk, rfl⟩ := expect_eq_ok_iff.1 ht
  obtain ⟨c, ws, hc, h2⟩ := bind_eq_ok_iff.1 h1
  obtain ⟨f, rfl, rfl, hn⟩ := he _ _ _ hc
  obtain ⟨body, xs, hb, h3⟩ := bind_eq_ok_iff.1 h2
  obtain ⟨g, rfl, rfl, hg⟩ := hi.block hb
  obtain ⟨b, ys, ht, h4⟩ := bind_eq_ok_iff.1 h3
  rcases take_eq_ok_iff.1 ht with ⟨rfl, t', hk', rfl⟩ | ⟨rfl, rfl, -⟩
  · obtain ⟨b, zs, hat, h5⟩ := bind_eq_ok_iff.1 h4
    obtain ⟨rfl, -⟩ := isAt_eq_ok_iff.1 hat
    cases b with
    | true =>
      obtain ⟨b', zs, hb', hp⟩ := bind_eq_ok_iff.1 h5
      obtain ⟨rfl, rfl⟩ := pure_eq_ok_iff.1 hp
      obtain ⟨g', rfl, rfl, hg'⟩ := hi.elseIf hb'
      refine ⟨.ifElseIf ⟨t, hk⟩ f g ⟨t', hk'⟩ g', by simp, rfl, ?_⟩
      exact Nat.max_le.2 ⟨Nat.max_le.2 ⟨hn, hg⟩, hg'⟩
    | false =>
      obtain ⟨b', zs, hb', hp⟩ := bind_eq_ok_iff.1 h5
      obtain ⟨rfl, rfl⟩ := pure_eq_ok_iff.1 hp
      obtain ⟨g', rfl, rfl, hg'⟩ := hi.block hb'
      refine ⟨.ifElse ⟨t, hk⟩ f g ⟨t', hk'⟩ g', by simp, rfl, ?_⟩
      exact Nat.max_le.2 ⟨Nat.max_le.2 ⟨hn, hg⟩, hg'⟩
  · obtain ⟨rfl, rfl⟩ := pure_eq_ok_iff.1 h4
    exact ⟨.ifOnly ⟨t, hk⟩ f g, by simp, rfl, Nat.max_le.2 ⟨hn, hg⟩⟩

/-- A list ends at its closing token or with the input, and else goes on with an item. -/
theorem item_cases {close : Option TokenKind} {i? : Option Item}
    (h : item expr inner close ts = .ok i? us) :
    (i? = none ∧ ts = us ∧ (ts = [] ∨ ∃ t vs, ts = t :: vs ∧ close = some t.kind)) ∨
    (∃ b, i? = some (.branches b) ∧ branches expr inner ts = .ok b us) ∨
    ∃ s, i? = some (.plain s) ∧ statement expr inner.block ts = .ok s us := by
  obtain ⟨kind, vs, hkind, h1⟩ := bind_eq_ok_iff.1 h
  obtain ⟨hk, rfl⟩ := kind?_eq_ok_iff.1 hkind
  cases kind with
  | none =>
    obtain ⟨rfl, rfl⟩ := pure_eq_ok_iff.1 h1
    refine .inl ⟨rfl, rfl, .inl ?_⟩
    simpa using hk
  | some kind =>
    dsimp only at h1
    split at h1
    · next hc =>
      obtain ⟨rfl, rfl⟩ := pure_eq_ok_iff.1 h1
      obtain ⟨t, ws, rfl, rfl⟩ := exists_cons_of_kind hk
      exact .inl ⟨rfl, rfl, .inr ⟨t, ws, rfl, hc⟩⟩
    split at h1
    · obtain ⟨b, ws, hb, hp⟩ := bind_eq_ok_iff.1 h1
      obtain ⟨rfl, rfl⟩ := pure_eq_ok_iff.1 hp
      exact .inr (.inl ⟨b, rfl, hb⟩)
    · obtain ⟨s, ws, hs, hp⟩ := bind_eq_ok_iff.1 h1
      obtain ⟨rfl, rfl⟩ := pure_eq_ok_iff.1 hp
      exact .inr (.inr ⟨s, rfl, hs⟩)

/-- A list that is read is written so, and it goes as far as it can. -/
theorem formed_statementsUntil (he : ExprSound expr n) (hx : Consumes expr)
    (hi : BodySound inner n) (hf : BodyForward inner) {close : Option TokenKind}
    {ss : List Statement} (h : statementsUntil expr inner close ts = .ok ss us) :
    Formed .items n ts us ss ∧ (us = [] ∨ ∃ t vs, us = t :: vs ∧ close = some t.kind) := by
  obtain ⟨is, vs, hm, hp⟩ := bind_eq_ok_iff.1 h
  obtain ⟨rfl, rfl⟩ := pure_eq_ok_iff.1 hp
  -- Items are put together from the right: the invariant is the form of those still to come.
  refine many_induction (itemAdvances_item hx hf close) (P := fun ts is us =>
    Formed .items n ts us (Item.assemble is) ∧
      (us = [] ∨ ∃ t vs, us = t :: vs ∧ close = some t.kind)) ?_ ?_ hm
  · intro ts us hs
    obtain ⟨-, rfl, hend⟩ | ⟨b, hb, -⟩ | ⟨s, hs, -⟩ := item_cases hs
    · exact ⟨⟨.noItems, rfl, rfl, Nat.zero_le _⟩, hend⟩
    · cases hb
    · cases hs
  · rintro ts vs us i is hitem ⟨⟨g, rfl, hg, hgn⟩, hend⟩
    refine ⟨?_, hend⟩
    obtain ⟨hn, -⟩ | ⟨b, hib, hb⟩ | ⟨s, his, hs⟩ := item_cases hitem
    · cases hn
    · cases hib
      obtain ⟨f, rfl, rfl, hn⟩ := formed_branches he hi hb
      refine ⟨.branch f g, by simp, ?_, Nat.max_le.2 ⟨hn, hgn⟩⟩
      rw [Item.assemble, ← hg]
      rfl
    · cases his
      obtain ⟨f, rfl, rfl, hn⟩ := formed_statement he hi hs
      refine ⟨.plain f g, by simp, ?_, Nat.max_le.2 ⟨hn, hgn⟩⟩
      rw [Item.assemble, ← hg]
      rfl

theorem formed_braced (he : ExprSound expr n) (hx : Consumes expr) (hi : BodySound inner n)
    (hf : BodyForward inner) {ss : List Statement} (h : braced expr inner ts = .ok ss us) :
    Formed .block (n + 1) ts us ss := by
  obtain ⟨_, vs, ho, h1⟩ := bind_eq_ok_iff.1 h
  obtain ⟨t, ht, rfl⟩ := symbol_eq_ok_iff.1 ho
  obtain ⟨body, ws, hb, h2⟩ := bind_eq_ok_iff.1 h1
  obtain ⟨⟨g, rfl, rfl, hg⟩, -⟩ := formed_statementsUntil he hx hi hf hb
  obtain ⟨_, xs, hc, hp⟩ := bind_eq_ok_iff.1 h2
  obtain ⟨u, hu, rfl⟩ := symbol_eq_ok_iff.1 hc
  obtain ⟨rfl, rfl⟩ := pure_eq_ok_iff.1 hp
  refine ⟨.braces ⟨t, ht⟩ g ⟨u, hu⟩, by simp, rfl, ?_⟩
  rw [Form.levels]
  omega

end Body

theorem bodySound_level (n : Nat) : BodySound (bodyLevel n) n := by
  induction n with
  | zero =>
    -- Without a level left no block and no `if` behind an `else` is read.
    exact ⟨nofun, nofun⟩
  | succ n ih =>
    have hx := consumes_expr n
    have hf := bodyForward_level n
    refine ⟨fun h => formed_braced (exprSound_expr n) hx ih hf h, fun h => ?_⟩
    obtain ⟨f, hts, hv, hn⟩ := formed_branches (exprSound_expr n) ih h
    exact ⟨f, hts, hv, by omega⟩

/-- Statements that are read up to the end are written so, and no token is left. -/
theorem exists_itemsForm {n : Nat} {ts us : List Token} {ss : List Statement}
    (h : statements n ts = .ok ss us) :
    us = [] ∧ ∃ f : Form .items, f.tokens = ts ∧ f.value = ss ∧ f.levels ≤ n := by
  obtain ⟨⟨f, rfl, hv, hn⟩, rfl | ⟨t, vs, -, hc⟩⟩ := formed_statementsUntil (exprSound_expr n)
    (consumes_expr n) (bodySound_level n) (bodyForward_level n) h
  · exact ⟨rfl, f, by simp, hv, hn⟩
  · cases hc

end FrontEnd.Parse
