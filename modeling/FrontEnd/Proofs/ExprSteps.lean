import FrontEnd.Proofs.Progress

/-! What the parsers do with the token in front of them. Each lemma says what one parser gives when
the current token is, or is not, the one it looks for; the proofs about expressions rest on these
and open no parser themselves. -/

namespace FrontEnd.Parser

variable {α σ : Type}

def NotAt (kind : TokenKind) (ts : List Token) : Prop :=
  ∀ t ∈ ts.head?, t.kind ≠ kind

theorem notAt_nil (kind : TokenKind) : NotAt kind [] := by
  intro t ht
  simp at ht

theorem notAt_cons {kind : TokenKind} {t : Token} {ts : List Token} :
    NotAt kind (t :: ts) ↔ t.kind ≠ kind := by
  simp [NotAt]

theorem take_of_eq {kind : TokenKind} {t : Token} {ts : List Token} (h : t.kind = kind) :
    take kind (t :: ts) = .ok true ts :=
  take_eq_ok_iff.2 (.inl ⟨rfl, t, h, rfl⟩)

theorem take_of_notAt {kind : TokenKind} {ts : List Token} (h : NotAt kind ts) :
    take kind ts = .ok false ts :=
  take_eq_ok_iff.2 (.inr ⟨rfl, rfl, h⟩)

theorem isAt_of_eq {kind : TokenKind} {t : Token} {ts : List Token} (h : t.kind = kind) :
    isAt kind (t :: ts) = .ok true (t :: ts) := by
  simp [isAt, h]

theorem isAt_of_notAt {kind : TokenKind} {ts : List Token} (h : NotAt kind ts) :
    isAt kind ts = .ok false ts := by
  cases ts with
  | nil => rfl
  | cons t ts => simp [isAt, notAt_cons.1 h]

theorem isAt_eq_ok_iff {kind : TokenKind} {ts us : List Token} {b : Bool} :
    isAt kind ts = .ok b us ↔ ts = us ∧ (b = false ↔ NotAt kind ts) := by
  cases ts with
  | nil => cases b <;> simp [isAt, NotAt, eq_comm]
  | cons t ts => cases b <;> simp [isAt, NotAt, eq_comm, and_comm]

theorem symbol_of_eq {s : Symbol} {t : Token} {ts : List Token} (h : t.kind = .symbol s) :
    symbol s (t :: ts) = .ok () ts := by
  rw [symbol, bind_ok (expect_eq_ok_iff.2 ⟨h, rfl⟩), pure_apply]

theorem symbol_eq_ok_iff {s : Symbol} {ts us : List Token} {u : Unit} :
    symbol s ts = .ok u us ↔ ∃ t, t.kind = .symbol s ∧ ts = t :: us := by
  constructor
  · intro h
    obtain ⟨t, vs, ht, hp⟩ := bind_eq_ok_iff.1 h
    obtain ⟨-, rfl⟩ := pure_eq_ok_iff.1 hp
    exact ⟨t, expect_eq_ok_iff.1 ht⟩
  · rintro ⟨t, ht, rfl⟩
    exact symbol_of_eq ht

theorem name_of_eq {t : Token} {ts : List Token} (h : t.kind = .name) :
    name (t :: ts) = .ok t.text ts := by
  rw [name, bind_ok (expect_eq_ok_iff.2 ⟨h, rfl⟩), pure_apply]

theorem name_eq_ok_iff {ts us : List Token} {text : String} :
    name ts = .ok text us ↔ ∃ t, t.kind = .name ∧ t.text = text ∧ ts = t :: us := by
  constructor
  · intro h
    obtain ⟨t, vs, ht, hp⟩ := bind_eq_ok_iff.1 h
    obtain ⟨rfl, rfl⟩ := pure_eq_ok_iff.1 hp
    obtain ⟨hk, rfl⟩ := expect_eq_ok_iff.1 ht
    exact ⟨t, hk, rfl, rfl⟩
  · rintro ⟨t, ht, rfl, rfl⟩
    exact name_of_eq ht

/-- What holds before a loop and is kept by its rounds holds when it ends, and then a round does
nothing more. -/
theorem loop_invariant {step : σ → Parser (Option σ)} (ha : Advances step)
    {P : σ → List Token → Prop}
    (hstep : ∀ s ts s' us, P s ts → step s ts = .ok (some s') us → P s' us)
    {s s' : σ} {ts us : List Token} (h0 : P s ts) (h : loop step s ts = .ok s' us) :
    ∃ vs, P s' vs ∧ step s' vs = .ok none us := by
  induction hn : ts.length using Nat.strongRecOn generalizing s ts with
  | ind n ih =>
    subst hn
    rw [loop_eq ha] at h
    rcases hs : step s ts with ⟨_ | s1, vs⟩ | ⟨e, vs⟩ <;> rw [hs] at h
    · cases h
      exact ⟨ts, h0, hs⟩
    · exact ih _ (ha _ _ _ _ hs) (hstep _ _ _ _ h0 hs) h rfl
    · cases h

theorem many_of_none {item : Parser (Option α)} (ha : ItemAdvances item) {ts us : List Token}
    (h : item ts = .ok none us) : many item ts = .ok [] us := by
  rw [many_eq ha, h]

/-- After an item come the others. -/
theorem many_of_some {item : Parser (Option α)} (ha : ItemAdvances item) {ts us : List Token}
    {a : α} (h : item ts = .ok (some a) us) :
    many item ts = (many item >>= fun as => pure (a :: as)) us := by
  rw [many_eq ha, h, bind_apply]
  dsimp only
  cases many item us <;> rfl

theorem many_of_error {item : Parser (Option α)} (ha : ItemAdvances item) {ts us : List Token}
    {e : Fault} (h : item ts = .error e us) : many item ts = .error e us := by
  rw [many_eq ha, h]

/-- Items are found one after the other, until there is none. -/
theorem many_induction {item : Parser (Option α)} (ha : ItemAdvances item)
    {P : List Token → List α → List Token → Prop}
    (hnil : ∀ ts us, item ts = .ok none us → P ts [] us)
    (hcons : ∀ ts vs us a as, item ts = .ok (some a) vs → P vs as us → P ts (a :: as) us)
    {ts us : List Token} {as : List α} (h : many item ts = .ok as us) : P ts as us := by
  induction hn : ts.length using Nat.strongRecOn generalizing ts as with
  | ind n ih =>
    subst hn
    rcases hi : item ts with ⟨_ | a, vs⟩ | ⟨e, vs⟩
    · rw [many_of_none ha hi] at h
      cases h
      exact hnil _ _ hi
    · rw [many_of_some ha hi] at h
      obtain ⟨bs, ws, hm, hp⟩ := bind_eq_ok_iff.1 h
      obtain ⟨rfl, rfl⟩ := pure_eq_ok_iff.1 hp
      exact hcons _ _ _ _ _ hi (ih _ (ha _ _ _ hi) hm rfl)
    · rw [many_of_error ha hi] at h
      cases h

section CommaList

variable {close : TokenKind} {item : Parser α} {t : Token} {ts : List Token}

theorem nextItem_of_notAt (h : NotAt (.symbol .comma) ts) :
    nextItem close item ts = .ok none ts := by
  rw [nextItem, bind_ok (take_of_notAt h), if_neg (by decide), pure_apply]

theorem nextItem_last (h : t.kind = .symbol .comma) {u : Token} (hu : u.kind = close) :
    nextItem close item (t :: u :: ts) = .ok none (u :: ts) := by
  rw [nextItem, bind_ok (take_of_eq h), if_pos rfl, bind_ok (isAt_of_eq hu), if_pos rfl, pure_apply]

theorem nextItem_comma (h : t.kind = .symbol .comma) (hc : NotAt close ts) :
    nextItem close item (t :: ts) = (item >>= fun a => pure (some a)) ts := by
  rw [nextItem, bind_ok (take_of_eq h), if_pos rfl, bind_ok (isAt_of_notAt hc), if_neg (by decide)]

/-- A round finds no comma, one behind the last item, or one and an item. -/
theorem nextItem_cases {us : List Token} {a? : Option α} (h : nextItem close item ts = .ok a? us) :
    (a? = none ∧ ts = us) ∨ (a? = none ∧ ∃ t, t.kind = .symbol .comma ∧ ts = t :: us) ∨
    ∃ t vs a, t.kind = .symbol .comma ∧ ts = t :: vs ∧ item vs = .ok a us ∧ a? = some a := by
  obtain ⟨b, vs, ht, h1⟩ := bind_eq_ok_iff.1 h
  rcases take_eq_ok_iff.1 ht with ⟨rfl, t, hk, rfl⟩ | ⟨rfl, rfl, -⟩
  · obtain ⟨c, ws, hc, h2⟩ := bind_eq_ok_iff.1 h1
    obtain ⟨rfl, -⟩ := isAt_eq_ok_iff.1 hc
    cases c with
    | true =>
      cases h2
      exact .inr (.inl ⟨rfl, t, hk, rfl⟩)
    | false =>
      obtain ⟨a, xs, ha, hp⟩ := bind_eq_ok_iff.1 h2
      obtain ⟨rfl, rfl⟩ := pure_eq_ok_iff.1 hp
      exact .inr (.inr ⟨t, vs, a, hk, rfl, ha, rfl⟩)
  · cases h1
    exact .inl ⟨rfl, rfl⟩

theorem commaList_empty (h : t.kind = close) :
    commaList close item (t :: ts) = .ok [] (t :: ts) := by
  rw [commaList_eq, bind_ok (isAt_of_eq h), if_pos rfl, pure_apply]

theorem commaList_of_notAt (h : NotAt close ts) :
    commaList close item ts =
      (item >>= fun a => many (nextItem close item) >>= fun as => pure (a :: as)) ts := by
  rw [commaList_eq, bind_ok (isAt_of_notAt h), if_neg (by decide)]

theorem commaList_cases {us : List Token} {as : List α} (h : commaList close item ts = .ok as us) :
    (as = [] ∧ ts = us) ∨
    ∃ a vs bs, item ts = .ok a vs ∧ many (nextItem close item) vs = .ok bs us ∧ as = a :: bs := by
  obtain ⟨b, vs, hc, h1⟩ := bind_eq_ok_iff.1 h
  obtain ⟨rfl, -⟩ := isAt_eq_ok_iff.1 hc
  cases b with
  | true =>
    cases h1
    exact .inl ⟨rfl, rfl⟩
  | false =>
    obtain ⟨a, vs, ha, h2⟩ := bind_eq_ok_iff.1 h1
    obtain ⟨bs, ws, hm, hp⟩ := bind_eq_ok_iff.1 h2
    obtain ⟨rfl, rfl⟩ := pure_eq_ok_iff.1 hp
    exact .inr ⟨a, vs, bs, ha, hm, rfl⟩

end CommaList

end FrontEnd.Parser

namespace FrontEnd.Parse

open FrontEnd.Parser FrontEnd.Program

/-- No operator that binds with at least that power comes next. -/
def Stops (floor : Nat) (ts : List Token) : Prop :=
  ∀ t ∈ ts.head?, ∀ b, binding? t.kind = some b → b.left < floor

theorem stops_nil (floor : Nat) : Stops floor [] := by
  intro t ht
  simp at ht

theorem stops_cons {floor : Nat} {t : Token} {ts : List Token} :
    Stops floor (t :: ts) ↔ ∀ b, binding? t.kind = some b → b.left < floor := by
  simp [Stops]

theorem Stops.mono {floor floor' : Nat} {ts : List Token} (h : Stops floor ts)
    (hle : floor ≤ floor') : Stops floor' ts :=
  fun t ht b hb => Nat.lt_of_lt_of_le (h t ht b hb) hle

section Extend

variable {inner : Inner} {floor : Nat} {lhs : Expr}

theorem extend_of_stops {ts : List Token} (h : Stops floor ts) :
    extend inner floor lhs ts = .ok none ts := by
  have hk : kind? ts = .ok (ts.head?.map Token.kind) ts := rfl
  rw [extend, bind_ok hk]
  cases ts with
  | nil => rfl
  | cons t ts =>
    simp only [List.head?_cons, Option.map_some, Option.bind_some]
    cases hb : binding? t.kind with
    | none => rfl
    | some b => simp [stops_cons.1 h b hb, pure_apply]

theorem extend_of_binding {t : Token} {ts : List Token} {b : Binding}
    (hb : binding? t.kind = some b) (hle : floor ≤ b.left) :
    extend inner floor lhs (t :: ts) =
      (inner.expr b.right >>= fun rhs => pure (some (.binary b.op lhs rhs))) ts := by
  have hk : kind? (t :: ts) = .ok (some t.kind) (t :: ts) := rfl
  rw [extend, bind_ok hk]
  simp only [Option.bind_some, hb]
  have hs : skip (t :: ts) = .ok () ts := rfl
  rw [if_neg (Nat.not_lt.2 hle), bind_ok hs]

/-- A round ends the loop, or takes an operator and its right operand. -/
theorem extend_cases {r : Option Expr} {ts us : List Token}
    (h : extend inner floor lhs ts = .ok r us) :
    (r = none ∧ ts = us ∧ Stops floor ts) ∨
    ∃ t vs b rhs, ts = t :: vs ∧ binding? t.kind = some b ∧ floor ≤ b.left ∧
      inner.expr b.right vs = .ok rhs us ∧ r = some (.binary b.op lhs rhs) := by
  by_cases hs : Stops floor ts
  · rw [extend_of_stops hs] at h
    cases h
    exact .inl ⟨rfl, rfl, hs⟩
  · cases ts with
    | nil => exact absurd (stops_nil _) hs
    | cons t ts =>
      obtain ⟨b, hb⟩ := Classical.not_forall.1 (mt stops_cons.2 hs)
      obtain ⟨hb, hle⟩ := Classical.not_imp.1 hb
      rw [extend_of_binding hb (Nat.not_lt.1 hle)] at h
      obtain ⟨rhs, vs, hr, hp⟩ := bind_eq_ok_iff.1 h
      obtain ⟨rfl, rfl⟩ := pure_eq_ok_iff.1 hp
      exact .inr ⟨t, ts, b, rhs, rfl, hb, Nat.not_lt.1 hle, hr, rfl⟩

theorem advances_extend (hi : InnerForward inner) : Advances (extend inner floor) := by
  intro lhs ts e us h
  rcases extend_cases h with ⟨hr, -, -⟩ | ⟨t, vs, b, rhs, rfl, -, -, hr, -⟩
  · cases hr
  · exact Nat.lt_succ_of_lt ((hi.expr _).shrinks hr)

theorem loop_of_stops (hi : InnerForward inner) {ts : List Token} (h : Stops floor ts) :
    loop (extend inner floor) lhs ts = .ok lhs ts := by
  rw [loop_eq (advances_extend hi), extend_of_stops h]

theorem loop_of_binding (hi : InnerForward inner) {t : Token} {ts : List Token} {b : Binding}
    (hb : binding? t.kind = some b) (hle : floor ≤ b.left) :
    loop (extend inner floor) lhs (t :: ts) =
      (inner.expr b.right >>= fun rhs => loop (extend inner floor) (.binary b.op lhs rhs)) ts := by
  rw [loop_eq (advances_extend hi), extend_of_binding hb hle, bind_apply, bind_apply]
  cases inner.expr b.right ts <;> rfl

end Extend

section Operand

variable {inner : Inner} {t : Token} {ts : List Token}

theorem operand_openParen (h : t.kind = .symbol .openParen) :
    operand inner (t :: ts) =
      (inner.expr 0 >>= fun e => symbol .closeParen >>= fun _ => pure e) ts := by
  simp only [operand, operandAt, h]

theorem operand_minus (h : t.kind = .symbol .minus) :
    operand inner (t :: ts) = (inner.expr unaryPower >>= fun e => pure (.negate e)) ts := by
  simp only [operand, operandAt, h]

theorem operand_bang (h : t.kind = .symbol .bang) :
    operand inner (t :: ts) = (inner.expr unaryPower >>= fun e => pure (.inverse e)) ts := by
  simp only [operand, operandAt, h]

theorem operand_local (h : t.kind = .keyword .localKw) :
    operand inner (t :: ts) =
      (name >>= fun text => typeRef >>= fun type => pure (.declaration text type)) ts := by
  simp only [operand, operandAt, h]

theorem operand_self (h : t.kind = .keyword .selfKw) :
    operand inner (t :: ts) = (inner.child >>= fun c => pure (.this c)) ts := by
  simp only [operand, operandAt, h]

theorem operand_hash (h : t.kind = .symbol .hash) :
    operand inner (t :: ts) =
      (name >>= fun text => inner.child >>= fun c => pure (.classRef ⟨text, 0⟩ c)) ts := by
  simp only [operand, operandAt, h]

theorem operand_name (h : t.kind = .name) :
    operand inner (t :: ts) = link inner t.text ts := by
  simp only [operand, operandAt, h]

theorem link_openParen {text : String} (h : t.kind = .symbol .openParen) :
    link inner text (t :: ts) =
      (commaList (.symbol .closeParen) (inner.expr 0) >>= fun es => symbol .closeParen >>= fun _ =>
        inner.child >>= fun c => pure (.call text es c)) ts := by
  rw [link, bind_ok (take_of_eq h), if_pos rfl]

theorem link_openBracket {text : String} (h : t.kind = .symbol .openBracket) :
    link inner text (t :: ts) =
      (inner.expr 0 >>= fun i => symbol .closeBracket >>= fun _ =>
        inner.child >>= fun c => pure (.index text i c)) ts := by
  have hp : NotAt (.symbol .openParen) (t :: ts) := notAt_cons.2 (by simp [h])
  rw [link, bind_ok (take_of_notAt hp), if_neg (by decide), bind_ok (take_of_eq h), if_pos rfl]

theorem link_of_notAt {text : String} (hp : NotAt (.symbol .openParen) ts)
    (hb : NotAt (.symbol .openBracket) ts) :
    link inner text ts = (inner.child >>= fun c => pure (.var text c)) ts := by
  rw [link, bind_ok (take_of_notAt hp), if_neg (by decide), bind_ok (take_of_notAt hb),
    if_neg (by decide)]

/-- A link is a call, an element or a variable, and then its chain goes on. -/
theorem link_cases {text : String} {us : List Token} {e : Expr} (h : link inner text ts = .ok e us) :
    (∃ t vs es u ws c, t.kind = .symbol .openParen ∧ ts = t :: vs ∧
      commaList (.symbol .closeParen) (inner.expr 0) vs = .ok es (u :: ws) ∧
      u.kind = .symbol .closeParen ∧ inner.child ws = .ok c us ∧ e = .call text es c) ∨
    (∃ t vs i u ws c, t.kind = .symbol .openBracket ∧ ts = t :: vs ∧
      inner.expr 0 vs = .ok i (u :: ws) ∧ u.kind = .symbol .closeBracket ∧
      inner.child ws = .ok c us ∧ e = .index text i c) ∨
    ∃ c, inner.child ts = .ok c us ∧ e = .var text c := by
  obtain ⟨b, vs, ht, h1⟩ := bind_eq_ok_iff.1 h
  rcases take_eq_ok_iff.1 ht with ⟨rfl, t, hk, rfl⟩ | ⟨rfl, rfl, -⟩
  · obtain ⟨es, ws, ha, h2⟩ := bind_eq_ok_iff.1 h1
    obtain ⟨_, xs, hc, h3⟩ := bind_eq_ok_iff.1 h2
    obtain ⟨u, hu, rfl⟩ := symbol_eq_ok_iff.1 hc
    obtain ⟨c, ys, hch, hp⟩ := bind_eq_ok_iff.1 h3
    obtain ⟨rfl, rfl⟩ := pure_eq_ok_iff.1 hp
    exact .inl ⟨t, vs, es, u, xs, c, hk, rfl, ha, hu, hch, rfl⟩
  · obtain ⟨b, vs, ht, h2⟩ := bind_eq_ok_iff.1 h1
    rcases take_eq_ok_iff.1 ht with ⟨rfl, t, hk, rfl⟩ | ⟨rfl, rfl, -⟩
    · obtain ⟨i, ws, hi, h3⟩ := bind_eq_ok_iff.1 h2
      obtain ⟨_, xs, hc, h4⟩ := bind_eq_ok_iff.1 h3
      obtain ⟨u, hu, rfl⟩ := symbol_eq_ok_iff.1 hc
      obtain ⟨c, ys, hch, hp⟩ := bind_eq_ok_iff.1 h4
      obtain ⟨rfl, rfl⟩ := pure_eq_ok_iff.1 hp
      exact .inr (.inl ⟨t, vs, i, u, xs, c, hk, rfl, hi, hu, hch, rfl⟩)
    · obtain ⟨c, ys, hch, hp⟩ := bind_eq_ok_iff.1 h2
      obtain ⟨rfl, rfl⟩ := pure_eq_ok_iff.1 hp
      exact .inr (.inr ⟨c, hch, rfl⟩)

theorem childBy_period {link : String → Parser Expr} (h : t.kind = .symbol .period) :
    childBy link (t :: ts) = (name >>= fun text => link text >>= fun e => pure (some e)) ts := by
  rw [childBy, bind_ok (take_of_eq h), if_pos rfl]

theorem childBy_of_notAt {link : String → Parser Expr} (h : NotAt (.symbol .period) ts) :
    childBy link ts = .ok none ts := by
  rw [childBy, bind_ok (take_of_notAt h), if_neg (by decide), pure_apply]

theorem childBy_cases {link : String → Parser Expr} {us : List Token} {c : Option Expr}
    (h : childBy link ts = .ok c us) :
    (c = none ∧ ts = us) ∨
    ∃ t u vs e, t.kind = .symbol .period ∧ u.kind = .name ∧ ts = t :: u :: vs ∧
      link u.text vs = .ok e us ∧ c = some e := by
  obtain ⟨b, vs, ht, h1⟩ := bind_eq_ok_iff.1 h
  rcases take_eq_ok_iff.1 ht with ⟨rfl, t, hk, rfl⟩ | ⟨rfl, rfl, -⟩
  · obtain ⟨text, ws, hn, h2⟩ := bind_eq_ok_iff.1 h1
    obtain ⟨u, hu, rfl, rfl⟩ := name_eq_ok_iff.1 hn
    obtain ⟨e, xs, hl, hp⟩ := bind_eq_ok_iff.1 h2
    obtain ⟨rfl, rfl⟩ := pure_eq_ok_iff.1 hp
    exact .inr ⟨t, u, ws, e, hk, hu, rfl, hl, rfl⟩
  · cases h1
    exact .inl ⟨rfl, rfl⟩

theorem child_zero_period (h : t.kind = .symbol .period) :
    (level 0).child (t :: ts) =
      (name >>= fun _ => fail .tooDeep >>= fun e => pure (some e)) ts :=
  childBy_period h

theorem child_succ_period (n : Nat) (h : t.kind = .symbol .period) :
    (level (n + 1)).child (t :: ts) =
      (name >>= fun text => link (level n) text >>= fun e => pure (some e)) ts :=
  childBy_period h

/-- Whatever level it is on, a chain ends where no period follows. -/
theorem child_of_notAt (n : Nat) (h : NotAt (.symbol .period) ts) :
    (level n).child ts = .ok none ts := by
  cases n <;> exact childBy_of_notAt h

end Operand

end FrontEnd.Parse
