import FrontEnd.Proofs.Layout
import FrontEnd.Proofs.ScriptSoundness
import FrontEnd.Proofs.StatementCompleteness

/-! Parsers look one token ahead and no further. An expression that is read depends on the tokens it
takes and on the kind of the one behind them, and a fault at a token depends on the tokens up to that
one. A block ends with its brace, so nothing behind it matters; and inside the braces the statements
are read as they are without them. -/

namespace FrontEnd.Parser

variable {α β σ : Type} {rest rest' : List Token}

/-- Nothing can be told about the two rests by a look at their first tokens. -/
def SameAhead (rest rest' : List Token) : Prop :=
  rest.head?.map Token.kind = rest'.head?.map Token.kind

/-- What the first parser does in front of one rest, the second does in front of the other one. That
goes for what they give without going into the rest, and for the blame on its first token. -/
structure UpTo (rest rest' : List Token) (p q : Parser α) : Prop where
  forward : Forward p
  ok : ∀ {front a back}, p (front ++ rest) = .ok a (back ++ rest) →
    q (front ++ rest') = .ok a (back ++ rest')
  /-- No token is unexpected that was passed before. -/
  blames : ∀ {ts k site us}, p ts = .error ⟨.unexpected k, site⟩ us → site <:+ ts
  error : ∀ {front k us}, p (front ++ rest) = .error ⟨.unexpected k, rest⟩ us →
    ∃ us', q (front ++ rest') = .error ⟨.unexpected k, rest'⟩ us'

theorem SameAhead.notAt_iff {kind : TokenKind} (h : SameAhead rest rest') :
    NotAt kind rest ↔ NotAt kind rest' := by
  cases rest <;> cases rest' <;> simp_all [SameAhead, NotAt]

theorem SameAhead.nil_iff (h : SameAhead rest rest') : rest = [] ↔ rest' = [] := by
  cases rest <;> cases rest' <;> simp_all [SameAhead]

theorem expect_eq_error_iff {kind : TokenKind} {ts us : List Token} {e : Fault} :
    expect kind ts = .error e us ↔ NotAt kind ts ∧ e = ⟨.unexpected (some kind), ts⟩ ∧ us = ts := by
  cases ts with
  | nil => simp [expect, notAt_nil, eq_comm]
  | cons t ts =>
    rw [expect, notAt_cons]
    split <;> simp_all [eq_comm]

namespace UpTo

/-- A parser that never fails. -/
theorem of_ok {p q : Parser α} (hf : Forward p)
    (hok : ∀ {front a back}, p (front ++ rest) = .ok a (back ++ rest) →
      q (front ++ rest') = .ok a (back ++ rest'))
    (hne : ∀ {ts e us}, p ts ≠ .error e us) : UpTo rest rest' p q where
  forward := hf
  ok := hok
  blames h := absurd h hne
  error h := absurd h hne

theorem pure (a : α) : UpTo rest rest' (pure a : Parser α) (pure a) := by
  refine of_ok (.pure a) (fun h => ?_) nofun
  obtain ⟨rfl, hts⟩ := pure_eq_ok_iff.1 h
  rw [List.append_cancel_right hts]
  rfl

theorem bind {p q : Parser α} {f g : α → Parser β} (h : UpTo rest rest' p q)
    (hf : ∀ a, UpTo rest rest' (f a) (g a)) : UpTo rest rest' (p >>= f) (q >>= g) where
  forward := h.forward.bind fun a => (hf a).forward
  ok hs := by
    obtain ⟨a, us, hp, hr⟩ := bind_eq_ok_iff.1 hs
    -- The second parser has not gone into the rest, so the first one has not either.
    obtain ⟨mid, rfl⟩ := (List.suffix_append _ rest).trans ((hf a).forward.ok hr)
    exact bind_eq_ok_iff.2 ⟨a, _, h.ok hp, (hf a).ok hr⟩
  blames hs := by
    rcases bind_eq_error_iff.1 hs with hp | ⟨a, us, hp, hr⟩
    · exact h.blames hp
    · exact ((hf a).blames hr).trans (h.forward.ok hp)
  error hs := by
    rcases bind_eq_error_iff.1 hs with hp | ⟨a, us, hp, hr⟩
    · obtain ⟨us', hq⟩ := h.error hp
      exact ⟨us', bind_error hq⟩
    · obtain ⟨mid, rfl⟩ := (hf a).blames hr
      obtain ⟨us', hq⟩ := (hf a).error hr
      exact ⟨us', by rw [bind_ok (h.ok hp), hq]⟩

theorem ite {c : Prop} [Decidable c] {p p' q q' : Parser α} (hp : UpTo rest rest' p q)
    (hp' : UpTo rest rest' p' q') :
    UpTo rest rest' (if c then p else p') (if c then q else q') := by
  split
  · exact hp
  · exact hp'

theorem kind? (h : SameAhead rest rest') : UpTo rest rest' kind? kind? := by
  refine of_ok forward_kind? (fun {front a back} hs => ?_) nofun
  obtain ⟨rfl, hts⟩ := kind?_eq_ok_iff.1 hs
  obtain rfl := List.append_cancel_right hts
  refine kind?_eq_ok_iff.2 ⟨?_, rfl⟩
  cases front with
  | nil => exact h.symm
  | cons t front => rfl

theorem isAt (h : SameAhead rest rest') (kind : TokenKind) :
    UpTo rest rest' (isAt kind) (isAt kind) := by
  refine of_ok (forward_isAt kind) (fun {front a back} hs => ?_) nofun
  obtain ⟨hts, hb⟩ := isAt_eq_ok_iff.1 hs
  obtain rfl := List.append_cancel_right hts
  exact isAt_eq_ok_iff.2 ⟨rfl, hb.trans (Grammar.notAt_append_congr h.notAt_iff front)⟩

theorem take (h : SameAhead rest rest') (kind : TokenKind) :
    UpTo rest rest' (take kind) (take kind) := by
  refine of_ok (forward_take kind) (fun {front a back} hs => ?_) take_ne_error
  rcases take_eq_ok_iff.1 hs with ⟨rfl, t, ht, hts⟩ | ⟨rfl, hts, hn⟩
  · obtain rfl : front = t :: back := (List.append_left_inj rest).1 hts
    exact take_of_eq ht
  · obtain rfl := List.append_cancel_right hts
    exact take_of_notAt ((Grammar.notAt_append_congr h.notAt_iff front).1 hn)

theorem fail (cause : Cause) : UpTo rest rest' (fail cause : Parser α) (fail cause) where
  forward := (consumes_fail cause).toForward
  ok h := by cases h
  blames h := by
    cases h
    exact List.suffix_refl _
  error {front k us} h := by
    simp only [Parser.fail, EStateM.Result.error.injEq, Fault.mk.injEq] at h
    obtain rfl : front = [] := (List.append_left_inj rest).1 h.1.2
    exact ⟨rest', by rw [h.1.1]; rfl⟩

theorem expect (h : SameAhead rest rest') (kind : TokenKind) :
    UpTo rest rest' (expect kind) (expect kind) where
  forward := (consumes_expect kind).toForward
  ok {front t back} hs := by
    obtain ⟨ht, hts⟩ := expect_eq_ok_iff.1 hs
    obtain rfl : front = t :: back := (List.append_left_inj rest).1 hts
    exact expect_eq_ok_iff.2 ⟨ht, rfl⟩
  blames hs := by
    obtain ⟨-, he, -⟩ := expect_eq_error_iff.1 hs
    cases he
    exact List.suffix_refl _
  error {front k us} hs := by
    obtain ⟨hn, he, -⟩ := expect_eq_error_iff.1 hs
    simp only [Fault.mk.injEq] at he
    obtain rfl : [] = front := (List.append_left_inj rest).1 he.2
    exact ⟨rest', expect_eq_error_iff.2 ⟨h.notAt_iff.1 hn, by rw [he.1]; rfl, rfl⟩⟩

theorem symbol (h : SameAhead rest rest') (s : Symbol) : UpTo rest rest' (symbol s) (symbol s) :=
  (expect h _).bind fun _ => .pure _

theorem name (h : SameAhead rest rest') : UpTo rest rest' name name :=
  (expect h _).bind fun _ => .pure _

theorem skip (h : SameAhead rest rest') : UpTo rest rest' skip skip := by
  refine of_ok forward_skip (fun {front a back} hs => ?_) nofun
  have hts : (front ++ rest).tail = back ++ rest := by
    simpa [Parser.skip] using hs
  cases front with
  | nil =>
    -- Only where nothing is left does the step go nowhere.
    have hlength := congrArg List.length hts
    simp only [List.nil_append, List.length_tail, List.length_append] at hlength
    obtain rfl : rest = [] := List.length_eq_zero_iff.1 (by omega)
    obtain rfl : back = [] := List.length_eq_zero_iff.1 (by simp at hlength; omega)
    obtain rfl := h.nil_iff.1 rfl
    rfl
  | cons t front =>
    obtain rfl : front = back := (List.append_left_inj rest).1 hts
    rfl

theorem iterate {step step' : σ → Parser (Option σ)}
    (h : ∀ s, UpTo rest rest' (step s) (step' s)) (clock : List Token) (s : σ) :
    UpTo rest rest' (iterate step clock s) (iterate step' clock s) :=
  related_iterate (R := UpTo rest rest') .pure .bind h rfl s

/-- Two loops over inputs of different length are compared under one clock that is long enough for
both. -/
theorem loop {step step' : σ → Parser (Option σ)} (ha : Advances step) (ha' : Advances step')
    (h : ∀ s, UpTo rest rest' (step s) (step' s)) (s : σ) :
    UpTo rest rest' (loop step s) (loop step' s) := by
  have hclock : ∀ front, ∃ clock,
      Parser.loop step s (front ++ rest) = Parser.iterate step clock s (front ++ rest) ∧
      Parser.loop step' s (front ++ rest') = Parser.iterate step' clock s (front ++ rest') := by
    intro front
    refine ⟨front ++ rest ++ rest', iterate_clock ha _ _ _ _ ?_ ?_, iterate_clock ha' _ _ _ _ ?_ ?_⟩
      <;> simp only [List.length_append] <;> omega
  refine ⟨forward_loop (fun s => (h s).forward) s, fun {front r back} hs => ?_,
    (iterate h _ s).blames, fun {front k us} hs => ?_⟩
  · obtain ⟨clock, hp, hq⟩ := hclock front
    rw [hp] at hs
    rw [hq, (iterate h clock s).ok hs]
  · obtain ⟨clock, hp, hq⟩ := hclock front
    rw [hp] at hs
    rw [hq]
    exact (iterate h clock s).error hs

theorem many {item item' : Parser (Option α)} (ha : ItemAdvances item) (ha' : ItemAdvances item')
    (h : UpTo rest rest' item item') : UpTo rest rest' (many item) (many item') :=
  (loop (advances_collect ha) (advances_collect ha') (fun _ => h.bind fun _ => .pure _) []).bind
    fun _ => .pure _

theorem commaList (hs : SameAhead rest rest') (close : TokenKind) {item item' : Parser α}
    (h : UpTo rest rest' item item') (hf : Forward item') :
    UpTo rest rest' (commaList close item) (commaList close item') := by
  have hnext : UpTo rest rest' (nextItem close item) (nextItem close item') :=
    (take hs _).bind fun _ => .ite
      ((isAt hs _).bind fun _ => .ite (.pure _) (h.bind fun _ => .pure _)) (.pure _)
  have hmore := many (itemAdvances_nextItem close h.forward) (itemAdvances_nextItem close hf) hnext
  exact (isAt hs _).bind fun _ => .ite (.pure _) (h.bind fun _ => hmore.bind fun _ => .pure _)

end UpTo

end FrontEnd.Parser

namespace FrontEnd.Parse

open FrontEnd.Parser FrontEnd.Grammar FrontEnd.Program

section Inner

variable {rest rest' : List Token} {inner : Inner}

structure InnerUpTo (rest rest' : List Token) (inner : Inner) : Prop where
  expr : ∀ floor, UpTo rest rest' (inner.expr floor) (inner.expr floor)
  child : UpTo rest rest' inner.child inner.child

theorem upTo_typeRef (hs : SameAhead rest rest') : UpTo rest rest' typeRef typeRef :=
  (UpTo.symbol hs _).bind fun _ => (UpTo.name hs).bind fun _ =>
    (UpTo.many itemAdvances_star itemAdvances_star ((UpTo.take hs _).bind fun _ => .pure _)).bind
      fun _ => .pure _

theorem upTo_link (hs : SameAhead rest rest') (h : InnerUpTo rest rest' inner) (name : String) :
    UpTo rest rest' (link inner name) (link inner name) := by
  refine (UpTo.take hs _).bind fun _ => .ite ?_ ((UpTo.take hs _).bind fun _ => .ite ?_ ?_)
  · exact (UpTo.commaList hs _ (h.expr 0) (h.expr 0).forward).bind fun _ =>
      (UpTo.symbol hs _).bind fun _ => h.child.bind fun _ => .pure _
  · exact (h.expr 0).bind fun _ => (UpTo.symbol hs _).bind fun _ => h.child.bind fun _ => .pure _
  · exact h.child.bind fun _ => .pure _

theorem upTo_childBy (hs : SameAhead rest rest') {link : String → Parser Expr}
    (h : ∀ name, UpTo rest rest' (link name) (link name)) :
    UpTo rest rest' (childBy link) (childBy link) :=
  (UpTo.take hs _).bind fun _ => .ite
    ((UpTo.name hs).bind fun name => (h name).bind fun _ => .pure _) (.pure _)

/-- A number out of range is no unexpected token. -/
theorem upTo_literal (site site' : List Token) (text : String) (value? : Option Literal) :
    UpTo rest rest' (literal site text value?) (literal site' text value?) := by
  cases value? with
  | none => exact ⟨(consumes_failAt _ _).toForward, nofun, nofun, nofun⟩
  | some value => exact .pure _

/-- No expression starts at the current token. -/
def Stray (ts : List Token) : Prop :=
  ∀ t ∈ ts.head?, startsExpr t.kind = false

theorem Stray.of_sameAhead (h : Stray rest) (hs : SameAhead rest rest') : Stray rest' := by
  cases rest <;> cases rest' <;> simp_all [Stray, SameAhead]

theorem operand_of_stray {ts : List Token} (h : Stray ts) (inner : Inner) :
    operand inner ts = .error ⟨.unexpected none, ts⟩ ts.tail := by
  cases ts with
  | nil => rfl
  | cons t ts =>
    have ht : startsExpr t.kind = false := h t rfl
    have hat : operandAt inner (t :: ts) t = failAt (t :: ts) (.unexpected none) := by
      unfold operandAt
      split <;> simp_all [startsExpr]
    rw [operand, hat]
    rfl

theorem stray_or_starts (ts : List Token) :
    Stray ts ∨ ∃ t us, ts = t :: us ∧ startsExpr t.kind = true := by
  cases ts with
  | nil => exact .inl nofun
  | cons t us =>
    cases ht : startsExpr t.kind with
    | false => exact .inl (by simpa [Stray] using ht)
    | true => exact .inr ⟨t, us, rfl, ht⟩

/-- Behind a token that starts an expression, no blame goes back to that token. -/
theorem upTo_operandAt (hs : SameAhead rest rest') (h : InnerUpTo rest rest' inner) {t : Token}
    (ht : startsExpr t.kind = true) (site site' : List Token) :
    UpTo rest rest' (operandAt inner site t) (operandAt inner site' t) := by
  have hunary := h.expr unaryPower
  unfold operandAt
  split
  · exact upTo_literal _ _ _ _
  · exact upTo_literal _ _ _ _
  · exact .pure _
  · exact .pure _
  · exact .pure _
  · exact .pure _
  · exact (h.expr 0).bind fun _ => (UpTo.symbol hs _).bind fun _ => .pure _
  · exact hunary.bind fun _ => .pure _
  · exact hunary.bind fun _ => .pure _
  · exact (UpTo.name hs).bind fun _ => (upTo_typeRef hs).bind fun _ => .pure _
  · exact h.child.bind fun _ => .pure _
  · exact (UpTo.name hs).bind fun _ => h.child.bind fun _ => .pure _
  · exact upTo_link hs h _
  · simp_all [startsExpr]

theorem upTo_operand (hs : SameAhead rest rest') (h : InnerUpTo rest rest' inner)
    (hf : InnerForward inner) : UpTo rest rest' (operand inner) (operand inner) where
  forward := (consumes_operand hf).toForward
  ok {front e back} hp := by
    rcases stray_or_starts (front ++ rest) with hstray | ⟨t, ts, heq, ht⟩
    · rw [operand_of_stray hstray] at hp
      cases hp
    · cases front with
      | nil =>
        -- The operand would take the first token of the rest.
        have hlt := (consumes_operand hf).shrinks hp
        simp only [List.nil_append, List.length_append] at hlt
        omega
      | cons u front =>
        cases heq
        exact (upTo_operandAt hs h ht _ _).ok hp
  blames {ts k site us} hp := by
    rcases stray_or_starts ts with hstray | ⟨t, ts, rfl, ht⟩
    · rw [operand_of_stray hstray] at hp
      cases hp
      exact List.suffix_refl _
    · have hsite := (upTo_operandAt hs h ht (t :: ts) (t :: ts)).blames hp
      exact hsite.trans (List.suffix_cons t ts)
  error {front k us} hp := by
    rcases stray_or_starts (front ++ rest) with hstray | ⟨t, ts, heq, ht⟩
    · rw [operand_of_stray hstray] at hp
      simp only [EStateM.Result.error.injEq, Fault.mk.injEq] at hp
      obtain rfl : front = [] := (List.append_left_inj rest).1 hp.1.2
      exact ⟨_, hp.1.1 ▸ operand_of_stray (hstray.of_sameAhead hs) inner⟩
    · cases front with
      | nil =>
        obtain rfl : rest = t :: ts := heq
        have hsite := (upTo_operandAt hs h ht _ (t :: ts)).blames hp
        exact absurd hsite.length_le (by simp)
      | cons u front =>
        cases heq
        exact (upTo_operandAt hs h ht _ _).error hp

theorem upTo_extend (hs : SameAhead rest rest') (h : InnerUpTo rest rest' inner) (floor : Nat)
    (lhs : Expr) : UpTo rest rest' (extend inner floor lhs) (extend inner floor lhs) := by
  refine (UpTo.kind? hs).bind fun k? => ?_
  cases k?.bind binding? with
  | none => exact .pure _
  | some b =>
    exact .ite (.pure _) ((UpTo.skip hs).bind fun _ => (h.expr _).bind fun _ => .pure _)

theorem upTo_operands (hs : SameAhead rest rest') (h : InnerUpTo rest rest' inner)
    (hf : InnerForward inner) (floor : Nat) :
    UpTo rest rest' (operands inner floor) (operands inner floor) :=
  (upTo_operand hs h hf).bind fun _ =>
    UpTo.loop (advances_extend hf) (advances_extend hf) (upTo_extend hs h floor) _

theorem innerUpTo_level (hs : SameAhead rest rest') (n : Nat) :
    InnerUpTo rest rest' (level n) := by
  induction n with
  | zero => exact ⟨fun _ => .fail _, upTo_childBy hs fun _ => .fail _⟩
  | succ n ih => exact ⟨upTo_operands hs ih (innerForward_level n), upTo_childBy hs (upTo_link hs ih)⟩

end Inner

/-- An expression that ends in front of something ends also with the input. -/
theorem expr_of_front {n : Nat} {front rest : List Token} {e : Expr}
    (h : expr n (front ++ rest) = .ok e rest) : expr n front = .ok e [] := by
  obtain ⟨f, hts, rfl, hn⟩ := exprSound_expr n _ _ _ h
  obtain rfl : front = f.tokens := List.append_cancel_right hts
  have hy : Yields (1 + f.1.nesting ≤ n) (expr n (f.1.tokens ++ [])) (.ok f.1.value []) :=
    yields_expr (readBack f.1) (Nat.zero_le _) (follows_nil _) f.2 (stops_nil _)
  rw [List.append_nil] at hy
  exact hy.fit hn

/-- What is read as a block is a block in front of anything. -/
theorem block_of_front {n : Nat} {front rest rest' : List Token} {ss : List Statement}
    (h : block n (front ++ rest) = .ok ss rest) : block n (front ++ rest') = .ok ss rest' := by
  obtain ⟨f, hts, rfl, hn⟩ := (bodySound_level n).block h
  obtain rfl : front = f.tokens := List.append_cancel_right hts
  exact (formReadBack f n rest').fit hn

namespace Entry

section Ahead

variable {source source' : String} {tokens tokens' front rest rest' : List Token} {i d : Nat}

/-- The token behind what is read may be left out, or replaced by one of its kind. -/
theorem ok_of_ahead (entry : Entry) {n : Nat} {tree : entry.Tree}
    (h : entry.parser n (front ++ rest) = .ok tree rest)
    (hr : ∀ t' ∈ rest'.head?, ∃ t ∈ rest.head?, t'.kind = t.kind) :
    entry.parser n (front ++ rest') = .ok tree rest' := by
  have hend : rest = [] → rest' = [] := by
    rintro rfl
    cases rest' with
    | nil => rfl
    | cons t' rest' => simpa using hr t' rfl
  cases entry with
  | expr =>
    cases rest' with
    | nil =>
      rw [List.append_nil]
      exact expr_of_front h
    | cons t' rest' =>
      obtain ⟨t, ht, hk⟩ := hr t' rfl
      have hs : SameAhead rest (t' :: rest') := by
        rw [SameAhead, Option.mem_def.1 ht, List.head?_cons, Option.map_some, Option.map_some, hk]
      have hread : Parse.expr n (front ++ rest) = .ok tree ([] ++ rest) := h
      have hother := ((innerUpTo_level hs n).expr 0).ok hread
      exact hother
  | block => exact block_of_front h
  | statements =>
    obtain ⟨rfl, -⟩ := exists_itemsForm h
    rw [hend rfl]
    exact h
  | script =>
    obtain ⟨rfl, -⟩ := exists_scriptForm h
    rw [hend rfl]
    exact h

theorem readFrom_of_ok (entry : Entry) {tree : entry.Tree} (hts : tokens.drop i = front ++ rest)
    (h : entry.startedAt d (front ++ rest) = .ok tree rest) :
    entry.readFrom source tokens i d = (.ok tree, ⟨source, i + front.length, rest⟩) := by
  simp only [readFrom, Session.run, hts, h, Session.goTo, List.length_append, Nat.add_sub_cancel]

theorem exists_front_of_readFrom (entry : Entry) {tree : entry.Tree} {after : Session}
    (h : entry.readFrom source tokens i d = (.ok tree, after)) :
    ∃ front, tokens.drop i = front ++ after.rest ∧ after.passed = i + front.length ∧
      entry.startedAt d (front ++ after.rest) = .ok tree after.rest := by
  have hp : entry.startedAt d (tokens.drop i) = .ok tree after.rest := eq_ok_of_run h
  obtain ⟨front, hfront⟩ := (entry.cutShort_startedAt (Nat.le_refl d)).forward.ok hp
  rw [← hfront] at hp
  have hsession := h.symm.trans (readFrom_of_ok entry hfront.symm hp)
  exact ⟨front, hfront.symm, congrArg (fun r => r.2.passed) hsession, hp⟩

/-- Tokens that agree up to a place behind index `i` have the same front between the two. -/
theorem drop_eq_of_take_eq (hts : tokens.drop i = front ++ rest)
    (h : tokens'.take (i + front.length) = tokens.take (i + front.length)) :
    tokens'.drop i = front ++ tokens'.drop (i + front.length) := by
  calc tokens'.drop i
    _ = (tokens'.drop i).take front.length ++ (tokens'.drop i).drop front.length :=
      (List.take_append_drop _ _).symm
    _ = (tokens.drop i).take front.length ++ tokens'.drop (i + front.length) := by
      rw [List.take_drop, List.take_drop, h, List.drop_drop]
    _ = front ++ tokens'.drop (i + front.length) := by
      rw [hts, List.take_left]

end Ahead

/-- What is read depends only on the tokens it takes. If a reading from index `i` on gives a tree and
stops at index `j`, then the tokens cut off at `j` give that tree and are used up; and so do any
tokens that agree with them in front of `j` and have there, if anything, a token of the same kind as
before: they give that tree, and the reading stops at `j`. -/
theorem tree_of_passed (entry : Entry) {source : String} {tokens : List Token} {i d : Nat}
    {tree : entry.Tree} {after : Session}
    (h : entry.readFrom source tokens i d = (.ok tree, after)) :
    entry.readFrom source (tokens.take after.passed) i d =
      (.ok tree, ⟨source, after.passed, []⟩) ∧
    ∀ source' tokens', tokens'.take after.passed = tokens.take after.passed →
      (∀ t' ∈ tokens'[after.passed]?, ∃ t ∈ tokens[after.passed]?, t'.kind = t.kind) →
      entry.readFrom source' tokens' i d =
        (.ok tree, ⟨source', after.passed, tokens'.drop after.passed⟩) := by
  obtain ⟨front, hts, hpassed, hp⟩ := entry.exists_front_of_readFrom h
  have hrest : after.rest = tokens.drop after.passed := by
    rw [hpassed, ← List.drop_drop, hts, List.drop_left]
  have hall : ∀ source' tokens', tokens'.take after.passed = tokens.take after.passed →
      (∀ t' ∈ tokens'[after.passed]?, ∃ t ∈ tokens[after.passed]?, t'.kind = t.kind) →
      entry.readFrom source' tokens' i d =
        (.ok tree, ⟨source', after.passed, tokens'.drop after.passed⟩) := by
    intro source' tokens' htake hkind
    rw [hpassed] at htake
    have hdrop := drop_eq_of_take_eq hts htake
    rw [hpassed]
    refine entry.readFrom_of_ok hdrop (entry.ok_of_ahead hp ?_)
    rw [hrest, List.head?_drop, List.head?_drop, ← hpassed]
    exact hkind
  refine ⟨?_, hall⟩
  have hcut := hall source (tokens.take after.passed) (by rw [List.take_take, Nat.min_self]) ?_
  · rw [hcut, List.drop_eq_nil_of_le (List.length_take_le _ _)]
  · rw [List.getElem?_eq_none (List.length_take_le _ _)]
    exact nofun

/-- The tokens `= local p #T* + f(1) x`. -/
def declaredSum : List Token :=
  [⟨.symbol .assign, "=", 0⟩, ⟨.keyword .localKw, "local", 2⟩, ⟨.name, "p", 8⟩,
    ⟨.symbol .hash, "#", 10⟩, ⟨.name, "T", 11⟩, ⟨.symbol .star, "*", 12⟩, ⟨.symbol .plus, "+", 14⟩,
    ⟨.name, "f", 16⟩, ⟨.symbol .openParen, "(", 17⟩, ⟨.int, "1", 18⟩, ⟨.symbol .closeParen, ")", 19⟩,
    ⟨.name, "x", 21⟩]

/-- The tokens `{ if x { } } else`. -/
def branchInside : List Token :=
  [⟨.symbol .openBrace, "\x7b", 0⟩, ⟨.keyword .ifKw, "if", 2⟩, ⟨.name, "x", 5⟩,
    ⟨.symbol .openBrace, "\x7b", 7⟩, ⟨.symbol .closeBrace, "\x7d", 9⟩,
    ⟨.symbol .closeBrace, "\x7d", 11⟩, ⟨.keyword .elseKw, "else", 13⟩]

/-- Behind the sum any other name may follow, and then a star. The `else` is not that of the `if`
inside the block, so that is read in front of it as it is in front of nothing. -/
theorem tree_of_passed_declaredSum :
    ∃ sum body,
      readFrom .expr "" declaredSum 1 0 = (.ok sum, ⟨"", 11, declaredSum.drop 11⟩) ∧
      readFrom .expr "" (declaredSum.take 11) 1 0 = (.ok sum, ⟨"", 11, []⟩) ∧
      readFrom .expr "" (declaredSum.take 11 ++ [⟨.name, "y", 0⟩, ⟨.symbol .star, "*", 1⟩]) 1 0 =
        (.ok sum, ⟨"", 11, [⟨.name, "y", 0⟩, ⟨.symbol .star, "*", 1⟩]⟩) ∧
      readFrom .block "" branchInside 0 0 = (.ok body, ⟨"", 6, branchInside.drop 6⟩) ∧
      readFrom .block "" (branchInside.take 6) 0 0 = (.ok body, ⟨"", 6, []⟩) := by
  have hsum : readFrom .expr "" declaredSum 1 0 =
      (.ok (.binary .add (.declaration "p" ⟨"T", 1⟩) (.call "f" [.constant (.int 1)] none)),
        ⟨"", 11, declaredSum.drop 11⟩) := by rfl
  have hbody : readFrom .block "" branchInside 0 0 =
      (.ok [.branch (.var "x" none) [] none []], ⟨"", 6, branchInside.drop 6⟩) := by rfl
  obtain ⟨hcut, hother⟩ := tree_of_passed .expr hsum
  exact ⟨_, _, hsum, hcut, hother "" _ rfl (by simp [declaredSum]), hbody,
    (tree_of_passed .block hbody).1⟩

end Entry

theorem finish_eq_ok_iff {ts us : List Token} {u : Unit} :
    finish ts = .ok u us ↔ ts = [] ∧ us = [] := by
  cases ts <;> simp [finish, eq_comm]

section Braces

variable {n : Nat} {opening : Mark .openBrace} {closing : Mark .closeBrace} {w : List Token}
variable {ss : List Statement}

theorem wholeStatements_eq_ok_iff :
    Reading.parser .statements n w = .ok ss [] ↔ statements n w = .ok ss [] := by
  constructor
  · intro h
    obtain ⟨ss', us, hs, hrest⟩ := bind_eq_ok_iff.1 h
    obtain ⟨_, vs, hf, hp⟩ := bind_eq_ok_iff.1 hrest
    obtain ⟨rfl, rfl⟩ := finish_eq_ok_iff.1 hf
    obtain ⟨rfl, -⟩ := pure_eq_ok_iff.1 hp
    exact hs
  · intro h
    exact (bind_ok h).trans rfl

/-- Braces around statements take one level, and change nothing else. -/
theorem braced_iff_bare :
    block (n + 1) (opening.1 :: w ++ [closing.1]) = .ok ss [] ↔
      Reading.parser .statements n w = .ok ss [] := by
  rw [wholeStatements_eq_ok_iff]
  constructor
  · intro h
    obtain ⟨f, hts, rfl, hn⟩ := (bodySound_level (n + 1)).block h
    cases f with
    | braces opening' body closing' =>
      obtain rfl : w = body.tokens := by
        simp only [Form.tokens, List.append_nil, List.cons_append, List.cons.injEq] at hts
        exact (List.append_inj' hts.2 rfl).1
      have hy : Yields (body.levels ≤ n) (statements n (body.tokens ++ [])) (.ok body.value []) :=
        yields_items (formReadBack body) .ending
      rw [List.append_nil] at hy
      refine hy.fit ?_
      rw [Form.levels] at hn
      omega
  · intro h
    obtain ⟨-, f, rfl, rfl, hn⟩ := exists_itemsForm h
    have hy := formReadBack (.braces opening f closing) (n + 1) []
    rw [List.append_nil] at hy
    exact hy.fit (by rw [Form.levels]; omega)

end Braces

/-- Statements are the same with braces and without. What is read up to the end of the tokens is read
as well between an opening and a closing brace, unless that is too deep; and what is read between
them is read without them, and no token is left. -/
theorem bare_and_braced_agree (n : Nat) (opening : Mark .openBrace) (closing : Mark .closeBrace)
    (w : List Token) (ss : List Statement) :
    (Reading.parser .statements n w = .ok ss [] →
      block n (opening.1 :: w ++ [closing.1]) = .ok ss [] ∨
      ∃ site, block n (opening.1 :: w ++ [closing.1]) = .error ⟨.tooDeep, site⟩ site) ∧
    (block n (opening.1 :: w ++ [closing.1]) = .ok ss [] →
      Reading.parser .statements n w = .ok ss []) := by
  -- One level more is enough for the braces, and fewer levels only cut short.
  rcases (cutShort_block (Nat.le_succ n)).agree (opening.1 :: w ++ [closing.1]) with
    heq | ⟨site, hdeep, -⟩
  · rw [heq, Nat.succ_eq_add_one, braced_iff_bare]
    exact ⟨.inl, id⟩
  · rw [hdeep]
    exact ⟨fun _ => .inr ⟨site, rfl⟩, nofun⟩

/-- The tokens `if x { } return;`. -/
def branchThenReturn : List Token :=
  [⟨.keyword .ifKw, "if", 0⟩, ⟨.name, "x", 3⟩, ⟨.symbol .openBrace, "\x7b", 5⟩,
    ⟨.symbol .closeBrace, "\x7d", 7⟩, ⟨.keyword .returnKw, "return", 9⟩,
    ⟨.symbol .semicolon, ";", 15⟩]

/-- The same in braces. -/
def branchInBraces : List Token :=
  ⟨.symbol .openBrace, "\x7b", 0⟩ :: branchThenReturn ++ [⟨.symbol .closeBrace, "\x7d", 0⟩]

/-- With one level the `if` is read without braces and is too deep in them. With two levels the
`return` behind it is its continuation both ways. -/
theorem bare_and_braced_agree_branchThenReturn :
    Reading.parser .statements 1 branchThenReturn =
      .ok [.branch (.var "x" none) [] none [.ret none]] [] ∧
    (∃ site, block 1 branchInBraces = .error ⟨.tooDeep, site⟩ site) ∧
    block 2 branchInBraces = .ok [.branch (.var "x" none) [] none [.ret none]] [] ∧
    Reading.parser .statements 2 branchThenReturn =
      .ok [.branch (.var "x" none) [] none [.ret none]] [] := by
  have hbare : Reading.parser .statements 1 branchThenReturn =
      .ok [.branch (.var "x" none) [] none [.ret none]] [] := by rfl
  have hbraced : block 2 branchInBraces =
      .ok [.branch (.var "x" none) [] none [.ret none]] [] := by rfl
  refine ⟨hbare, ?_, hbraced, (bare_and_braced_agree 2 ⟨_, rfl⟩ ⟨_, rfl⟩ _ _).2 hbraced⟩
  obtain hok | hdeep := (bare_and_braced_agree 1 ⟨⟨.symbol .openBrace, "\x7b", 0⟩, rfl⟩
    ⟨⟨.symbol .closeBrace, "\x7d", 0⟩, rfl⟩ _ _).1 hbare
  · have hdeep : block 1 branchInBraces =
        .error ⟨.tooDeep, branchInBraces.drop 2⟩ (branchInBraces.drop 2) := by rfl
    cases hok.symm.trans hdeep
  · exact hdeep

end FrontEnd.Parse
