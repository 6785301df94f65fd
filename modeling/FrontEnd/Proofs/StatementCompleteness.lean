import FrontEnd.Proofs.ExprCompleteness
import FrontEnd.Proofs.ScriptGrammar
import FrontEnd.Proofs.ScriptProgress

/-! Statements are read back from their forms: the parsers give what a form stands for if it fits
into the nesting levels, and stop because of the nesting otherwise. The induction is on the form. What
stands behind it matters in one place only, behind an `if` without an `else`. -/

namespace FrontEnd.Parse

open FrontEnd.Parser FrontEnd.Grammar FrontEnd.Program

namespace Yields

variable {α β : Type} {P Q : Prop} {want : EStateM.Result Fault (List Token) β}
  {p : Parser α} {f : α → Parser β} {ts us : List Token} {a : α}

/-- A parser whose outcome is known, and then the rest. -/
theorem after (h : p ts = .ok a us) (hf : Yields Q (f a us) want) :
    Yields Q ((p >>= f) ts) want := by
  rwa [bind_ok h]

/-- A parser that may run out of levels, and then the rest. -/
theorem seq (h : Yields P (p ts) (.ok a us)) (hf : Yields Q (f a us) want) :
    Yields (P ∧ Q) ((p >>= f) ts) want :=
  h.bind.trans hf

/-- A parser that may run out of levels, and then one whose outcome is known. -/
theorem before (h : Yields P (p ts) (.ok a us)) (hf : f a us = want) :
    Yields P ((p >>= f) ts) want :=
  hf ▸ h.bind

end Yields

theorem kind?_cons (t : Token) (ts : List Token) :
    kind? (t :: ts) = .ok (some t.kind) (t :: ts) := rfl

section Statement

variable {expr : Parser Expr} {block : Parser (List Statement)} {t : Token} {ts : List Token}

theorem statement_while (h : t.kind = .keyword .whileKw) :
    statement expr block (t :: ts) =
      (expr >>= fun c => block >>= fun body => pure (.loop c body)) ts := by
  rw [statement, bind_ok (get_apply _), bind_ok (kind?_cons t ts), h]
  exact bind_ok rfl

theorem statement_openBrace (h : t.kind = .symbol .openBrace) :
    statement expr block (t :: ts) = (block >>= fun body => pure (.block body)) (t :: ts) := by
  rw [statement, bind_ok (get_apply _), bind_ok (kind?_cons t ts), h]

theorem statement_return (h : t.kind = .keyword .returnKw) :
    statement expr block (t :: ts) =
      (returned expr >>= fun v => symbol .semicolon >>= fun _ => pure (.ret v)) ts := by
  rw [statement, bind_ok (get_apply _), bind_ok (kind?_cons t ts), h]
  exact bind_ok rfl

theorem statement_counting {s : Symbol} {make : Expr → Statement} (h : t.kind = .symbol s)
    (hs : counting? s = some make) :
    statement expr block (t :: ts) =
      (expr >>= fun target => ensureAssignable (t :: ts) target >>= fun _ =>
        symbol .semicolon >>= fun _ => pure (make target)) ts := by
  rw [statement, bind_ok (get_apply _), bind_ok (kind?_cons t ts), h]
  unfold counting? at hs
  split at hs <;> cases hs
  · exact bind_ok rfl
  · exact bind_ok rfl

/-- A statement that starts like an expression does start with one. -/
theorem statement_expr (h : startsExpr t.kind = true) :
    statement expr block (t :: ts) =
      (simpleStatement expr >>= fun s => symbol .semicolon >>= fun _ => pure s) (t :: ts) := by
  rw [statement, bind_ok (get_apply _), bind_ok (kind?_cons t ts)]
  generalize t.kind = kind at h
  unfold startsExpr at h
  split at h <;> first | rfl | cases h

theorem ensureAssignable_of_isAssignable {site : List Token} {target : Expr}
    (h : target.isAssignable = true) : ensureAssignable site target ts = .ok () ts := by
  rw [ensureAssignable, if_pos h, pure_apply]

end Statement

/-- An expression is read up to a symbol that ends it. -/
theorem yields_exprForm {n : Nat} {s : Symbol} (hs : endsExpr s = true) (f : ExprForm)
    (mark : Mark s) (rest : List Token) :
    Yields (f.levels ≤ n) (expr n (f.tokens ++ mark.1 :: rest)) (.ok f.value (mark.1 :: rest)) := by
  have hstar : NotAt (.symbol .star) (mark.1 :: rest) := by
    refine notAt_cons.2 fun hk => ?_
    cases mark.2.symm.trans hk
    cases hs
  exact yields_closed hs (readBack f.1) mark ((f.1.separated_nil_iff hstar).1 f.2)

theorem exists_first_of_exprForm (f : ExprForm) :
    ∃ t ts, f.tokens = t :: ts ∧ startsExpr t.kind = true :=
  exists_first f.1

section Simple

variable {n : Nat} {rest : List Token}

theorem yields_assign (target : ExprForm) (ht : target.value.isAssignable = true)
    (mark : Mark .assign) (value : ExprForm) (stop : Mark .semicolon) :
    Yields (target.levels ≤ n ∧ value.levels ≤ n)
      (simpleStatement (expr n) (target.tokens ++ mark.1 :: (value.tokens ++ stop.1 :: rest)))
      (.ok (.assignment target.value value.value) (stop.1 :: rest)) := by
  refine .after (get_apply _) (.seq (yields_exprForm rfl target mark _) ?_)
  refine .after (take_of_eq mark.2) ?_
  rw [if_pos rfl]
  exact .after (ensureAssignable_of_isAssignable ht) (yields_exprForm rfl value stop _).bind

/-- What a counting symbol is not: an assignment. -/
theorem notAt_assign_of_counting? {s : Symbol} {make : Expr → Statement}
    (h : counting? s = some make) (mark : Mark s) (ts : List Token) :
    endsExpr s = true ∧ NotAt (.symbol .assign) (mark.1 :: ts) := by
  unfold counting? at h
  split at h <;> cases h
  · exact ⟨rfl, notAt_cons.2 (by simp)⟩
  · exact ⟨rfl, notAt_cons.2 (by simp)⟩

theorem yields_count (target : ExprForm) (ht : target.value.isAssignable = true) {s : Symbol}
    {make : Expr → Statement} (mark : Mark s) (h : counting? s = some make) :
    Yields (target.levels ≤ n) (simpleStatement (expr n) (target.tokens ++ mark.1 :: rest))
      (.ok (make target.value) rest) := by
  obtain ⟨hend, hassign⟩ := notAt_assign_of_counting? h mark rest
  refine .after (get_apply _) ?_
  refine (yields_exprForm hend target mark rest).before ?_
  rw [bind_ok (take_of_notAt hassign), if_neg (by decide)]
  unfold counting? at h
  split at h <;> cases h
  · rw [bind_ok (take_of_eq mark.2), if_pos rfl, bind_ok (ensureAssignable_of_isAssignable ht)]
    rfl
  · rw [bind_ok (take_of_notAt (notAt_cons.2 (by simp))), if_neg (by decide),
      bind_ok (take_of_eq mark.2), if_pos rfl, bind_ok (ensureAssignable_of_isAssignable ht)]
    rfl

theorem yields_bare (e : ExprForm) (stop : Mark .semicolon) :
    Yields (e.levels ≤ n) (simpleStatement (expr n) (e.tokens ++ stop.1 :: rest))
      (.ok (.ofExpr e.value) (stop.1 :: rest)) := by
  have hnot : ∀ s, s ≠ .semicolon → NotAt (.symbol s) (stop.1 :: rest) := fun s hs =>
    notAt_cons.2 (by simpa [stop.2] using hs.symm)
  refine .after (get_apply _) ?_
  refine (yields_exprForm rfl e stop rest).before ?_
  rw [bind_ok (take_of_notAt (hnot .assign (by decide))), if_neg (by decide),
    bind_ok (take_of_notAt (hnot .increment (by decide))), if_neg (by decide),
    bind_ok (take_of_notAt (hnot .decrement (by decide))), if_neg (by decide), pure_apply]

/-- A statement that starts with an expression ends with a semicolon. -/
theorem yields_simple {P : Prop} {ts : List Token} {s : Statement} (f : ExprForm)
    (stop : Mark .semicolon)
    (h : Yields P (simpleStatement (expr n) (f.tokens ++ ts)) (.ok s (stop.1 :: rest))) :
    Yields P (statement (expr n) (block n) (f.tokens ++ ts)) (.ok s rest) := by
  obtain ⟨t, us, ht, hk⟩ := exists_first_of_exprForm f
  rw [ht, List.cons_append, statement_expr hk, ← List.cons_append, ← ht]
  exact h.bind_symbol

theorem yields_return (value : ExprForm) (stop : Mark .semicolon) :
    Yields (value.levels ≤ n) (returned (expr n) (value.tokens ++ stop.1 :: rest))
      (.ok (some value.value) (stop.1 :: rest)) := by
  obtain ⟨t, ts, ht, hk⟩ := exists_first_of_exprForm value
  have hnot : NotAt (.symbol .semicolon) (value.tokens ++ stop.1 :: rest) := by
    rw [ht, List.cons_append]
    refine notAt_cons.2 fun hs => ?_
    rw [hs] at hk
    cases hk
  refine .after (isAt_of_notAt hnot) ?_
  exact (yields_exprForm rfl value stop rest).bind

end Simple

def startsStatement (kind : TokenKind) : Bool :=
  startsExpr kind || kind = .keyword .whileKw || kind = .keyword .returnKw ||
    kind = .symbol .openBrace || kind = .symbol .increment || kind = .symbol .decrement

theorem startsStatement_of_expr (f : ExprForm) (ts : List Token) :
    ∃ t us, f.tokens ++ ts = t :: us ∧ startsStatement t.kind = true := by
  obtain ⟨t, us, ht, hk⟩ := exists_first_of_exprForm f
  exact ⟨t, us ++ ts, by rw [ht, List.cons_append], by simp [startsStatement, hk]⟩

/-- A clause starts with a token that tells what it is. -/
theorem exists_first_of_form {c : Clause} (f : Form c) :
    match c with
    | .statement => ∃ t ts, f.tokens = t :: ts ∧ startsStatement t.kind = true
    | .branches => ∃ t ts, f.tokens = t :: ts ∧ t.kind = .keyword .ifKw
    | .block => ∃ t ts, f.tokens = t :: ts ∧ t.kind = .symbol .openBrace
    | .items => True := by
  induction f with
  | whileLoop mark condition body ih => exact ⟨_, _, rfl, by simp [startsStatement]⟩
  | inner body ih =>
    obtain ⟨t, ts, ht, hk⟩ := ih
    exact ⟨t, ts, ht, by simp [startsStatement, hk]⟩
  | ret mark value stop =>
    cases value with
    | none => exact ⟨_, _, rfl, by simp [startsStatement]⟩
    | some value => exact ⟨_, _, rfl, by simp [startsStatement]⟩
  | countFirst mark h target ht stop =>
    refine ⟨_, _, rfl, ?_⟩
    unfold counting? at h
    split at h <;> cases h <;> simp [startsStatement]
  | countLast target ht mark h stop => exact startsStatement_of_expr target _
  | assign target ht mark value stop =>
    simp only [Form.tokens, List.append_assoc]
    exact startsStatement_of_expr target _
  | bare e stop => exact startsStatement_of_expr e _
  | ifOnly mark condition thenPart ih => exact ⟨_, _, rfl, mark.2⟩
  | ifElse mark condition thenPart mark' elsePart iht ihe => exact ⟨_, _, rfl, mark.2⟩
  | ifElseIf mark condition thenPart mark' elsePart iht ihe => exact ⟨_, _, rfl, mark.2⟩
  | braces opening body closing ih => exact ⟨_, _, rfl, opening.2⟩
  | _ => trivial

/-- Where a statement list ends: with the input, or at a closing brace. -/
inductive Closes : Option TokenKind → List Token → Prop
  | ending : Closes none []
  | brace (closing : Mark .closeBrace) (ts : List Token) :
      Closes (some (.symbol .closeBrace)) (closing.1 :: ts)

section Items

variable {n : Nat} {close : Option TokenKind} {rest : List Token}

theorem Closes.ne_some {kind : TokenKind} (h : Closes close rest)
    (hk : kind ≠ .symbol .closeBrace) : close ≠ some kind := by
  cases h with
  | ending => simp
  | brace closing ts => simpa using hk.symm

theorem item_of_closes {expr : Parser Expr} {inner : InnerBody} (h : Closes close rest) :
    item expr inner close rest = .ok none rest := by
  cases h with
  | ending => rfl
  | brace closing ts =>
    rw [item, bind_ok (kind?_cons closing.1 ts), closing.2]
    rfl

theorem item_statement {expr : Parser Expr} {inner : InnerBody} {t : Token} {ts : List Token}
    (h : Closes close rest) (hk : startsStatement t.kind = true) :
    item expr inner close (t :: ts) =
      (statement expr inner.block >>= fun s => pure (some (.plain s))) (t :: ts) := by
  have hclose : t.kind ≠ .symbol .closeBrace := by
    intro ht
    simp [ht, startsStatement, startsExpr] at hk
  have hif : t.kind ≠ .keyword .ifKw := by
    intro ht
    simp [ht, startsStatement, startsExpr] at hk
  rw [item, bind_ok (kind?_cons t ts)]
  simp only [if_neg (h.ne_some hclose), if_neg hif]

theorem item_if {expr : Parser Expr} {inner : InnerBody} {t : Token} {ts : List Token}
    (h : Closes close rest) (hk : t.kind = .keyword .ifKw) :
    item expr inner close (t :: ts) =
      (branches expr inner >>= fun b => pure (some (.branches b))) (t :: ts) := by
  have hclose : close ≠ some (.keyword .ifKw) := h.ne_some (by decide)
  rw [item, bind_ok (kind?_cons t ts), hk]
  simp only [if_neg hclose, if_true]

/-- No `else` stands behind an `if` that has none: neither an item nor the end of a list is one. -/
theorem notAt_else_of_items (f : Form .items) (h : Closes close rest) :
    NotAt (.keyword .elseKw) (f.tokens ++ rest) := by
  cases f with
  | noItems =>
    cases h with
    | ending => exact notAt_nil _
    | brace closing ts => exact notAt_cons.2 (by simp)
  | plain s g =>
    obtain ⟨t, ts, ht, hk⟩ := exists_first_of_form s
    rw [Form.tokens, ht]
    refine notAt_cons.2 fun he => ?_
    simp [he, startsStatement, startsExpr] at hk
  | branch b g =>
    obtain ⟨t, ts, ht, hk⟩ := exists_first_of_form b
    rw [Form.tokens, ht]
    exact notAt_cons.2 (by simp [hk])

end Items

/-- What the parsers make of a clause. A list is read as items, which make up its statements. -/
def FormReadBack : (c : Clause) → Form c → Prop
  | .statement, f => ∀ n rest,
      Yields (f.levels ≤ n) (statement (expr n) (block n) (f.tokens ++ rest)) (.ok f.value rest)
  | .branches, f => ∀ n rest, NotAt (.keyword .elseKw) rest →
      Yields (f.levels ≤ n) (branches (expr n) (bodyLevel n) (f.tokens ++ rest))
        (.ok f.value rest)
  | .items, f => ∃ items, Item.assemble items = f.value ∧ ∀ n close rest, Closes close rest →
      Yields (f.levels ≤ n) (many (item (expr n) (bodyLevel n) close) (f.tokens ++ rest))
        (.ok items rest)
  | .block, f => ∀ n rest,
      Yields (f.levels ≤ n) (block n (f.tokens ++ rest)) (.ok f.value rest)

/-- A list of statements is read up to where it ends. -/
theorem yields_items {f : Form .items} (hf : FormReadBack .items f) {n : Nat}
    {close : Option TokenKind} {rest : List Token} (h : Closes close rest) :
    Yields (f.levels ≤ n) (statementsUntil (expr n) (bodyLevel n) close (f.tokens ++ rest))
      (.ok f.value rest) := by
  obtain ⟨items, hv, hy⟩ := hf
  rw [← hv]
  exact (hy n close rest h).bind

/-- A block takes a level. -/
theorem readBack_braces {body : Form .items} (opening : Mark .openBrace)
    (closing : Mark .closeBrace) (ih : FormReadBack .items body) :
    FormReadBack .block (.braces opening body closing) := by
  intro n rest
  cases n with
  | zero =>
    refine ⟨fun h => ?_, fun _ => ⟨_, rfl⟩⟩
    rw [Form.levels] at h
    omega
  | succ n =>
    have hbody : Yields (body.levels ≤ n) _ _ := yields_items ih (.brace closing rest)
    rw [Form.tokens, List.cons_append, List.cons_append, List.append_assoc]
    refine Yields.congr (.after (symbol_of_eq opening.2) hbody.bind_symbol) ?_
    rw [Form.levels]
    omega

/-- The `if` behind an `else` takes a level as well. -/
theorem yields_elseIf {f : Form .branches} (hf : FormReadBack .branches f) {n : Nat}
    {rest : List Token} (h : NotAt (.keyword .elseKw) rest) :
    Yields (1 + f.levels ≤ n) ((bodyLevel n).elseIf (f.tokens ++ rest)) (.ok f.value rest) := by
  cases n with
  | zero => exact ⟨fun h => absurd h (by omega), fun _ => ⟨_, rfl⟩⟩
  | succ n => exact (hf n rest h).congr (by omega)

/-- A condition is read up to the block behind it, and then the block. -/
theorem yields_guarded {α : Type} {n : Nat} {rest : List Token} (condition : ExprForm)
    {body : Form .block} (hb : FormReadBack .block body) {Q : Prop}
    {f : Expr → List Statement → Parser α} {want : EStateM.Result Fault (List Token) α}
    (hf : Yields Q (f condition.value body.value rest) want) :
    Yields (condition.levels ≤ n ∧ body.levels ≤ n ∧ Q)
      ((expr n >>= fun c => block n >>= fun ss => f c ss)
        (condition.tokens ++ (body.tokens ++ rest))) want := by
  obtain ⟨t, ts, ht, hk⟩ := exists_first_of_form body
  have hc : Yields (condition.levels ≤ n) (expr n (condition.tokens ++ (body.tokens ++ rest)))
      (.ok condition.value (body.tokens ++ rest)) := by
    rw [ht]
    exact yields_exprForm rfl condition ⟨t, hk⟩ _
  exact hc.seq ((hb n rest).seq hf)

theorem readBack_whileLoop {body : Form .block} (mark : TokenOf (.keyword .whileKw))
    (condition : ExprForm) (ih : FormReadBack .block body) :
    FormReadBack .statement (.whileLoop mark condition body) := by
  intro n rest
  rw [Form.tokens, List.cons_append, List.cons_append, List.append_assoc, statement_while mark.2]
  refine Yields.congr (yields_guarded (Q := True) condition ih (.of_eq trivial rfl)) ?_
  simp only [Form.levels, Nat.max_le, and_true]

theorem readBack_countFirst {s : Symbol} {make : Expr → Statement} (mark : Mark s)
    (h : counting? s = some make) (target : ExprForm) (ht : target.value.isAssignable = true)
    (stop : Mark .semicolon) : FormReadBack .statement (.countFirst mark h target ht stop) := by
  intro n rest
  rw [Form.tokens, List.cons_append, List.cons_append, List.append_assoc,
    statement_counting mark.2 h]
  refine (yields_exprForm rfl target stop rest).before ?_
  rw [bind_ok (ensureAssignable_of_isAssignable ht), bind_ok (symbol_of_eq stop.2)]
  rfl

theorem readBack_ret (mark : TokenOf (.keyword .returnKw)) (value : Option ExprForm)
    (stop : Mark .semicolon) : FormReadBack .statement (.ret mark value stop) := by
  intro n rest
  cases value with
  | none =>
    have hr : returned (expr n) (stop.1 :: rest) = .ok none (stop.1 :: rest) := by
      rw [returned, bind_ok (isAt_of_eq stop.2)]
      rfl
    refine .of_eq (Nat.zero_le _) ?_
    rw [Form.tokens, List.cons_append, statement_return mark.2]
    exact (bind_ok hr).trans (bind_ok (symbol_of_eq stop.2))
  | some value =>
    rw [Form.tokens, List.cons_append, List.cons_append, List.append_assoc,
      statement_return mark.2]
    exact (yields_return value stop).bind_symbol

theorem readBack_ifOnly {thenPart : Form .block} (mark : TokenOf (.keyword .ifKw))
    (condition : ExprForm) (ih : FormReadBack .block thenPart) :
    FormReadBack .branches (.ifOnly mark condition thenPart) := by
  intro n rest helse
  rw [Form.tokens, List.cons_append, List.cons_append, List.append_assoc]
  refine Yields.congr (.after (expect_eq_ok_iff.2 ⟨mark.2, rfl⟩)
    (yields_guarded (Q := True) condition ih (.of_eq trivial ?_))) ?_
  · rw [bind_ok (take_of_notAt helse), if_neg (by decide)]
    rfl
  · simp only [Form.levels, Nat.max_le, and_true]

theorem readBack_ifElse {thenPart elsePart : Form .block} (mark : TokenOf (.keyword .ifKw))
    (condition : ExprForm) (mark' : TokenOf (.keyword .elseKw))
    (iht : FormReadBack .block thenPart) (ihe : FormReadBack .block elsePart) :
    FormReadBack .branches (.ifElse mark condition thenPart mark' elsePart) := by
  intro n rest _
  obtain ⟨t, ts, ht, hk⟩ := exists_first_of_form elsePart
  have hif : NotAt (.keyword .ifKw) (elsePart.tokens ++ rest) := by
    rw [ht]
    exact notAt_cons.2 (by simp [hk])
  simp only [Form.tokens, List.cons_append, List.append_assoc]
  refine Yields.congr (.after (expect_eq_ok_iff.2 ⟨mark.2, rfl⟩)
    (yields_guarded (Q := elsePart.levels ≤ n) condition iht ?_)) ?_
  · refine .after (take_of_eq mark'.2) ?_
    rw [if_pos rfl]
    exact .after (isAt_of_notAt hif) (ihe n rest).bind
  · rw [Form.levels]
    omega

theorem readBack_ifElseIf {thenPart : Form .block} {elsePart : Form .branches}
    (mark : TokenOf (.keyword .ifKw)) (condition : ExprForm) (mark' : TokenOf (.keyword .elseKw))
    (iht : FormReadBack .block thenPart) (ihe : FormReadBack .branches elsePart) :
    FormReadBack .branches (.ifElseIf mark condition thenPart mark' elsePart) := by
  intro n rest helse
  obtain ⟨t, ts, ht, hk⟩ := exists_first_of_form elsePart
  have hif : isAt (.keyword .ifKw) (elsePart.tokens ++ rest) =
      .ok true (elsePart.tokens ++ rest) := by
    rw [ht]
    exact isAt_of_eq hk
  simp only [Form.tokens, List.cons_append, List.append_assoc]
  refine Yields.congr (.after (expect_eq_ok_iff.2 ⟨mark.2, rfl⟩)
    (yields_guarded (Q := 1 + elsePart.levels ≤ n) condition iht ?_)) ?_
  · refine .after (take_of_eq mark'.2) ?_
    rw [if_pos rfl]
    refine .after hif ?_
    rw [if_pos rfl]
    exact (yields_elseIf ihe helse).bind
  · rw [Form.levels]
    omega

/-- An item and the items behind it. -/
theorem yields_cons_item {P Q : Prop} {n : Nat} {close : Option TokenKind} {ts us vs : List Token}
    {i : Item} {items : List Item}
    (h : Yields P (item (expr n) (bodyLevel n) close ts) (.ok (some i) us))
    (hrest : Yields Q (many (item (expr n) (bodyLevel n) close) us) (.ok items vs)) :
    Yields (P ∧ Q) (many (item (expr n) (bodyLevel n) close) ts) (.ok (i :: items) vs) :=
  (h.many (itemAdvances_item (consumes_expr n) (bodyForward_level n) close)).trans hrest.bind

theorem readBack_plain {s : Form .statement} {rest : Form .items}
    (ih : FormReadBack .statement s) (ihr : FormReadBack .items rest) :
    FormReadBack .items (.plain s rest) := by
  obtain ⟨items, hv, hy⟩ := ihr
  obtain ⟨t, ts, ht, hk⟩ := exists_first_of_form s
  refine ⟨.plain s.value :: items, by rw [Item.assemble, hv]; rfl, fun n close tail h => ?_⟩
  have hs : Yields (s.levels ≤ n) (item (expr n) (bodyLevel n) close
      (s.tokens ++ (rest.tokens ++ tail))) (.ok (some (.plain s.value)) (rest.tokens ++ tail)) := by
    rw [ht, List.cons_append, item_statement h hk, ← List.cons_append, ← ht]
    exact (ih n _).bind
  rw [Form.tokens, List.append_assoc]
  refine (yields_cons_item hs (hy n close tail h)).congr ?_
  rw [Form.levels]
  omega

theorem readBack_branch {b : Form .branches} {rest : Form .items}
    (ih : FormReadBack .branches b) (ihr : FormReadBack .items rest) :
    FormReadBack .items (.branch b rest) := by
  obtain ⟨items, hv, hy⟩ := ihr
  obtain ⟨t, ts, ht, hk⟩ := exists_first_of_form b
  refine ⟨.branches b.value :: items, by rw [Item.assemble, hv]; rfl, fun n close tail h => ?_⟩
  have hb : Yields (b.levels ≤ n) (item (expr n) (bodyLevel n) close
      (b.tokens ++ (rest.tokens ++ tail)))
        (.ok (some (.branches b.value)) (rest.tokens ++ tail)) := by
    rw [ht, List.cons_append, item_if h hk, ← List.cons_append, ← ht]
    -- An `else` here would belong to this `if`.
    exact (ih n _ (notAt_else_of_items rest h)).bind
  rw [Form.tokens, List.append_assoc]
  refine (yields_cons_item hb (hy n close tail h)).congr ?_
  rw [Form.levels]
  omega

/-- Every clause is read back. -/
theorem formReadBack {c : Clause} (f : Form c) : FormReadBack c f := by
  induction f with
  | whileLoop mark condition body ih => exact readBack_whileLoop mark condition ih
  | inner body ih =>
    intro n rest
    obtain ⟨t, ts, ht, hk⟩ := exists_first_of_form body
    rw [Form.tokens, ht, List.cons_append, statement_openBrace hk, ← List.cons_append, ← ht]
    exact (ih n rest).bind
  | ret mark value stop => exact readBack_ret mark value stop
  | countFirst mark h target ht stop => exact readBack_countFirst mark h target ht stop
  | countLast target ht mark h stop =>
    intro n rest
    rw [Form.tokens, List.append_assoc]
    exact yields_simple target stop (yields_count target ht mark h)
  | assign target ht mark value stop =>
    intro n rest
    simp only [Form.tokens, List.cons_append, List.append_assoc]
    refine (yields_simple target stop (yields_assign target ht mark value stop)).congr ?_
    rw [Form.levels]
    omega
  | bare e stop =>
    intro n rest
    rw [Form.tokens, List.append_assoc]
    exact yields_simple e stop (yields_bare e stop)
  | ifOnly mark condition thenPart ih => exact readBack_ifOnly mark condition ih
  | ifElse mark condition thenPart mark' elsePart iht ihe =>
    exact readBack_ifElse mark condition mark' iht ihe
  | ifElseIf mark condition thenPart mark' elsePart iht ihe =>
    exact readBack_ifElseIf mark condition mark' iht ihe
  | noItems =>
    refine ⟨[], rfl, fun n close rest h => .of_eq (Nat.zero_le _) ?_⟩
    exact many_of_none (itemAdvances_item (consumes_expr n) (bodyForward_level n) close)
      (item_of_closes h)
  | plain s rest ih ihr => exact readBack_plain ih ihr
  | branch b rest ih ihr => exact readBack_branch ih ihr
  | braces opening body closing ih => exact readBack_braces opening closing ih

end FrontEnd.Parse
