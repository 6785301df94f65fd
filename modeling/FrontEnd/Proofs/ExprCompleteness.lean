import FrontEnd.Parse.Session
import FrontEnd.Proofs.ExprSteps
import FrontEnd.Proofs.Precedence

/-! Every derivation is read back. The parser gives the expression that a derivation stands for if
the derivation fits into the nesting levels, and stops because of the nesting otherwise. The
induction is on the derivation; a phrase is always read in front of a rest that cannot become part
of it, and what an expression of a layer leaves is the loop over operators with the expression as
its left operand. -/

namespace FrontEnd.Parse

open FrontEnd.Parser FrontEnd.Grammar FrontEnd.Program

variable {α β : Type}

/-- The outcome is the wanted one if the phrase fits into the levels that are left, and a stop at
the last level otherwise. -/
structure Yields (fits : Prop) (got want : EStateM.Result Fault (List Token) α) : Prop where
  fit : fits → got = want
  deep : ¬ fits → ∃ site, got = .error ⟨.tooDeep, site⟩ site

namespace Yields

variable {P Q : Prop} {got mid want : EStateM.Result Fault (List Token) α}

theorem of_eq (hP : P) (h : got = want) : Yields P got want :=
  ⟨fun _ => h, fun hn => absurd hP hn⟩

theorem congr (h : Yields P got want) (hPQ : P ↔ Q) : Yields Q got want :=
  ⟨fun hQ => h.fit (hPQ.2 hQ), fun hQ => h.deep (mt hPQ.1 hQ)⟩

/-- What comes later need only be looked at if all in front of it fits. -/
theorem trans (h1 : Yields P got mid) (h2 : Yields Q mid want) : Yields (P ∧ Q) got want where
  fit h := (h1.fit h.1).trans (h2.fit h.2)
  deep h := by
    by_cases hP : P
    · obtain ⟨site, hs⟩ := h2.deep fun hQ => h ⟨hP, hQ⟩
      exact ⟨site, (h1.fit hP).trans hs⟩
    · exact h1.deep hP

theorem bind {p : Parser α} {f : α → Parser β} {ts us : List Token} {a : α}
    (h : Yields P (p ts) (.ok a us)) : Yields P ((p >>= f) ts) (f a us) where
  fit hP := bind_ok (h.fit hP)
  deep hP := by
    obtain ⟨site, hs⟩ := h.deep hP
    exact ⟨site, bind_error hs⟩

theorem bind_symbol {p : Parser α} {f : α → Parser β} {ts us : List Token} {a : α} {s : Symbol}
    {mark : Mark s} (h : Yields P (p ts) (.ok a (mark.1 :: us))) :
    Yields P ((p >>= fun a => symbol s >>= fun _ => f a) ts) (f a us) := by
  have hb := h.bind (f := fun a => symbol s >>= fun _ => f a)
  rwa [bind_ok (symbol_of_eq mark.2)] at hb

theorem many {item : Parser (Option α)} (ha : ItemAdvances item) {ts us : List Token} {a : α}
    (h : Yields P (item ts) (.ok (some a) us)) :
    Yields P (Parser.many item ts) ((Parser.many item >>= fun as => pure (a :: as)) us) where
  fit hP := many_of_some ha (h.fit hP)
  deep hP := by
    obtain ⟨site, hs⟩ := h.deep hP
    exact ⟨site, many_of_error ha hs⟩

end Yields

/-- What may stand behind an expression of a layer without becoming part of it. -/
structure Follows (l : Layer) (rest : List Token) : Prop where
  period : NotAt (.symbol .period) rest
  paren : NotAt (.symbol .openParen) rest
  bracket : NotAt (.symbol .openBracket) rest
  operator : Stops (l.power + 1) rest

theorem follows_nil (l : Layer) : Follows l [] :=
  ⟨notAt_nil _, notAt_nil _, notAt_nil _, stops_nil _⟩

theorem Follows.mono {l l' : Layer} {rest : List Token} (h : Follows l rest)
    (hle : l.power ≤ l'.power) : Follows l' rest :=
  { h with operator := h.operator.mono (Nat.succ_le_succ hle) }

/-- An operator of the layer may follow, and so may a token that is no operator and no link. -/
theorem follows_cons {l : Layer} {s : Symbol} {t : Token} {ts : List Token}
    (h : t.kind = .symbol s) (hs : s ≠ .period ∧ s ≠ .openParen ∧ s ≠ .openBracket)
    (hb : ∀ b, binding? (.symbol s) = some b → b.left ≤ l.power) : Follows l (t :: ts) where
  period := by simp [notAt_cons, h, hs.1]
  paren := by simp [notAt_cons, h, hs.2.1]
  bracket := by simp [notAt_cons, h, hs.2.2]
  operator := by
    rw [stops_cons, h]
    exact fun b hs => Nat.lt_succ_of_le (hb b hs)

theorem follows_operator {l : Layer} {s : Symbol} {op : Operator} (h : l.operator? s = some op)
    (mark : Mark s) (ts : List Token) : Follows l (mark.1 :: ts) := by
  obtain ⟨hb, -⟩ := Layer.binding?_of_operator? h
  refine follows_cons mark.2 ?_ fun b hs => ?_
  · refine ⟨?_, ?_, ?_⟩ <;> rintro rfl <;> cases hb
  · cases hb.symm.trans hs
    exact Nat.le_refl _

/-- The symbols that are no operator and start no link, so that no expression goes on with them. -/
def endsExpr (s : Symbol) : Bool :=
  (binding? (.symbol s)).isNone && s != .period && s != .openParen && s != .openBracket

/-- Such a symbol ends every expression. -/
theorem follows_closing {s : Symbol} (hs : endsExpr s = true) (l : Layer) (mark : Mark s)
    (ts : List Token) : Follows l (mark.1 :: ts) ∧ Stops 0 (mark.1 :: ts) := by
  obtain ⟨⟨⟨hb, hp⟩, ho⟩, hk⟩ : ((binding? (.symbol s) = none ∧ s ≠ .period) ∧ s ≠ .openParen) ∧
      s ≠ .openBracket := by
    simpa [endsExpr] using hs
  refine ⟨follows_cons mark.2 ⟨hp, ho, hk⟩ ?_, ?_⟩
  · simp [hb]
  · rw [stops_cons, mark.2]
    simp [hb]

/-- Between the powers of the signs and of the power operator there is no operator. -/
theorem Follows.stops_unary {rest : List Token} (h : Follows .unary rest) :
    Stops unaryPower rest := by
  intro t ht b hb
  have hlt := h.operator t ht b hb
  rcases Layer.operator?_of_binding? hb with ⟨l, s, -, hop, hl, -⟩ | ⟨-, rfl⟩
  · have hn := (Layer.binding?_of_operator? hop).2
    cases l <;> simp [Layer.next, Layer.power] at hn hl <;> simp [unaryPower, hl]
  · simp [Layer.power] at hlt

/-- All stars behind a type name belong to it. -/
theorem many_star (stars : List (Mark .star)) {rest : List Token}
    (h : NotAt (.symbol .star) rest) :
    many star (stars.map Subtype.val ++ rest) = .ok (stars.map fun _ => ()) rest := by
  induction stars with
  | nil =>
    have hs : star rest = .ok none rest := by
      rw [star, bind_ok (take_of_notAt h)]
      rfl
    exact many_of_none itemAdvances_star hs
  | cons m stars ih =>
    have hs : star (m.1 :: (stars.map Subtype.val ++ rest)) =
        .ok (some ()) (stars.map Subtype.val ++ rest) := by
      rw [star, bind_ok (take_of_eq m.2)]
      rfl
    rw [List.map_cons, List.cons_append, many_of_some itemAdvances_star hs, bind_ok ih]
    rfl

theorem typeRef_of_form (f : TypeForm) {rest : List Token} (h : NotAt (.symbol .star) rest) :
    typeRef (f.tokens ++ rest) = .ok f.value rest := by
  rw [typeRef_eq, TypeForm.tokens, List.cons_append, List.cons_append,
    bind_ok (symbol_of_eq f.hash.2), bind_ok (name_of_eq f.name.2), bind_ok (many_star f.stars h)]
  simp [pure_apply, TypeForm.value]

theorem operand_of_literal {inner : Inner} {t : Token} {ts : List Token} {value : Literal}
    (h : literal? t = some value) : operand inner (t :: ts) = .ok (.constant value) ts := by
  unfold literal? at h
  simp only [operand, operandAt]
  split at h
  · next hk => simp only [hk, h, Parse.literal, pure_apply]
  · next hk => simp only [hk, h, Parse.literal, pure_apply]
  all_goals
    next hk =>
    cases h
    try simp only [hk, pure_apply]

def startsExpr : TokenKind → Bool
  | .name => true
  | .int => true
  | .float => true
  | .string => true
  | .keyword .trueKw => true
  | .keyword .falseKw => true
  | .keyword .nullKw => true
  | .keyword .localKw => true
  | .keyword .selfKw => true
  | .symbol .openParen => true
  | .symbol .minus => true
  | .symbol .bang => true
  | .symbol .hash => true
  | _ => false

/-- A token that is a literal starts an expression. -/
theorem startsExpr_of_literal? {t : Token} {value : Literal} (h : literal? t = some value) :
    startsExpr t.kind = true := by
  unfold literal? at h
  split at h
  case h_7 => cases h
  all_goals
    next hk => simp [hk, startsExpr]

/-- An expression starts with one of these tokens. -/
theorem exists_first {p : Phrase} (d : Derivation p) :
    match p with
    | .expr _ | .root | .link => ∃ t ts, d.tokens = t :: ts ∧ startsExpr t.kind = true
    | _ => True := by
  induction d with
  | next h d ih => exact ih
  | binary left mark h right ihl ihr =>
    obtain ⟨t, ts, ht, hk⟩ := ihl
    exact ⟨t, _, by rw [Derivation.tokens, ht, List.cons_append], hk⟩
  | power base mark exponent ihb ihe =>
    obtain ⟨t, ts, ht, hk⟩ := ihb
    exact ⟨t, _, by rw [Derivation.tokens, ht, List.cons_append], hk⟩
  | negate mark d ih => exact ⟨_, _, rfl, by simp [startsExpr]⟩
  | inverse mark d ih => exact ⟨_, _, rfl, by simp [startsExpr]⟩
  | literal h => exact ⟨_, _, rfl, startsExpr_of_literal? h⟩
  | group opening d closing ih => exact ⟨_, _, rfl, by simp [startsExpr]⟩
  | declaration mark name type => exact ⟨_, _, rfl, by simp [startsExpr]⟩
  | chain root links ihr ihl =>
    obtain ⟨t, ts, ht, hk⟩ := ihr
    exact ⟨t, _, by rw [Derivation.tokens, ht, List.cons_append], hk⟩
  | selfRoot mark => exact ⟨_, _, rfl, by simp [startsExpr]⟩
  | typeRoot hash name => exact ⟨_, _, rfl, by simp [startsExpr]⟩
  | linkRoot link ih => exact ih
  | var name => exact ⟨_, _, rfl, by simp [startsExpr]⟩
  | call name opening args closing ih => exact ⟨_, _, rfl, by simp [startsExpr]⟩
  | index name opening d closing ih => exact ⟨_, _, rfl, by simp [startsExpr]⟩
  | _ => trivial

theorem notAt_closeParen_of_expr {l : Layer} (d : Derivation (.expr l)) (rest : List Token) :
    NotAt (.symbol .closeParen) (d.tokens ++ rest) := by
  obtain ⟨t, ts, ht, hk⟩ := exists_first d
  rw [ht, List.cons_append]
  refine notAt_cons.2 fun hc => ?_
  rw [hc] at hk
  cases hk

theorem notAt_links {s : Symbol} (d : Derivation .links) {rest : List Token} (hs : s ≠ .period)
    (h : NotAt (.symbol s) rest) : NotAt (.symbol s) (d.tokens ++ rest) := by
  cases d with
  | noLinks => exact h
  | dot mark link links =>
    refine notAt_cons.2 ?_
    rw [mark.2]
    simpa using hs.symm

/-- What the parsers make of a phrase, by kind of phrase. A link is read up to its own end, and the
rest of the chain is left to the parser further in. -/
def ReadBack : (p : Phrase) → Derivation p → Prop
  | .expr l, d => ∀ n floor rest, floor ≤ l.power → Follows l rest → d.Separated rest →
      Yields (d.nesting ≤ n) (operands (level n) floor (d.tokens ++ rest))
        (loop (extend (level n) floor) d.value rest)
  | .root, d => ∀ n rest, NotAt (.symbol .openParen) rest → NotAt (.symbol .openBracket) rest →
      d.Separated rest → Yields (d.nesting ≤ n) (operand (level n) (d.tokens ++ rest))
        (((level n).child >>= fun c => pure (d.value c)) rest)
  | .link, d => ∃ t ts, d.tokens = t :: ts ∧ t.kind = .name ∧ ∀ n rest,
      NotAt (.symbol .openParen) rest → NotAt (.symbol .openBracket) rest →
      d.Separated rest → Yields (d.nesting ≤ n) (link (level n) t.text (ts ++ rest))
        (((level n).child >>= fun c => pure (d.value c)) rest)
  | .links, d => ∀ n rest, NotAt (.symbol .period) rest → NotAt (.symbol .openParen) rest →
      NotAt (.symbol .openBracket) rest → d.Separated rest →
      Yields (d.nesting ≤ n) ((level n).child (d.tokens ++ rest)) (.ok d.value rest)
  | .args, d => ∀ n (closing : Mark .closeParen) rest, d.Separated (closing.1 :: rest) →
      Yields (d.nesting ≤ n)
        (commaList (.symbol .closeParen) ((level n).expr 0) (d.tokens ++ closing.1 :: rest))
        (.ok d.value (closing.1 :: rest))
  | .moreArgs, d => ∀ n (closing : Mark .closeParen) rest, d.Separated (closing.1 :: rest) →
      Yields (d.nesting ≤ n)
        (many (nextItem (.symbol .closeParen) ((level n).expr 0)) (d.tokens ++ closing.1 :: rest))
        (.ok d.value (closing.1 :: rest))

section

variable {l : Layer} {n floor : Nat} {rest : List Token}

/-- An expression inside another one takes a level. -/
theorem yields_expr {d : Derivation (.expr l)} (hd : ReadBack (.expr l) d) (hf : floor ≤ l.power)
    (hr : Follows l rest) (hs : d.Separated rest) (hstop : Stops floor rest) :
    Yields (1 + d.nesting ≤ n) ((level n).expr floor (d.tokens ++ rest)) (.ok d.value rest) := by
  cases n with
  | zero => exact ⟨fun h => absurd h (by omega), fun _ => ⟨_, rfl⟩⟩
  | succ n =>
    have h := hd n floor rest hf hr hs
    rw [loop_of_stops (innerForward_level n) hstop] at h
    exact h.congr (by omega)

/-- The same in front of a symbol that ends it. -/
theorem yields_closed {s : Symbol} (hs : endsExpr s = true)
    {d : Derivation (.expr .or)} (hd : ReadBack (.expr .or) d) (mark : Mark s)
    (hsep : d.Separated (mark.1 :: rest)) :
    Yields (1 + d.nesting ≤ n) ((level n).expr 0 (d.tokens ++ mark.1 :: rest))
      (.ok d.value (mark.1 :: rest)) := by
  obtain ⟨hf, hstop⟩ := follows_closing hs .or mark rest
  exact yields_expr hd (Nat.zero_le _) hf hsep hstop

/-- The same under a sign, or as an exponent. -/
theorem yields_unary {d : Derivation (.expr .unary)} (hd : ReadBack (.expr .unary) d)
    (hr : Follows .unary rest) (hs : d.Separated rest) :
    Yields (1 + d.nesting ≤ n) ((level n).expr unaryPower (d.tokens ++ rest))
      (.ok d.value rest) :=
  yields_expr hd (Nat.le_refl _) hr hs hr.stops_unary

end

theorem readBack_binary {l : Layer} {s : Symbol} {op : Operator} {left : Derivation (.expr l)}
    {right : Derivation (.expr l.next)} (mark : Mark s) (h : l.operator? s = some op)
    (ihl : ReadBack _ left) (ihr : ReadBack _ right) :
    ReadBack _ (.binary left mark h right) := by
  obtain ⟨hb, hn⟩ := Layer.binding?_of_operator? h
  intro n floor rest hf hr ⟨hsl, hsr⟩
  have hleft := ihl n floor (mark.1 :: (right.tokens ++ rest)) hf (follows_operator h mark _) hsl
  have hright : Yields (1 + right.nesting ≤ n)
      ((level n).expr (l.power + 1) (right.tokens ++ rest)) (.ok right.value rest) :=
    yields_expr ihr (by omega) (hr.mono l.power_le_power_next) hsr hr.operator
  rw [← mark.2] at hb
  rw [loop_of_binding (innerForward_level n) hb hf] at hleft
  have hall := hleft.trans hright.bind
  rw [Derivation.tokens, List.append_assoc]
  refine hall.congr ?_
  rw [Derivation.nesting]
  omega

theorem readBack_power {base : Derivation (.expr .primary)} {exponent : Derivation (.expr .unary)}
    (mark : Mark .power) (ihb : ReadBack _ base) (ihe : ReadBack _ exponent) :
    ReadBack _ (.power base mark exponent) := by
  intro n floor rest hf hr ⟨hsb, hse⟩
  have hb : binding? mark.1.kind = some ⟨.exp, 12, 11⟩ := by rw [mark.2]; rfl
  have hmark : Follows .primary (mark.1 :: (exponent.tokens ++ rest)) := by
    refine follows_cons mark.2 (by decide) fun b hs => ?_
    cases hs
    exact Nat.le_refl _
  have hle : floor ≤ 12 := Nat.le_succ_of_le hf
  have hbase := ihb n floor _ hle hmark hsb
  rw [loop_of_binding (innerForward_level n) hb hle] at hbase
  have hall := hbase.trans (yields_unary ihe hr hse).bind
  rw [Derivation.tokens, List.append_assoc]
  refine hall.congr ?_
  rw [Derivation.nesting]
  omega

/-- A whole operand is the first left operand of the loop. -/
theorem readBack_of_operand {l : Layer} {d : Derivation (.expr l)}
    (h : ∀ n rest, Follows l rest → d.Separated rest →
      Yields (d.nesting ≤ n) (operand (level n) (d.tokens ++ rest)) (.ok d.value rest)) :
    ReadBack _ d :=
  fun n _ rest _ hr hs => (h n rest hr hs).bind

theorem readBack_negate {d : Derivation (.expr .unary)} (mark : Mark .minus)
    (ih : ReadBack _ d) : ReadBack _ (.negate mark d) := by
  refine readBack_of_operand fun n rest hr hs => ?_
  rw [Derivation.tokens, List.cons_append, operand_minus mark.2]
  exact (yields_unary ih hr hs).bind

theorem readBack_inverse {d : Derivation (.expr .unary)} (mark : Mark .bang)
    (ih : ReadBack _ d) : ReadBack _ (.inverse mark d) := by
  refine readBack_of_operand fun n rest hr hs => ?_
  rw [Derivation.tokens, List.cons_append, operand_bang mark.2]
  exact (yields_unary ih hr hs).bind

theorem readBack_literal {t : Token} {value : Literal} (h : literal? t = some value) :
    ReadBack _ (.literal h) :=
  readBack_of_operand fun _ _ _ _ => .of_eq (Nat.zero_le _) (operand_of_literal h)

theorem readBack_group {d : Derivation (.expr .or)} (opening : Mark .openParen)
    (closing : Mark .closeParen) (ih : ReadBack _ d) : ReadBack _ (.group opening d closing) := by
  refine readBack_of_operand fun n rest hr hs => ?_
  rw [Derivation.tokens, List.cons_append, List.cons_append, List.append_assoc,
    operand_openParen opening.2]
  exact (yields_closed rfl ih closing hs).bind_symbol

theorem readBack_declaration (mark : TokenOf (.keyword .localKw)) (name : TokenOf .name)
    (type : TypeForm) : ReadBack _ (.declaration mark name type) := by
  refine readBack_of_operand fun n rest hr hs => .of_eq (Nat.zero_le _) ?_
  rw [Derivation.tokens, List.cons_append, List.cons_append, operand_local mark.2,
    bind_ok (name_of_eq name.2), bind_ok (typeRef_of_form type hs)]
  rfl

theorem readBack_chain {root : Derivation .root} {links : Derivation .links}
    (ihr : ReadBack _ root) (ihl : ReadBack _ links) : ReadBack _ (.chain root links) := by
  refine readBack_of_operand fun n rest hr ⟨hsr, hsl⟩ => ?_
  have hroot := ihr n (links.tokens ++ rest) (notAt_links links (by decide) hr.paren)
    (notAt_links links (by decide) hr.bracket) hsr
  have hall := hroot.trans (ihl n rest hr.period hr.paren hr.bracket hsl).bind
  rw [Derivation.tokens, List.append_assoc]
  refine hall.congr ?_
  rw [Derivation.nesting]
  omega

theorem readBack_var (name : TokenOf .name) : ReadBack _ (.var name) :=
  ⟨name.1, [], rfl, name.2, fun _ _ hp hb _ => .of_eq (Nat.zero_le _) (link_of_notAt hp hb)⟩

theorem readBack_call {args : Derivation .args} (name : TokenOf .name) (opening : Mark .openParen)
    (closing : Mark .closeParen) (ih : ReadBack _ args) :
    ReadBack _ (.call name opening args closing) := by
  refine ⟨name.1, opening.1 :: (args.tokens ++ [closing.1]), rfl, name.2, fun n rest _ _ hs => ?_⟩
  rw [List.cons_append, List.append_assoc, link_openParen opening.2]
  exact (ih n closing rest hs).bind_symbol

theorem readBack_index {d : Derivation (.expr .or)} (name : TokenOf .name)
    (opening : Mark .openBracket) (closing : Mark .closeBracket) (ih : ReadBack _ d) :
    ReadBack _ (.index name opening d closing) := by
  refine ⟨name.1, opening.1 :: (d.tokens ++ [closing.1]), rfl, name.2, fun n rest _ _ hs => ?_⟩
  rw [List.cons_append, List.append_assoc, link_openBracket opening.2]
  exact (yields_closed rfl ih closing hs).bind_symbol

theorem readBack_dot {link : Derivation .link} {links : Derivation .links} (mark : Mark .period)
    (ih : ReadBack _ link) (ihl : ReadBack _ links) : ReadBack _ (.dot mark link links) := by
  obtain ⟨t, ts, ht, hk, hlink⟩ := ih
  intro n rest hd hp hb ⟨hs, hsl⟩
  simp only [Derivation.tokens, ht, List.cons_append, List.append_assoc]
  cases n with
  | zero =>
    refine ⟨fun h => ?_, fun _ => ⟨ts ++ (links.tokens ++ rest), ?_⟩⟩
    · rw [Derivation.nesting] at h
      omega
    · rw [child_zero_period mark.2, bind_ok (name_of_eq hk)]
      rfl
  | succ n =>
    have hfirst := hlink n (links.tokens ++ rest) (notAt_links links (by decide) hp)
      (notAt_links links (by decide) hb) hs
    have hall := (hfirst.trans (ihl n rest hd hp hb hsl).bind).bind (f := fun e => pure (some e))
    rw [child_succ_period n mark.2, bind_ok (name_of_eq hk)]
    refine hall.congr ?_
    rw [Derivation.nesting]
    omega

/-- An argument ends at the next comma or at the closing parenthesis. -/
theorem follows_moreArgs (more : Derivation .moreArgs) (closing : Mark .closeParen)
    (rest : List Token) :
    Follows .or (more.tokens ++ closing.1 :: rest) ∧ Stops 0 (more.tokens ++ closing.1 :: rest) := by
  cases more with
  | noMoreArgs => exact follows_closing rfl .or closing rest
  | lastComma mark => exact follows_closing rfl .or mark _
  | nextArg mark arg more => exact follows_closing rfl .or mark _

theorem readBack_someArgs {first : Derivation (.expr .or)} {more : Derivation .moreArgs}
    (ihf : ReadBack _ first) (ihm : ReadBack _ more) : ReadBack _ (.someArgs first more) := by
  intro n closing rest ⟨hsf, hsm⟩
  obtain ⟨hf, hstop⟩ := follows_moreArgs more closing rest
  have hfirst : Yields (1 + first.nesting ≤ n) _ _ := yields_expr ihf (Nat.zero_le _) hf hsf hstop
  have hall := (hfirst.bind (f := fun e => Parser.many _ >>= fun es => pure (e :: es))).trans
    (ihm n closing rest hsm).bind
  rw [Derivation.tokens, List.append_assoc, commaList_of_notAt (notAt_closeParen_of_expr first _)]
  refine hall.congr ?_
  rw [Derivation.nesting]
  omega

theorem readBack_nextArg {arg : Derivation (.expr .or)} {more : Derivation .moreArgs}
    (mark : Mark .comma) (iha : ReadBack _ arg) (ihm : ReadBack _ more) :
    ReadBack _ (.nextArg mark arg more) := by
  intro n closing rest ⟨hsa, hsm⟩
  obtain ⟨hf, hstop⟩ := follows_moreArgs more closing rest
  have harg : Yields (1 + arg.nesting ≤ n) _ _ := yields_expr iha (Nat.zero_le _) hf hsa hstop
  have hitem := harg.bind (f := fun e => pure (some e))
  rw [← nextItem_comma mark.2 (notAt_closeParen_of_expr arg _)] at hitem
  have hadv := itemAdvances_nextItem (.symbol .closeParen) ((innerForward_level n).expr 0).toForward
  have hall := (hitem.many hadv).trans (ihm n closing rest hsm).bind
  rw [Derivation.tokens, List.append_assoc]
  refine hall.congr ?_
  rw [Derivation.nesting]
  omega

/-- Every phrase is read back. -/
theorem readBack {p : Phrase} (d : Derivation p) : ReadBack p d := by
  induction d with
  | next h d ih =>
    intro n floor rest hf hr hs
    exact ih n floor rest (Nat.le_trans hf (Layer.power_le_power_next _))
      (hr.mono (Layer.power_le_power_next _)) hs
  | binary left mark h right ihl ihr => exact readBack_binary mark h ihl ihr
  | power base mark exponent ihb ihe => exact readBack_power mark ihb ihe
  | negate mark d ih => exact readBack_negate mark ih
  | inverse mark d ih => exact readBack_inverse mark ih
  | literal h => exact readBack_literal h
  | group opening d closing ih => exact readBack_group opening closing ih
  | declaration mark name type => exact readBack_declaration mark name type
  | chain root links ihr ihl => exact readBack_chain ihr ihl
  | selfRoot mark =>
    intro n rest _ _ _
    exact .of_eq (Nat.zero_le _) (operand_self mark.2)
  | typeRoot hash name =>
    intro n rest _ _ _
    refine .of_eq (Nat.zero_le _) ?_
    rw [Derivation.tokens, List.cons_append, operand_hash hash.2]
    exact bind_ok (name_of_eq name.2)
  | linkRoot link ih =>
    obtain ⟨t, ts, ht, hk, hlink⟩ := ih
    intro n rest hp hb hs
    rw [Derivation.tokens, ht, List.cons_append, operand_name hk]
    exact hlink n rest hp hb hs
  | var name => exact readBack_var name
  | call name opening args closing ih => exact readBack_call name opening closing ih
  | index name opening d closing ih => exact readBack_index name opening closing ih
  | noLinks =>
    intro n rest hd _ _ _
    exact .of_eq (Nat.zero_le _) (child_of_notAt n hd)
  | dot mark link links ih ihl => exact readBack_dot mark ih ihl
  | noArgs =>
    intro n closing rest _
    exact .of_eq (Nat.zero_le _) (commaList_empty closing.2)
  | someArgs first more ihf ihm => exact readBack_someArgs ihf ihm
  | noMoreArgs =>
    intro n closing rest _
    refine .of_eq (Nat.zero_le _) (many_of_none ?_ ?_)
    · exact itemAdvances_nextItem _ ((innerForward_level n).expr 0).toForward
    · exact nextItem_of_notAt (notAt_cons.2 (by simp))
  | lastComma mark =>
    intro n closing rest _
    refine .of_eq (Nat.zero_le _) (many_of_none ?_ ?_)
    · exact itemAdvances_nextItem _ ((innerForward_level n).expr 0).toForward
    · exact nextItem_last mark.2 closing.2
  | nextArg mark arg more iha ihm => exact readBack_nextArg mark iha ihm

def wholeExpr : Parser Expr := do
  let e ← expr maxLevels
  finish
  return e

/-- Tokens that have a derivation are read as the expression it stands for, if its nesting is less
than the number of levels. A deeper one is given up at one of its tokens because of the nesting, and
for no other reason. -/
theorem wholeExpr_of_derivation (d : Derivation (.expr .or)) (hs : d.Separated []) :
    (1 + d.nesting ≤ maxLevels → wholeExpr d.tokens = .ok d.value []) ∧
    (maxLevels < 1 + d.nesting →
      ∃ site, site <:+ d.tokens ∧ wholeExpr d.tokens = .error ⟨.tooDeep, site⟩ site) := by
  have hexpr : Yields (1 + d.nesting ≤ maxLevels) (expr maxLevels (d.tokens ++ [])) _ :=
    yields_expr (readBack d) (Nat.zero_le _) (follows_nil _) hs (stops_nil _)
  rw [List.append_nil] at hexpr
  refine ⟨fun h => ?_, fun h => ?_⟩
  · rw [wholeExpr, bind_ok (hexpr.fit h)]
    rfl
  · obtain ⟨site, hsite⟩ := hexpr.deep (Nat.not_le.2 h)
    exact ⟨site, ((innerForward_level maxLevels).expr 0).error hsite, bind_error hsite⟩

/-- `-a ^^ b * local x #T*` has a derivation. -/
def signedPower : Derivation (.expr .or) :=
  .next (by decide) (.next (by decide) (.next (by decide) (.next (by decide) (.binary
    (.next (by decide) (.negate ⟨⟨.symbol .minus, "-", 0⟩, rfl⟩ (.power
      (.chain (.linkRoot (.var ⟨⟨.name, "a", 1⟩, rfl⟩)) .noLinks)
      ⟨⟨.symbol .power, "^^", 3⟩, rfl⟩
      (.next (by decide) (.chain (.linkRoot (.var ⟨⟨.name, "b", 6⟩, rfl⟩)) .noLinks)))))
    ⟨⟨.symbol .star, "*", 8⟩, rfl⟩ (by rfl)
    (.next (by decide) (.declaration ⟨⟨.keyword .localKw, "local", 10⟩, rfl⟩
      ⟨⟨.name, "x", 16⟩, rfl⟩ ⟨⟨⟨.symbol .hash, "#", 18⟩, rfl⟩, ⟨⟨.name, "T", 19⟩, rfl⟩,
        [⟨⟨.symbol .star, "*", 20⟩, rfl⟩]⟩))))))

/-- The sign binds looser than the power and tighter than the product, and the last star is one of
the type. -/
theorem wholeExpr_signedPower :
    signedPower.Separated [] ∧ wholeExpr signedPower.tokens = .ok
      (.binary .mul (.negate (.binary .exp (.var "a" none) (.var "b" none)))
        (.declaration "x" ⟨"T", 1⟩)) [] := by
  have hs : signedPower.Separated [] := by
    simp [signedPower, Derivation.Separated]
  exact ⟨hs, (wholeExpr_of_derivation signedPower hs).1 (by decide)⟩

end FrontEnd.Parse
