import Mathlib.Logic.Function.Iterate
import FrontEnd.Proofs.NestingLimit

/-! The parsers as functions that call one another at the next nesting depth, with or without a limit.
Before each call a token is passed, so on an input the parsers do what they do with any parsers one
level further in that agree with them on shorter inputs. That alone makes the calls end: whatever
depths are allowed, the equations of the parsers have exactly one solution, and on an input of fewer
than `n` tokens it is reached when the equations are unfolded `n` times. -/

namespace FrontEnd.Parser

variable {α β σ : Type}

/-- Two parsers do the same on an input, go forward there, and want for a level only if nesting is
`limited`. -/
structure SameAt (limited : Prop) (ts : List Token) (p q : Parser α) : Prop where
  agree : p ts = q ts
  suffix : rest (p ts) <:+ ts
  tooDeep : ∀ {site us}, p ts = .error ⟨.tooDeep, site⟩ us → limited

/-- Two parsers do the same on every input of fewer than `n` tokens. -/
def SameBelow (limited : Prop) (n : Nat) (p q : Parser α) : Prop :=
  ∀ ts, ts.length < n → SameAt limited ts p q

namespace SameAt

variable {limited : Prop} {ts : List Token}

theorem bind {p q : Parser α} {f g : α → Parser β} (h : SameAt limited ts p q)
    (hf : ∀ a us, p ts = .ok a us → us <:+ ts → SameAt limited us (f a) (g a)) :
    SameAt limited ts (p >>= f) (q >>= g) := by
  have hsuffix := h.suffix
  have hpq := h.agree
  cases hp : p ts with
  | ok a us =>
    rw [hp] at hsuffix hpq
    have hthen := hf a us hp hsuffix
    refine ⟨?_, ?_, ?_⟩
    · rw [bind_ok hp, bind_ok hpq.symm, hthen.agree]
    · rw [bind_ok hp]
      exact hthen.suffix.trans hsuffix
    · rw [bind_ok hp]
      exact hthen.tooDeep
  | error e us =>
    rw [hp] at hsuffix hpq
    refine ⟨?_, ?_, ?_⟩
    · rw [bind_error hp, bind_error hpq.symm]
    · rw [bind_error hp]
      exact hsuffix
    · intro site vs hs
      rw [bind_error hp] at hs
      cases hs
      exact h.tooDeep hp

theorem trans {p q r : Parser α} (h : SameAt limited ts p q) (h' : SameAt limited ts q r) :
    SameAt limited ts p r where
  agree := h.agree.trans h'.agree
  suffix := h.suffix
  tooDeep := h.tooDeep

theorem symm {p q : Parser α} (h : SameAt limited ts p q) : SameAt limited ts q p where
  agree := h.agree.symm
  suffix := h.agree ▸ h.suffix
  tooDeep hq := h.tooDeep (h.agree.trans hq)

/-- Only what the first parser does on the input counts. -/
theorem of_apply_eq {p p' q : Parser α} (h : SameAt limited ts p' q) (hp : p ts = p' ts) :
    SameAt limited ts p q where
  agree := hp.trans h.agree
  suffix := hp ▸ h.suffix
  tooDeep hs := h.tooDeep (hp.symm.trans hs)

end SameAt

theorem Shallow.sameAt {p : Parser α} (h : Shallow p) {limited : Prop} (ts : List Token) :
    SameAt limited ts p p where
  agree := rfl
  suffix := h.toForward.rest_suffix ts
  tooDeep hs := absurd rfl (h.notTooDeep hs)

namespace SameBelow

variable {limited : Prop} {n : Nat}

theorem trans {p q r : Parser α} (h : SameBelow limited n p q) (h' : SameBelow limited n q r) :
    SameBelow limited n p r :=
  fun ts hts => (h ts hts).trans (h' ts hts)

theorem symm {p q : Parser α} (h : SameBelow limited n p q) : SameBelow limited n q p :=
  fun ts hts => (h ts hts).symm

theorem bind {p q : Parser α} {f g : α → Parser β} (h : SameBelow limited n p q)
    (hf : ∀ a, SameBelow limited n (f a) (g a)) : SameBelow limited n (p >>= f) (q >>= g) :=
  fun ts hts => (h ts hts).bind fun a us _ hus => hf a us (Nat.lt_of_le_of_lt hus.length_le hts)

/-- What follows a token that has been taken has one token less to agree on. -/
theorem bind_consumes {p : Parser α} (hp : Consumes p) (hs : Shallow p) {f g : α → Parser β}
    (hf : ∀ a, SameBelow limited n (f a) (g a)) :
    SameBelow limited (n + 1) (p >>= f) (p >>= g) :=
  fun ts hts => (hs.sameAt ts).bind fun a us h _ =>
    hf a us (Nat.lt_of_lt_of_le (hp.shrinks h) (Nat.le_of_lt_succ hts))

theorem take_then (kind : TokenKind) {p p' q : Parser α} (hq : Shallow q)
    (hp : SameBelow limited n p p') :
    SameBelow limited (n + 1) (take kind >>= fun b => if b then p else q)
      (take kind >>= fun b => if b then p' else q) := by
  refine fun ts hts => ((shallow_take kind).sameAt ts).bind fun b us h _ => ?_
  rcases take_eq_ok_iff.1 h with ⟨rfl, t, -, rfl⟩ | ⟨rfl, rfl, -⟩
  · exact hp us (Nat.lt_of_succ_lt_succ hts)
  · exact hq.sameAt ts

theorem iterate {step step' : σ → Parser (Option σ)}
    (h : ∀ s, SameBelow limited n (step s) (step' s)) (clock : List Token) (s : σ) :
    SameBelow limited n (iterate step clock s) (iterate step' clock s) :=
  related_iterate (R := SameBelow limited n) (fun a ts _ => (shallow_pure a).sameAt ts) .bind h rfl s

theorem loop {step step' : σ → Parser (Option σ)}
    (h : ∀ s, SameBelow limited n (step s) (step' s)) (s : σ) :
    SameBelow limited n (loop step s) (loop step' s) := by
  intro ts hts
  have hsame := iterate h ts s ts hts
  exact ⟨hsame.agree, hsame.suffix, hsame.tooDeep⟩

end SameBelow

theorem shallow_symbol (s : Symbol) : Shallow (symbol s) where
  toForward := (consumes_symbol s).toForward
  notTooDeep h := by
    rcases bind_eq_error_iff.1 h with hs | ⟨t, us, -, hs⟩
    · exact (shallow_expect _).notTooDeep hs
    · cases hs

theorem Shallow.sameBelow {p : Parser α} (h : Shallow p) {limited : Prop} (n : Nat) :
    SameBelow limited n p p :=
  fun ts _ => h.sameAt ts

theorem congruence_sameBelow (limited : Prop) (n : Nat) : Congruence Eq (SameBelow limited n) where
  head h := by rw [h]
  pure a := (shallow_pure a).sameBelow n
  bind h hf := h.bind hf
  here hf := (shallow_get.sameBelow n).bind fun ts => hf ts ts rfl
  failAt hc hs := by
    subst hs
    exact (shallow_failAt _ hc).sameBelow n
  kind? := shallow_kind?.sameBelow n
  skip := shallow_skip.sameBelow n
  isAt kind := (shallow_isAt kind).sameBelow n
  take kind := (shallow_take kind).sameBelow n
  expect kind hf := ((shallow_expect kind).sameBelow n).bind fun t => hf t t rfl
  loop s hs := .loop hs s

end FrontEnd.Parser

namespace FrontEnd.Parse

open FrontEnd.Parser FrontEnd.Program

section Same

variable {limited : Prop} {n : Nat} {inner inner' : Inner}

/-- The token that starts an operand is passed before anything further in is called. -/
theorem sameBelow_operands (h : InnerRelated (SameBelow limited n) inner inner') (floor : Nat) :
    SameBelow limited (n + 1) (operands inner floor) (operands inner' floor) := by
  have hc := congruence_sameBelow limited n
  have hloop := fun lhs => hc.loop lhs (related_extend hc h floor)
  intro ts hts
  cases ts with
  | nil => exact ⟨rfl, List.suffix_refl _, fun hs => by cases hs⟩
  | cons t ts =>
    have hoperand := related_operandAt hc h (rfl : t :: ts = t :: ts) (rfl : face t = face t)
    have hsame := hoperand.bind hloop ts (Nat.lt_of_succ_lt_succ hts)
    exact ⟨hsame.agree, hsame.suffix.trans (List.suffix_cons _ _), hsame.tooDeep⟩

/-- The period in front of a link is passed before the link is. -/
theorem sameBelow_childBy {link link' : String → Parser Expr}
    (h : ∀ name, SameBelow limited n (link name) (link' name)) :
    SameBelow limited (n + 1) (childBy link) (childBy link') := by
  have hc := congruence_sameBelow limited n
  exact .take_then _ (shallow_pure none) (hc.bind hc.name fun name =>
    hc.bind (h name) fun _ => hc.pure _)

variable {expr expr' : Parser Expr} {body body' : InnerBody}

theorem sameBelow_braced (he : SameBelow limited n expr expr')
    (hi : BodyRelated (SameBelow limited n) body body') :
    SameBelow limited (n + 1) (braced expr body) (braced expr' body') := by
  have hc := congruence_sameBelow limited n
  exact .bind_consumes (consumes_symbol _) (shallow_symbol _) fun _ =>
    hc.bind (related_statementsUntil hc he hi _) fun _ => hc.bind (hc.symbol _) fun _ => hc.pure _

theorem sameBelow_branches (he : SameBelow limited n expr expr')
    (hi : BodyRelated (SameBelow limited n) body body') :
    SameBelow limited (n + 1) (branches expr body) (branches expr' body') := by
  have hc := congruence_sameBelow limited n
  refine .bind_consumes (consumes_expect _) (shallow_expect _) fun _ =>
    hc.bind he fun _ => hc.bind hi.block fun _ => hc.bind (hc.take _) fun b => ?_
  cases b with
  | false => exact hc.pure _
  | true =>
    refine hc.bind (hc.isAt _) fun b => ?_
    cases b with
    | false => exact hc.bind hi.block fun _ => hc.pure _
    | true => exact hc.bind hi.elseIf fun _ => hc.pure _

end Same

/-- Stops at a depth where nesting is not allowed. -/
def entered {α : Type} (allowed : Nat → Bool) (depth : Nat) (p : Parser α) : Parser α :=
  if allowed depth then p else fail .tooDeep

@[ext]
structure Depths where
  inner : Nat → Inner
  body : Nat → InnerBody

attribute [ext] Inner InnerBody

namespace Depths

def around (allowed : Nat → Bool) (f : Depths) : Depths where
  inner d :=
    { expr := fun floor => entered allowed d (operands (f.inner (d + 1)) floor)
      child := childBy fun name => entered allowed d (link (f.inner (d + 1)) name) }
  body d :=
    { block := entered allowed d (braced ((f.inner (d + 1)).expr 0) (f.body (d + 1)))
      elseIf := entered allowed d (branches ((f.inner (d + 1)).expr 0) (f.body (d + 1))) }

def evenly (levels : Nat) : Depths :=
  ⟨fun _ => level levels, fun _ => bodyLevel levels⟩

def upTo (levels : Nat) : Depths :=
  ⟨fun d => level (levels - d), fun d => bodyLevel (levels - d)⟩

/-- On each input, the parsers that are got by unfolding once more than it has tokens. -/
def unfolded (allowed : Nat → Bool) : Depths where
  inner d :=
    { expr := fun floor ts => (((around allowed)^[ts.length + 1] (evenly 0)).inner d).expr floor ts
      child := fun ts => (((around allowed)^[ts.length + 1] (evenly 0)).inner d).child ts }
  body d :=
    { block := fun ts => (((around allowed)^[ts.length + 1] (evenly 0)).body d).block ts
      elseIf := fun ts => (((around allowed)^[ts.length + 1] (evenly 0)).body d).elseIf ts }

/-- The parsers do the same at every depth, on every input of fewer than `n` tokens. -/
structure SameBelow (limited : Prop) (n : Nat) (f g : Depths) : Prop where
  inner : ∀ d, InnerRelated (Parser.SameBelow limited n) (f.inner d) (g.inner d)
  body : ∀ d, BodyRelated (Parser.SameBelow limited n) (f.body d) (g.body d)

section SameBelow

variable {limited : Prop} {n : Nat} {f g h : Depths}

theorem SameBelow.trans (hfg : SameBelow limited n f g) (hgh : SameBelow limited n g h) :
    SameBelow limited n f h where
  inner d := ⟨fun floor => ((hfg.inner d).expr floor).trans ((hgh.inner d).expr floor),
    (hfg.inner d).child.trans (hgh.inner d).child⟩
  body d := ⟨(hfg.body d).block.trans (hgh.body d).block,
    (hfg.body d).elseIf.trans (hgh.body d).elseIf⟩

theorem SameBelow.symm (hfg : SameBelow limited n f g) : SameBelow limited n g f where
  inner d := ⟨fun floor => ((hfg.inner d).expr floor).symm, (hfg.inner d).child.symm⟩
  body d := ⟨(hfg.body d).block.symm, (hfg.body d).elseIf.symm⟩

/-- No input has fewer than no tokens. -/
theorem sameBelow_zero (f g : Depths) : SameBelow limited 0 f g where
  inner _ := ⟨fun _ _ h => absurd h (Nat.not_lt_zero _), fun _ h => absurd h (Nat.not_lt_zero _)⟩
  body _ := ⟨fun _ h => absurd h (Nat.not_lt_zero _), fun _ h => absurd h (Nat.not_lt_zero _)⟩

/-- Parsers that do the same on the inputs of each length are the same. -/
theorem eq_of_sameBelow (h : ∀ n, SameBelow True (n + 1) f g) : f = g := by
  have heq : ∀ {α : Type} {p q : Parser α}, (∀ n, Parser.SameBelow True (n + 1) p q) → p = q :=
    fun hpq => funext fun ts => (hpq _ ts (Nat.lt_succ_self _)).agree
  ext1
  · funext d
    ext1
    · exact funext fun floor => heq fun n => ((h n).inner d).expr floor
    · exact heq fun n => ((h n).inner d).child
  · funext d
    ext1
    · exact heq fun n => ((h n).body d).block
    · exact heq fun n => ((h n).body d).elseIf

end SameBelow

section Around

variable {allowed : Nat → Bool} {limited : Prop} {n m : Nat}

theorem sameBelow_entered (hl : ∀ d, allowed d = false → limited) (d : Nat) {α : Type}
    {p q : Parser α} (h : Parser.SameBelow limited n p q) :
    Parser.SameBelow limited n (entered allowed d p) (entered allowed d q) := by
  unfold entered
  cases ha : allowed d with
  | true => exact h
  | false => exact fun ts _ => ⟨rfl, List.suffix_refl _, fun _ => hl d ha⟩

/-- On an input of one token more, the parsers do what those further in determine. -/
theorem sameBelow_around (hl : ∀ d, allowed d = false → limited) {f g : Depths}
    (h : SameBelow limited n f g) :
    SameBelow limited (n + 1) (around allowed f) (around allowed g) where
  inner d :=
    { expr := fun floor => sameBelow_entered hl d (sameBelow_operands (h.inner (d + 1)) floor)
      child := sameBelow_childBy fun name => sameBelow_entered hl d
        (related_link (congruence_sameBelow limited n) (h.inner (d + 1)) name) }
  body d :=
    { block := sameBelow_entered hl d
        (sameBelow_braced ((h.inner (d + 1)).expr 0) (h.body (d + 1)))
      elseIf := sameBelow_entered hl d
        (sameBelow_branches ((h.inner (d + 1)).expr 0) (h.body (d + 1))) }

/-- Unfolded `n` times, the equations say nothing any more about the parsers that they started from,
on inputs of fewer than `n` tokens. -/
theorem sameBelow_iterate (hl : ∀ d, allowed d = false → limited) (n : Nat) (f g : Depths) :
    SameBelow limited n ((around allowed)^[n] f) ((around allowed)^[n] g) := by
  induction n with
  | zero => exact sameBelow_zero f g
  | succ n ih =>
    rw [Function.iterate_succ_apply', Function.iterate_succ_apply']
    exact sameBelow_around hl ih

theorem sameBelow_iterate_of_le (hl : ∀ d, allowed d = false → limited) (h : n ≤ m)
    (f g : Depths) : SameBelow limited n ((around allowed)^[n] f) ((around allowed)^[m] g) := by
  obtain ⟨k, rfl⟩ := Nat.exists_eq_add_of_le h
  rw [Function.iterate_add_apply]
  exact sameBelow_iterate hl n f _

theorem sameBelow_unfolded (hl : ∀ d, allowed d = false → limited) (n : Nat) (f : Depths) :
    SameBelow limited n (unfolded allowed) ((around allowed)^[n] f) := by
  have hle := fun {ts : List Token} (hts : ts.length < n) =>
    sameBelow_iterate_of_le hl (Nat.succ_le_of_lt hts) (evenly 0) f
  have hlt := fun ts : List Token => Nat.lt_succ_self ts.length
  refine ⟨fun d => ⟨fun floor ts hts => ?_, fun ts hts => ?_⟩, fun d => ⟨fun ts hts => ?_,
    fun ts hts => ?_⟩⟩
  · exact (((hle hts).inner d).expr floor ts (hlt ts)).of_apply_eq rfl
  · exact (((hle hts).inner d).child ts (hlt ts)).of_apply_eq rfl
  · exact (((hle hts).body d).block ts (hlt ts)).of_apply_eq rfl
  · exact (((hle hts).body d).elseIf ts (hlt ts)).of_apply_eq rfl

/-- The equations of the parsers have one solution, whatever depths are allowed. -/
theorem around_eq_self_iff (f : Depths) : around allowed f = f ↔ f = unfolded allowed := by
  have hl : ∀ d, allowed d = false → True := fun _ _ => trivial
  constructor
  · intro hf
    refine eq_of_sameBelow fun n => ?_
    have h := sameBelow_unfolded hl (n + 1) f
    rw [Function.iterate_fixed hf] at h
    exact h.symm
  · rintro rfl
    refine eq_of_sameBelow fun n => ?_
    have h := sameBelow_around hl (sameBelow_unfolded hl n (evenly 0))
    rw [← Function.iterate_succ_apply' (around allowed) n (evenly 0)] at h
    exact h.trans (sameBelow_unfolded hl (n + 1) (evenly 0)).symm

end Around

/-- Unfolding adds a level. -/
theorem iterate_evenly (n : Nat) : (around fun _ => true)^[n] (evenly 0) = evenly n := by
  induction n with
  | zero => rfl
  | succ n ih =>
    rw [Function.iterate_succ_apply', ih]
    rfl

/-- The parsers with a number of levels left are the solution with that limit. -/
theorem around_upTo (levels : Nat) : around (fun d => d < levels) (upTo levels) = upTo levels := by
  have hcases : ∀ d, (d < levels ∧ levels - d = levels - (d + 1) + 1) ∨
      (¬d < levels ∧ levels - d = 0) := fun d => by omega
  ext1
  · funext d
    rcases hcases d with ⟨h, hd⟩ | ⟨h, hd⟩
    · simp only [around, upTo, entered, decide_eq_true h, if_true, hd, level]
    · simp only [around, upTo, entered, decide_eq_false h, hd, level]
      rfl
  · funext d
    rcases hcases d with ⟨h, hd⟩ | ⟨h, hd⟩
    · simp only [around, upTo, entered, decide_eq_true h, if_true, hd, bodyLevel]
      rfl
    · simp only [around, upTo, entered, decide_eq_false h, hd, bodyLevel]
      rfl

end Depths

/-- More levels than tokens make no difference, and none is wanted for. -/
theorem Entry.sameBelow_levels (entry : Entry) {n m : Nat} (h : n ≤ m) :
    SameBelow False n (entry.parser n) (entry.parser m) := by
  have hc := congruence_sameBelow False n
  have hl : ∀ d : Nat, (fun _ : Nat => true) d = false → False := fun _ h => by cases h
  have hsame := Depths.sameBelow_iterate_of_le hl h (Depths.evenly 0) (Depths.evenly 0)
  rw [Depths.iterate_evenly, Depths.iterate_evenly] at hsame
  have hexpr : SameBelow False n (Parse.expr n) (Parse.expr m) := (hsame.inner 0).expr 0
  have hbody := hsame.body 0
  cases entry with
  | expr => exact hexpr
  | block => exact hbody.block
  | statements => exact related_statementsUntil hc hexpr hbody none
  | script => exact related_script hc hexpr hbody.block

end FrontEnd.Parse
