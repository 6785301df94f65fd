import FrontEnd.Parse.Session
import FrontEnd.Proofs.Congruence

/-! The limit on nesting. A parser with fewer levels left does what the same one with more levels
does, up to the place where it wants a level that it does not have. There it stops, and the other one
goes on from there. So the limit changes no tree, and it changes or hides no other fault. -/

namespace FrontEnd.Parser

variable {α β σ : Type}

def rest : EStateM.Result Fault (List Token) α → List Token
  | .ok _ ts => ts
  | .error _ ts => ts

theorem Forward.rest_suffix {p : Parser α} (h : Forward p) (ts : List Token) :
    rest (p ts) <:+ ts := by
  cases hp : p ts with
  | ok a us => exact h.ok hp
  | error e us => exact h.error hp

/-- A parser that goes forward and never wants for a level. -/
structure Shallow (p : Parser α) : Prop extends Forward p where
  notTooDeep : ∀ {ts e us}, p ts = .error e us → e.cause ≠ .tooDeep

theorem shallow_pure (a : α) : Shallow (pure a : Parser α) where
  toForward := .pure a
  notTooDeep h := by cases h

theorem shallow_failAt (site : List Token) {cause : Cause} (h : cause ≠ .tooDeep) :
    Shallow (failAt site cause : Parser α) where
  toForward := (consumes_failAt _ _).toForward
  notTooDeep hs := by
    cases hs
    exact h

theorem shallow_kind? : Shallow kind? where
  toForward := forward_kind?
  notTooDeep h := by cases h

theorem shallow_skip : Shallow skip where
  toForward := forward_skip
  notTooDeep h := by cases h

theorem shallow_get : Shallow (get : Parser (List Token)) where
  toForward := forward_get
  notTooDeep h := by cases h

theorem shallow_isAt (kind : TokenKind) : Shallow (isAt kind) where
  toForward := forward_isAt _
  notTooDeep h := by cases h

theorem shallow_take (kind : TokenKind) : Shallow (take kind) where
  toForward := forward_take _
  notTooDeep h := absurd h take_ne_error

theorem shallow_expect (kind : TokenKind) : Shallow (expect kind) where
  toForward := (consumes_expect _).toForward
  notTooDeep {ts e us} h := by
    cases ts with
    | nil =>
      cases h
      simp
    | cons t ts =>
      rw [Parser.expect] at h
      split at h <;> cases h
      simp

/-- The first parser is the second one with fewer levels left: it gives the same, or it stops for
want of a level at a place that the second one reaches too. -/
structure CutShort (p q : Parser α) : Prop where
  agree : ∀ ts, p ts = q ts ∨ ∃ us, p ts = .error ⟨.tooDeep, us⟩ us ∧ rest (q ts) <:+ us
  forward : Forward q
  /-- The second parser, too, wants for a level only where it stops. -/
  here : ∀ {ts site us}, q ts = .error ⟨.tooDeep, site⟩ us → site = us

theorem Shallow.cutShort {p : Parser α} (h : Shallow p) : CutShort p p where
  agree _ := .inl rfl
  forward := h.toForward
  here hs := absurd rfl (h.notTooDeep hs)

namespace CutShort

theorem tooDeep {p q : Parser α} (h : CutShort p q) : CutShort (fail .tooDeep) q where
  agree ts := .inr ⟨ts, rfl, h.forward.rest_suffix ts⟩
  forward := h.forward
  here := h.here

theorem fail_tooDeep : CutShort (fail .tooDeep : Parser α) (fail .tooDeep) where
  agree _ := .inl rfl
  forward := (consumes_fail _).toForward
  here h := by
    cases h
    rfl

theorem bind {p q : Parser α} {f g : α → Parser β} (h : CutShort p q)
    (hf : ∀ a, CutShort (f a) (g a)) : CutShort (p >>= f) (q >>= g) where
  agree ts := by
    rcases h.agree ts with heq | ⟨us, hp, hq⟩
    · rw [bind_apply, bind_apply, heq]
      cases q ts with
      | ok a vs => exact (hf a).agree vs
      | error e vs => exact .inl rfl
    · refine .inr ⟨us, bind_error hp, ?_⟩
      -- The second parser has got as far as the first, and then it only goes forward.
      rw [bind_apply]
      cases hr : q ts with
      | ok a vs =>
        rw [hr] at hq
        exact ((hf a).forward.rest_suffix vs).trans hq
      | error e vs =>
        rw [hr] at hq
        exact hq
  forward := h.forward.bind fun a => (hf a).forward
  here hs := by
    rcases bind_eq_error_iff.1 hs with h1 | ⟨a, us, -, h2⟩
    · exact h.here h1
    · exact (hf a).here h2

theorem iterate {step step' : σ → Parser (Option σ)} (h : ∀ s, CutShort (step s) (step' s))
    (clock : List Token) (s : σ) : CutShort (iterate step clock s) (iterate step' clock s) :=
  related_iterate (R := CutShort) (fun a => (shallow_pure a).cutShort) .bind h rfl s

/-- Two loops with the same clock go in step. -/
theorem loop {step step' : σ → Parser (Option σ)} (h : ∀ s, CutShort (step s) (step' s)) (s : σ) :
    CutShort (loop step s) (loop step' s) where
  agree ts := (iterate h ts s).agree ts
  forward := forward_loop (fun s => (h s).forward) s
  here := (iterate h _ s).here

end CutShort

theorem congruence_cutShort : Congruence Eq CutShort where
  head h := by rw [h]
  pure a := (shallow_pure a).cutShort
  bind h hf := h.bind hf
  here hf := shallow_get.cutShort.bind fun ts => hf ts ts rfl
  failAt hc hs := by
    subst hs
    exact (shallow_failAt _ hc).cutShort
  kind? := shallow_kind?.cutShort
  skip := shallow_skip.cutShort
  isAt kind := (shallow_isAt kind).cutShort
  take kind := (shallow_take kind).cutShort
  expect kind hf := (shallow_expect kind).cutShort.bind fun t => hf t t rfl
  loop s hs := .loop hs s

end FrontEnd.Parser

namespace FrontEnd.Parse

open FrontEnd.Parser FrontEnd.Program

theorem innerCut_self (n : Nat) : InnerRelated CutShort (level n) (level n) := by
  induction n with
  | zero => exact ⟨fun _ => .fail_tooDeep, related_childBy congruence_cutShort fun _ => .fail_tooDeep⟩
  | succ n ih => exact innerRelated_succ congruence_cutShort ih

/-- Fewer levels cut expressions short, at whatever depth the limit is met. -/
theorem innerCut_level {n m : Nat} (h : n ≤ m) : InnerRelated CutShort (level n) (level m) := by
  induction n generalizing m with
  | zero =>
    cases m with
    | zero => exact innerCut_self 0
    | succ m =>
      have hlink := related_link congruence_cutShort (innerCut_self m)
      exact ⟨fun floor => ((innerCut_self (m + 1)).expr floor).tooDeep,
        related_childBy congruence_cutShort fun name => (hlink name).tooDeep⟩
  | succ n ih =>
    cases m with
    | zero => exact absurd h (Nat.not_succ_le_zero n)
    | succ m => exact innerRelated_succ congruence_cutShort (ih (Nat.le_of_succ_le_succ h))

theorem cutShort_expr {n m : Nat} (h : n ≤ m) : CutShort (expr n) (expr m) :=
  (innerCut_level h).expr 0

theorem bodyCut_self (n : Nat) : BodyRelated CutShort (bodyLevel n) (bodyLevel n) := by
  induction n with
  | zero => exact ⟨.fail_tooDeep, .fail_tooDeep⟩
  | succ n ih => exact bodyRelated_succ congruence_cutShort (cutShort_expr (Nat.le_refl n)) ih

/-- Fewer levels cut blocks short. -/
theorem bodyCut_level {n m : Nat} (h : n ≤ m) :
    BodyRelated CutShort (bodyLevel n) (bodyLevel m) := by
  induction n generalizing m with
  | zero => exact ⟨(bodyCut_self m).block.tooDeep, (bodyCut_self m).elseIf.tooDeep⟩
  | succ n ih =>
    cases m with
    | zero => exact absurd h (Nat.not_succ_le_zero n)
    | succ m =>
      have hle := Nat.le_of_succ_le_succ h
      exact bodyRelated_succ congruence_cutShort (cutShort_expr hle) (ih hle)

theorem cutShort_block {n m : Nat} (h : n ≤ m) : CutShort (block n) (block m) :=
  (bodyCut_level h).block

theorem cutShort_statements {n m : Nat} (h : n ≤ m) : CutShort (statements n) (statements m) :=
  related_statementsUntil congruence_cutShort (cutShort_expr h) (bodyCut_level h) none

theorem cutShort_script {n m : Nat} (h : n ≤ m) : CutShort (script n) (script m) :=
  related_script congruence_cutShort (cutShort_expr h) (cutShort_block h)

inductive Entry where
  | expr | block | statements | script
  deriving DecidableEq

namespace Entry

def Tree : Entry → Type
  | expr => Expr
  | block => List Statement
  | statements => List Statement
  | script => Script

def parser : (entry : Entry) → Nat → Parser entry.Tree
  | expr => Parse.expr
  | block => Parse.block
  | statements => Parse.statements
  | script => Parse.script

def startedAt (entry : Entry) (depth : Nat) : Parser entry.Tree :=
  entry.parser (maxLevels - depth)

theorem cutShort_startedAt (entry : Entry) {d d' : Nat} (h : d ≤ d') :
    CutShort (entry.startedAt d') (entry.startedAt d) := by
  have hle : maxLevels - d' ≤ maxLevels - d := Nat.sub_le_sub_left h maxLevels
  cases entry with
  | expr => exact cutShort_expr hle
  | block => exact cutShort_block hle
  | statements => exact cutShort_statements hle
  | script => exact cutShort_script hle

end Entry

end FrontEnd.Parse

namespace FrontEnd

open FrontEnd.Parser FrontEnd.Parse

/-- A fault is located if the tokens from its site on begin between characters. -/
theorem ParseError.ofFault_of_boundary {src : String} {site : List Token} (cause : Cause)
    (h : ∀ t ∈ site, Source.IsBoundary src t.begin) :
    ∃ e, ofFault src ⟨cause, site⟩ = .ok e ∧ e.cause = cause := by
  have hoffset : Source.IsBoundary src ((site.head?.map Token.begin).getD src.utf8ByteSize) := by
    cases site with
    | nil => exact Source.isBoundary_utf8ByteSize src
    | cons t site => exact h t List.mem_cons_self
  obtain ⟨here, hl⟩ := hoffset.locate?
  exact ⟨⟨cause, site.head?, here⟩, by simp [ofFault, hl], rfl⟩

theorem ParseError.cause_of_ofFault {src : String} {fault : Fault} {e : ParseError}
    (h : ofFault src fault = .ok e) : e.cause = fault.cause := by
  rw [ofFault] at h
  split at h <;> cases h
  rfl

namespace Session

variable {α : Type}

def TooDeep (result : Except (Failure ParseError) α) : Prop :=
  ∃ e, result = .error (.error e) ∧ e.cause = .tooDeep

/-- The result is that the nesting is too deep at the token of an index, or at the end of the source
if there is no such token. -/
def TooDeepAt (source : String) (tokens : List Token) (index : Nat)
    (result : Except (Failure ParseError) α) : Prop :=
  ∃ e, ParseError.ofFault source ⟨.tooDeep, tokens.drop index⟩ = .ok e ∧ result = .error (.error e)

theorem exists_fault_of_tooDeep {p : Parser α} {s : Session} (h : TooDeep (s.run p).1) :
    ∃ site us, p s.rest = .error ⟨.tooDeep, site⟩ us := by
  obtain ⟨e, he, hc⟩ := h
  rw [run] at he
  cases hp : p s.rest with
  | ok a us =>
    rw [hp] at he
    cases he
  | error fault us =>
    obtain ⟨cause, site⟩ := fault
    rw [hp] at he
    dsimp only at he
    cases hf : ParseError.ofFault s.source ⟨cause, site⟩ with
    | error v =>
      rw [hf] at he
      cases he
    | ok e' =>
      rw [hf] at he
      cases he
      have hcause : e.cause = cause := ParseError.cause_of_ofFault hf
      exact ⟨site, us, by rw [← hcause, hc]⟩

section Tokens

variable {source : String} {tokens : List Token} {i : Nat}

/-- A later rest of the tokens is what is left from the place that the session goes on to. -/
theorem drop_passed_goTo {us : List Token} (h : us <:+ tokens.drop i) :
    tokens.drop (goTo us ⟨source, i, tokens.drop i⟩).passed = us := by
  rw [goTo, ← List.drop_drop]
  exact (List.suffix_iff_eq_drop.1 h).symm

/-- A parser that wants for a level where it stops has that reported there. -/
theorem run_of_tooDeep {p : Parser α} (hb : ∀ t ∈ tokens, Source.IsBoundary source t.begin)
    (hf : Forward p) {us : List Token} (hp : p (tokens.drop i) = .error ⟨.tooDeep, us⟩ us) :
    ∃ e, run p ⟨source, i, tokens.drop i⟩ =
        (.error (.error e), goTo us ⟨source, i, tokens.drop i⟩) ∧ e.cause = .tooDeep ∧
      ParseError.ofFault source
        ⟨.tooDeep, tokens.drop (goTo us ⟨source, i, tokens.drop i⟩).passed⟩ = .ok e := by
  have hus : us <:+ tokens.drop i := hf.error hp
  obtain ⟨e, he, hc⟩ := ParseError.ofFault_of_boundary .tooDeep fun t ht =>
    hb t (List.mem_of_mem_drop (hus.subset ht))
  refine ⟨e, ?_, hc, ?_⟩
  · simp only [run, hp, he]
  · rw [drop_passed_goTo hus, he]

end Tokens

end Session

namespace Parse.Entry

open Session

def readFrom (entry : Entry) (source : String) (tokens : List Token) (i depth : Nat) :
    Except (Failure ParseError) entry.Tree × Session :=
  Session.run (entry.startedAt depth) ⟨source, i, tokens.drop i⟩

section Tokens

variable {source : String} {tokens : List Token}

/-- Too deep is reported where the reading stopped. -/
theorem tooDeepAt_readFrom (entry : Entry)
    (hb : ∀ t ∈ tokens, Source.IsBoundary source t.begin) {i d : Nat}
    (h : TooDeep (entry.readFrom source tokens i d).1) :
    TooDeepAt source tokens (entry.readFrom source tokens i d).2.passed
      (entry.readFrom source tokens i d).1 := by
  have hcut := entry.cutShort_startedAt (Nat.le_refl d)
  obtain ⟨site, us, hp⟩ := exists_fault_of_tooDeep h
  obtain rfl := hcut.here hp
  obtain ⟨e, hrun, -, he⟩ := run_of_tooDeep hb hcut.forward hp
  rw [readFrom, hrun]
  exact ⟨e, he, rfl⟩

theorem readFrom_of_not_tooDeep (entry : Entry)
    (hb : ∀ t ∈ tokens, Source.IsBoundary source t.begin) {i d d' : Nat} (h : d ≤ d')
    (hn : ¬ TooDeep (entry.readFrom source tokens i d').1) :
    entry.readFrom source tokens i d = entry.readFrom source tokens i d' := by
  rcases (entry.cutShort_startedAt h).agree (tokens.drop i) with heq | ⟨us, hp, -⟩
  · simp only [readFrom, Session.run, heq]
  · have hf := (entry.cutShort_startedAt (Nat.le_refl d')).forward
    obtain ⟨e, hrun, hc, -⟩ := run_of_tooDeep hb hf hp
    exact absurd ⟨e, by rw [readFrom, hrun], hc⟩ hn

theorem passed_readFrom_le (entry : Entry)
    (hb : ∀ t ∈ tokens, Source.IsBoundary source t.begin) {i d d' : Nat} (h : d ≤ d')
    (hd : TooDeep (entry.readFrom source tokens i d).1) :
    (entry.readFrom source tokens i d').2.passed ≤ (entry.readFrom source tokens i d).2.passed := by
  have hcut := entry.cutShort_startedAt h
  obtain ⟨site, vs, hq⟩ := exists_fault_of_tooDeep hd
  obtain rfl := hcut.here hq
  obtain ⟨e, hrun, -⟩ := run_of_tooDeep hb hcut.forward hq
  rcases hcut.agree (tokens.drop i) with heq | ⟨us, hp, hsuffix⟩
  · simp only [readFrom, Session.run, heq, Nat.le_refl]
  · have hf := (entry.cutShort_startedAt (Nat.le_refl d')).forward
    obtain ⟨e', hrun', -⟩ := run_of_tooDeep hb hf hp
    have hlength : site.length ≤ us.length := by
      rw [hq] at hsuffix
      exact hsuffix.length_le
    rw [readFrom, readFrom, hrun, hrun']
    simp only [goTo]
    omega

end Tokens

/-- The limit on nesting only ever adds that the nesting is too deep. A reading that starts deeper,
and so has fewer levels left, gives the same tree or fault and stops at the same token, unless it
gives that one fault; and where both give it, the one that starts deeper stops no later. -/
theorem limit_only_cuts_short (entry : Entry) {source : String} {tokens : List Token}
    (hb : ∀ t ∈ tokens, Source.IsBoundary source t.begin) (i : Nat) {d d' : Nat} (h : d ≤ d') :
    (¬ TooDeep (entry.readFrom source tokens i d').1 →
      entry.readFrom source tokens i d = entry.readFrom source tokens i d') ∧
    (TooDeep (entry.readFrom source tokens i d).1 →
      TooDeep (entry.readFrom source tokens i d').1 →
      TooDeepAt source tokens (entry.readFrom source tokens i d).2.passed
        (entry.readFrom source tokens i d).1 ∧
      TooDeepAt source tokens (entry.readFrom source tokens i d').2.passed
        (entry.readFrom source tokens i d').1 ∧
      (entry.readFrom source tokens i d').2.passed ≤
        (entry.readFrom source tokens i d).2.passed) := by
  refine ⟨fun hn => entry.readFrom_of_not_tooDeep hb h hn, fun hd hd' => ⟨?_, ?_, ?_⟩⟩
  · exact entry.tooDeepAt_readFrom hb hd
  · exact entry.tooDeepAt_readFrom hb hd'
  · exact entry.passed_readFrom_le hb h hd

/-- A sum in parentheses, behind a sign. -/
def bracketedSum : String := "= (\x22é\x22 + a.b)"

def bracketedSumTokens : List Token :=
  [⟨.symbol .assign, "=", 0⟩, ⟨.symbol .openParen, "(", 2⟩, ⟨.string, "é", 4⟩,
    ⟨.symbol .plus, "+", 8⟩, ⟨.name, "a", 10⟩, ⟨.symbol .period, ".", 11⟩, ⟨.name, "b", 12⟩,
    ⟨.symbol .closeParen, ")", 13⟩]

theorem isBoundary_bracketedSum :
    ∀ t ∈ bracketedSumTokens, Source.IsBoundary bracketedSum t.begin := by
  have h : ∀ t ∈ bracketedSumTokens, ∃ n ≤ bracketedSum.toList.length,
      t.begin = Source.width (bracketedSum.toList.take n) := by decide +kernel
  intro t ht
  obtain ⟨n, -, hn⟩ := h t ht
  exact ⟨_, _, (List.take_append_drop n _).symm, hn⟩

/-- The sum takes four levels. From the last depth that leaves four it is read as from the first one;
with three levels the link is too deep, and with one the text in the parentheses. -/
theorem limit_only_cuts_short_bracketedSum :
    (∃ e, (readFrom .expr bracketedSum bracketedSumTokens 1 124).1 = .ok e) ∧
    readFrom .expr bracketedSum bracketedSumTokens 1 0 =
      readFrom .expr bracketedSum bracketedSumTokens 1 124 ∧
    TooDeepAt bracketedSum bracketedSumTokens 7
      (readFrom .expr bracketedSum bracketedSumTokens 1 125).1 ∧
    TooDeepAt bracketedSum bracketedSumTokens 2
      (readFrom .expr bracketedSum bracketedSumTokens 1 127).1 := by
  have hread : ∃ e, (readFrom .expr bracketedSum bracketedSumTokens 1 124).1 = .ok e := ⟨_, rfl⟩
  have hsame := (limit_only_cuts_short .expr isBoundary_bracketedSum 1 (Nat.zero_le 124)).1
  have hcut := (limit_only_cuts_short .expr isBoundary_bracketedSum 1
    (show 125 ≤ 127 by decide)).2 ⟨_, rfl, rfl⟩ ⟨_, rfl, rfl⟩
  refine ⟨hread, hsame ?_, hcut.1, hcut.2.1⟩
  rintro ⟨e, he, -⟩
  obtain ⟨tree, ht⟩ := hread
  rw [ht] at he
  cases he

end Parse.Entry

end FrontEnd
