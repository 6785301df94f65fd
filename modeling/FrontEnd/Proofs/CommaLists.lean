import FrontEnd.Proofs.ScriptGrammar
import Mathlib.Algebra.GroupWithZero.Nat

/-! Lists with commas, as the tokens alone show them. Brackets are matched from the left; a
parenthesis behind a name opens a list, and the commas between it and its closing parenthesis, but
for those in further brackets, are the commas of the list. Where every comma is one of a list, a
comma right in front of a closing parenthesis is the one behind the last item of a list. -/

namespace FrontEnd.Grammar

open FrontEnd.Parser

inductive Listing where
  | empty
  /-- Items with so many commas between them. -/
  | plain (commas : Nat)
  /-- The same with one more comma behind the last item. -/
  | ended (commas : Nat)
  deriving DecidableEq

namespace Listing

def items : Listing → Nat
  | empty => 0
  | plain n => n + 1
  | ended n => n + 1

def commas : Listing → Nat
  | empty => 0
  | plain n => n
  | ended n => n + 1

/-- The form `[item (',' item)*]`. -/
def Strict (l : Listing) : Prop :=
  l.items = l.commas + 1 ∨ l.items = 0 ∧ l.commas = 0
  deriving Decidable

/-- The list with more of an item behind it: behind a comma that is the next item. -/
def extend : Listing → Listing
  | empty => plain 0
  | plain n => plain n
  | ended n => plain (n + 1)

@[simp]
theorem extend_extend (l : Listing) : l.extend.extend = l.extend := by
  cases l <;> rfl

@[simp]
theorem commas_extend (l : Listing) : l.extend.commas = l.commas := by
  cases l <;> rfl

/-- A list is not of that form just if it ends with a comma. -/
theorem not_strict_iff (l : Listing) : ¬l.Strict ↔ ∃ n, l = ended n := by
  cases l <;> simp [Strict, items, commas]

end Listing

structure NamedList where
  name : String
  form : Listing
  deriving DecidableEq

namespace NamedList

def arity (l : NamedList) : String × Nat :=
  (l.name, l.form.items)

def extend (l : NamedList) : NamedList :=
  ⟨l.name, l.form.extend⟩

@[simp]
theorem extend_extend (l : NamedList) : l.extend.extend = l.extend := by
  simp [extend]

end NamedList

/-- What brackets hold: a list, or something else. -/
abbrev Frame := Option NamedList

/-- The brackets that are open, the innermost first, and the lists that are closed, the first one
first. -/
structure Brackets where
  opened : List Frame
  closed : List NamedList

namespace Brackets

def extended (fs : List Frame) : List Frame :=
  fs.modifyHead (Option.map NamedList.extend)

@[simp]
theorem extended_some (l : NamedList) (fs : List Frame) :
    extended (some l :: fs) = some l.extend :: fs := rfl

@[simp]
theorem extended_extended (fs : List Frame) : extended (extended fs) = extended fs := by
  cases fs with
  | nil => rfl
  | cons f fs =>
    cases f with
    | none => rfl
    | some l => simp

/-- What a parenthesis opens behind a token: behind a name a list. -/
def frameBehind : Option Token → Frame
  | some t => if t.kind = .name then some ⟨t.text, .empty⟩ else none
  | none => none

/-- The brackets with one more token, which stands behind `last`. Brackets have to match, and a
comma has to stand behind an item of a list. -/
def next (last : Option Token) (kind : TokenKind) (b : Brackets) : Option Brackets :=
  match kind with
  | .symbol .openParen => some ⟨frameBehind last :: b.opened, b.closed⟩
  | .symbol .openBracket => some ⟨none :: b.opened, b.closed⟩
  | .symbol .openBrace => some ⟨none :: b.opened, b.closed⟩
  | .symbol .closeParen =>
    match b.opened with
    | some l :: fs => some ⟨extended fs, b.closed ++ [l]⟩
    | none :: fs => some ⟨extended fs, b.closed⟩
    | [] => none
  | .symbol .closeBracket =>
    match b.opened with
    | none :: fs => some ⟨extended fs, b.closed⟩
    | _ => none
  | .symbol .closeBrace =>
    match b.opened with
    | none :: fs => some ⟨extended fs, b.closed⟩
    | _ => none
  | .symbol .comma =>
    match b.opened with
    | some ⟨name, .plain n⟩ :: fs => some ⟨some ⟨name, .ended n⟩ :: fs, b.closed⟩
    | _ => none
  | _ => some ⟨extended b.opened, b.closed⟩

def run (last : Option Token) (b : Brackets) : List Token → Option Brackets
  | [] => some b
  | t :: ts => (b.next last t.kind).bind fun b => run (some t) b ts

end Brackets

/-- The lists among the tokens, by what closes first. All brackets have to be closed. -/
def listsOf (tokens : List Token) : Option (List NamedList) :=
  match Brackets.run none ⟨[], []⟩ tokens with
  | some ⟨[], closed⟩ => some closed
  | _ => none

/-- How many closing parentheses stand right behind a comma, where the first token stands behind
`last`. -/
def commaEnds (last : Option Token) : List Token → Nat
  | [] => 0
  | t :: ts =>
    (if last.map Token.kind = some (.symbol .comma) ∧ t.kind = .symbol .closeParen then 1 else 0) +
      commaEnds (some t) ts

namespace Brackets

def frameCommas (f : Frame) : Nat :=
  f.elim 0 (·.form.commas)

def commas (b : Brackets) : Nat :=
  (b.opened.map frameCommas).sum + (b.closed.map (·.form.commas)).sum

/-- How many of the closed lists have a comma behind the last item. -/
def loose (b : Brackets) : Nat :=
  b.closed.countP fun l => ¬l.form.Strict

/-- The innermost brackets hold a list that has a comma behind its last item so far. -/
def AtComma (b : Brackets) : Prop :=
  ∃ name n fs, b.opened = some ⟨name, .ended n⟩ :: fs

theorem sum_frameCommas_extended (fs : List Frame) :
    ((extended fs).map frameCommas).sum = (fs.map frameCommas).sum := by
  cases fs with
  | nil => rfl
  | cons f fs =>
    cases f with
    | none => rfl
    | some l => simp [frameCommas, NamedList.extend]

theorem not_atComma_extended (fs : List Frame) (closed : List NamedList) :
    ¬AtComma ⟨extended fs, closed⟩ := by
  rintro ⟨name, n, fs', h⟩
  cases fs with
  | nil => cases h
  | cons f fs =>
    obtain _ | ⟨name, _ | n | n⟩ := f
    all_goals cases h

theorem frameBehind_cases (last : Option Token) :
    frameBehind last = none ∨ ∃ name, frameBehind last = some ⟨name, .empty⟩ := by
  unfold frameBehind
  split
  · split
    · exact .inr ⟨_, rfl⟩
    · exact .inl rfl
  · exact .inl rfl

section Step

variable {last : Option Token} {kind : TokenKind} {b b' : Brackets}

/-- All that one more token can do: open brackets, close a list, close other brackets, stand as a
comma in a list, or be a part of whatever is in the innermost brackets. -/
theorem next_cases (h : b.next last kind = some b') :
    (kind ≠ .symbol .comma ∧ kind ≠ .symbol .closeParen ∧
      ∃ f, (f = none ∨ ∃ name, f = some ⟨name, .empty⟩) ∧ b' = ⟨f :: b.opened, b.closed⟩) ∨
    (kind = .symbol .closeParen ∧
      ∃ l fs, b.opened = some l :: fs ∧ b' = ⟨extended fs, b.closed ++ [l]⟩) ∨
    (kind ≠ .symbol .comma ∧ ∃ fs, b.opened = none :: fs ∧ b' = ⟨extended fs, b.closed⟩) ∨
    (kind = .symbol .comma ∧ ∃ name n fs, b.opened = some ⟨name, .plain n⟩ :: fs ∧
      b' = ⟨some ⟨name, .ended n⟩ :: fs, b.closed⟩) ∨
    (kind ≠ .symbol .comma ∧ kind ≠ .symbol .closeParen ∧
      b' = ⟨extended b.opened, b.closed⟩) := by
  obtain ⟨opened, closed⟩ := b
  unfold next at h
  split at h
  case h_1 => exact .inl ⟨by simp, by simp, _, frameBehind_cases last, by simpa using h.symm⟩
  case h_2 | h_3 => exact .inl ⟨by simp, by simp, none, .inl rfl, by simpa using h.symm⟩
  case h_4 =>
    split at h
    case h_1 => exact .inr (.inl ⟨rfl, _, _, ‹_›, by simpa using h.symm⟩)
    case h_2 => exact .inr (.inr (.inl ⟨by simp, _, ‹_›, by simpa using h.symm⟩))
    case h_3 => cases h
  case h_5 | h_6 =>
    split at h
    case h_1 => exact .inr (.inr (.inl ⟨by simp, _, ‹_›, by simpa using h.symm⟩))
    case h_2 => cases h
  case h_7 =>
    split at h
    case h_1 => exact .inr (.inr (.inr (.inl ⟨rfl, _, _, _, ‹_›, by simpa using h.symm⟩)))
    case h_2 => cases h
  case h_8 _ _ _ hclose _ _ hcomma =>
    exact .inr (.inr (.inr (.inr ⟨hcomma, hclose, by simpa using h.symm⟩)))

/-- A comma is one of the commas of a list. -/
theorem commas_next (h : b.next last kind = some b') :
    b'.commas = b.commas + if kind = .symbol .comma then 1 else 0 := by
  obtain ⟨opened, closed⟩ := b
  obtain ⟨hk, -, f, hf, rfl⟩ | ⟨rfl, l, fs, rfl, rfl⟩ | ⟨hk, fs, rfl, rfl⟩ |
    ⟨rfl, name, n, fs, rfl, rfl⟩ | ⟨hk, -, rfl⟩ := next_cases h
  · obtain rfl | ⟨name, rfl⟩ := hf
    all_goals simp [commas, frameCommas, Listing.commas, hk]
  · simp [commas, sum_frameCommas_extended, frameCommas]
    omega
  · simp [commas, sum_frameCommas_extended, frameCommas, hk]
  · simp [commas, frameCommas, Listing.commas]
    omega
  · simp [commas, sum_frameCommas_extended, hk]

/-- Brackets hold a comma behind the last item only right behind that comma. -/
theorem atComma_next (h : b.next last kind = some b') : b'.AtComma ↔ kind = .symbol .comma := by
  obtain ⟨opened, closed⟩ := b
  obtain ⟨hk, -, f, hf, rfl⟩ | ⟨rfl, l, fs, rfl, rfl⟩ | ⟨hk, fs, rfl, rfl⟩ |
    ⟨rfl, name, n, fs, rfl, rfl⟩ | ⟨hk, -, rfl⟩ := next_cases h
  · refine iff_of_false ?_ hk
    rintro ⟨name, n, fs, heq⟩
    obtain rfl | ⟨name, rfl⟩ := hf
    all_goals cases heq
  · exact iff_of_false (not_atComma_extended _ _) (by simp)
  · exact iff_of_false (not_atComma_extended _ _) hk
  · exact iff_of_true ⟨name, n, fs, rfl⟩ rfl
  · exact iff_of_false (not_atComma_extended _ _) hk

/-- A list is closed with a comma behind its last item only right behind that comma. -/
theorem loose_next (hb : b.AtComma ↔ last.map Token.kind = some (.symbol .comma))
    (h : b.next last kind = some b') :
    b'.loose = b.loose + if last.map Token.kind = some (.symbol .comma) ∧
      kind = .symbol .closeParen then 1 else 0 := by
  obtain ⟨opened, closed⟩ := b
  obtain ⟨-, hk, f, hf, rfl⟩ | ⟨rfl, l, fs, rfl, rfl⟩ | ⟨hk, fs, rfl, rfl⟩ |
    ⟨rfl, name, n, fs, rfl, rfl⟩ | ⟨-, hk, rfl⟩ := next_cases h
  · simp [loose, hk]
  · have hloose : ¬l.form.Strict ↔ last.map Token.kind = some (.symbol .comma) := by
      rw [Listing.not_strict_iff, ← hb]
      constructor
      · rintro ⟨n, hn⟩
        exact ⟨l.name, n, fs, by rw [← hn]⟩
      · rintro ⟨name, n, fs', heq⟩
        cases heq
        exact ⟨n, rfl⟩
    simp [loose, List.countP_append, List.countP_cons, hloose]
  · have hnot : ¬last.map Token.kind = some (.symbol .comma) := by
      rw [← hb]
      rintro ⟨name, n, fs', heq⟩
      cases heq
    simp [loose, hnot]
  · simp [loose]
  · simp [loose, hk]

end Step

section Run

variable {last : Option Token} {b b' : Brackets} {ts us : List Token}

/-- All commas among the tokens are commas of lists. -/
theorem commas_run (h : run last b ts = some b') :
    b'.commas = b.commas + ts.countP fun t => t.kind = .symbol .comma := by
  induction ts generalizing last b with
  | nil =>
    cases h
    rfl
  | cons t ts ih =>
    obtain ⟨b₁, hnext, hrun⟩ := Option.bind_eq_some_iff.1 h
    rw [ih hrun, commas_next hnext, List.countP_cons]
    simp only [decide_eq_true_eq]
    omega

/-- The lists with a comma behind the last item are closed right behind a comma, and nothing else
is. -/
theorem loose_run (hb : b.AtComma ↔ last.map Token.kind = some (.symbol .comma))
    (h : run last b ts = some b') : b'.loose = b.loose + commaEnds last ts := by
  induction ts generalizing last b with
  | nil =>
    cases h
    rfl
  | cons t ts ih =>
    obtain ⟨b₁, hnext, hrun⟩ := Option.bind_eq_some_iff.1 h
    have hb₁ : b₁.AtComma ↔ (some t).map Token.kind = some (.symbol .comma) := by
      rw [atComma_next hnext, Option.map_some, Option.some.injEq]
    rw [ih hb₁ hrun, loose_next hb hnext, commaEnds, Nat.add_assoc]

/-- What stands in front of the tokens matters only for a parenthesis, and only if it is a name. -/
theorem run_eq_run_none (h : NotAt (.symbol .openParen) ts ∨ frameBehind last = none) :
    run last b ts = run none b ts := by
  cases ts with
  | nil => rfl
  | cons t ts =>
    have hnext : b.next last t.kind = b.next none t.kind := by
      obtain h | h := h
      · have ht := notAt_cons.1 h
        unfold next
        split
        · next hk => exact absurd hk ht
        all_goals rfl
      · unfold next
        rw [h]
        rfl
    rw [run, run, hnext]

theorem run_append (last : Option Token) (b : Brackets) (ts us : List Token) :
    run last b (ts ++ us) = (run last b ts).bind fun b => run (ts.getLast?.or last) b us := by
  induction ts generalizing last b with
  | nil => rfl
  | cons t ts ih =>
    have hlast : (t :: ts).getLast?.or last = ts.getLast?.or (some t) := by
      rw [List.getLast?_cons, Option.some_or]
      cases ts.getLast? with
      | none => rfl
      | some u => rfl
    rw [List.cons_append, run, run, Option.bind_assoc, hlast]
    exact congrArg _ (funext fun b => ih (some t) b)

end Run

end Brackets

open Brackets

/-- Behind no name, the tokens change the open brackets so, and close lists with these numbers of
items. -/
def Scans (ts : List Token) (fs fs' : List Frame) (arities : List (String × Nat)) : Prop :=
  ∀ closed, ∃ ls, run none ⟨fs, closed⟩ ts = some ⟨fs', closed ++ ls⟩ ∧
    ls.map NamedList.arity = arities

/-- A token of this kind is just a part of what is in the innermost brackets. -/
def Quiet (kind : TokenKind) : Prop :=
  ∀ last b, next last kind b = some ⟨extended b.opened, b.closed⟩

def bracketPairs : List (Symbol × Symbol) :=
  [(.openParen, .closeParen), (.openBracket, .closeBracket), (.openBrace, .closeBrace)]

section Scans

variable {ts us : List Token} {fs fs' fs'' : List Frame} {as as' : List (String × Nat)} {t : Token}

theorem scans_nil (fs : List Frame) : Scans [] fs fs [] :=
  fun closed => ⟨[], by simp [run], rfl⟩

/-- Where tokens meet other tokens, a parenthesis must not get a name in front of it. -/
theorem Scans.append (h : Scans ts fs fs' as) (h' : Scans us fs' fs'' as')
    (hmeet : NotAt (.symbol .openParen) us ∨ frameBehind ts.getLast? = none) :
    Scans (ts ++ us) fs fs'' (as ++ as') := by
  intro closed
  obtain ⟨ls, hrun, rfl⟩ := h closed
  obtain ⟨ls', hrun', rfl⟩ := h' (closed ++ ls)
  refine ⟨ls ++ ls', ?_, List.map_append⟩
  rw [run_append, hrun, Option.bind_some, Option.or_none, run_eq_run_none hmeet, hrun',
    List.append_assoc]

theorem Quiet.ne_openParen {kind : TokenKind} (h : Quiet kind) : kind ≠ .symbol .openParen := by
  rintro rfl
  cases h none ⟨[], []⟩

theorem scans_one (h : Quiet t.kind) (fs : List Frame) : Scans [t] fs (extended fs) [] := by
  intro closed
  refine ⟨[], ?_, rfl⟩
  rw [run, h, List.append_nil]
  rfl

/-- Nothing but a name in front of a parenthesis keeps a token from standing by itself. -/
theorem Scans.cons (h : Scans ts (extended fs) fs' as) (ht : Quiet t.kind)
    (hmeet : NotAt (.symbol .openParen) ts ∨ t.kind ≠ .name) : Scans (t :: ts) fs fs' as := by
  refine (scans_one ht fs).append h (hmeet.imp_right fun hk => ?_)
  simp [frameBehind, hk]

theorem scans_quiet (h : ∀ t ∈ ts, Quiet t.kind) (hne : ts ≠ []) (fs : List Frame) :
    Scans ts fs (extended fs) [] := by
  induction ts generalizing fs with
  | nil => exact absurd rfl hne
  | cons t ts ih =>
    obtain ⟨ht, hts⟩ := List.forall_mem_cons.1 h
    cases ts with
    | nil => exact scans_one ht fs
    | cons u us =>
      have hrest := ih hts (List.cons_ne_nil _ _) (extended fs)
      rw [extended_extended] at hrest
      exact hrest.cons ht (.inl (notAt_cons.2 (hts u List.mem_cons_self).ne_openParen))

theorem scans_comma (mark : Mark .comma) (name : String) (n : Nat) (fs : List Frame) :
    Scans [mark.1] (some ⟨name, .plain n⟩ :: fs) (some ⟨name, .ended n⟩ :: fs) [] := by
  intro closed
  refine ⟨[], ?_, rfl⟩
  simp [run, next]

/-- Brackets that hold no list change nothing but what they stand in. -/
theorem Scans.brackets {s s' : Symbol} (h : Scans ts (none :: fs) (none :: fs) as)
    (hpair : (s, s') ∈ bracketPairs) (o : Mark s) (c : Mark s') :
    Scans (o.1 :: ts ++ [c.1]) fs (extended fs) as := by
  have hopen : ∀ b, next none (.symbol s) b = some ⟨none :: b.opened, b.closed⟩ := by
    intro b
    simp only [bracketPairs, List.mem_cons, Prod.mk.injEq, List.not_mem_nil, or_false] at hpair
    obtain ⟨rfl, -⟩ | ⟨rfl, -⟩ | ⟨rfl, -⟩ := hpair
    all_goals rfl
  have hclose : s' ≠ .openParen ∧ ∀ last closed, next last (.symbol s') ⟨none :: fs, closed⟩ =
      some ⟨extended fs, closed⟩ := by
    simp only [bracketPairs, List.mem_cons, Prod.mk.injEq, List.not_mem_nil, or_false] at hpair
    obtain ⟨-, rfl⟩ | ⟨-, rfl⟩ | ⟨-, rfl⟩ := hpair
    all_goals exact ⟨by decide, fun _ _ => rfl⟩
  have hone : Scans [o.1] fs (none :: fs) [] :=
    fun closed => ⟨[], by rw [run, o.2, hopen, List.append_nil]; rfl, rfl⟩
  have hlast : Scans [c.1] (none :: fs) (extended fs) [] :=
    fun closed => ⟨[], by rw [run, c.2, hclose.2, List.append_nil]; rfl, rfl⟩
  have hnot : NotAt (.symbol .openParen) [c.1] := by
    rw [notAt_cons, c.2]
    exact fun hk => hclose.1 (TokenKind.symbol.inj hk)
  have hall := (hone.append h (.inr (by simp [frameBehind]))).append hlast (.inl hnot)
  simpa using hall

/-- The list behind a name is closed with what stands in its parentheses. -/
theorem Scans.list {name : TokenOf .name} {l : NamedList}
    (h : Scans ts (some ⟨name.1.text, .empty⟩ :: extended fs) (some l :: extended fs) as)
    (o : Mark .openParen) (c : Mark .closeParen) :
    Scans (name.1 :: o.1 :: ts ++ [c.1]) fs (extended fs) (as ++ [l.arity]) := by
  have hopen : Scans [name.1, o.1] fs (some ⟨name.1.text, .empty⟩ :: extended fs) [] := by
    intro closed
    refine ⟨[], ?_, rfl⟩
    simp [run, next, frameBehind]
  have hclose : Scans [c.1] (some l :: extended fs) (extended fs) [l.arity] := by
    intro closed
    refine ⟨[l], ?_, rfl⟩
    simp [run, next]
  have hfront := hopen.append h (.inr (by simp [frameBehind]))
  have hall := hfront.append hclose (.inl (by simp [NotAt]))
  simpa using hall

end Scans

end FrontEnd.Grammar
