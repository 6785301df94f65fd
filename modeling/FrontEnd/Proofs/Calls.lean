import FrontEnd.Proofs.Counting
import FrontEnd.Proofs.Layout

/-! Calls one after the other. All calls of a session share its place among the tokens and one count
of levels, and each leaves them as it stops, whether it gives a tree or a fault. The count is then
back at zero, so a session remembers its place and nothing else. -/

namespace FrontEnd.Parse

open FrontEnd.Parser FrontEnd.Program

/-- What a session can be called for: to read something, or to say that nothing is left. -/
inductive Call where
  | read (entry : Entry)
  | finish
  deriving DecidableEq

namespace Call

def Answer : Call → Type
  | read entry => entry.Tree
  | finish => Unit

def parser : (c : Call) → Parser c.Answer
  | read entry => entry.parser maxLevels
  | finish => Parser.finish

def counted : (c : Call) → Counted c.Answer
  | read .expr => Counted.expr
  | read .block => Counted.block
  | read .statements => Counted.statements
  | read .script => Counted.script
  | finish => Counted.lift Parser.finish

theorem tracks_counted (c : Call) : Counted.Tracks 0 c.counted c.parser := by
  have hd : 0 + maxLevels = maxLevels := Nat.zero_add _
  cases c with
  | read entry =>
    cases entry with
    | expr => exact Counted.tracks_expr hd
    | block => exact Counted.tracks_block hd
    | statements => exact Counted.tracks_statements hd
    | script => exact Counted.tracks_script hd
  | finish => exact .lift _

theorem alike_self {Same : List Token → List Token → Prop} (h : Aligned Same) (c : Call) :
    Alike Same c.parser c.parser := by
  have hc := congruence_alike h
  have he := alike_expr h maxLevels
  have hb := bodyAlike_level h maxLevels
  cases c with
  | read entry =>
    cases entry with
    | expr => exact he
    | block => exact hb.block
    | statements => exact related_statementsUntil hc he hb none
    | script => exact related_script hc he hb.block
  | finish => exact related_finish hc

/-- A call stops at a later place of its input, and it blames one. -/
theorem places_of_call (c : Call) (ts : List Token) :
    (∃ a us, c.parser ts = .ok a us ∧ us <:+ ts) ∨
    ∃ cause site us, c.parser ts = .error ⟨cause, site⟩ us ∧ site <:+ ts ∧ us <:+ ts := by
  have hm := c.alike_self (aligned_paired (rfl : ts.map face = ts.map face)) ts ts ⟨0, rfl, rfl⟩
  generalize hp : c.parser ts = result at hm
  cases hm with
  | ok a hs =>
    obtain ⟨j, rfl, -⟩ := hs
    exact .inl ⟨a, _, rfl, List.drop_suffix j ts⟩
  | error cause hsite hs =>
    obtain ⟨i, rfl, -⟩ := hsite
    obtain ⟨j, rfl, -⟩ := hs
    exact .inr ⟨cause, _, _, rfl, List.drop_suffix i ts, List.drop_suffix j ts⟩

end Call

end FrontEnd.Parse

namespace FrontEnd

open FrontEnd.Parse

namespace Session

variable {source : String}

def after (calls : List Call) (s : Session) : Session :=
  calls.foldl (fun s c => (s.run c.parser).2) s

theorem goTo_of_suffix {ts us : List Token} (h : us <:+ ts) (passed : Nat) :
    goTo us ⟨source, passed, ts⟩ =
      ⟨source, passed + (ts.length - us.length), ts.drop (ts.length - us.length)⟩ := by
  rw [goTo, ← List.suffix_iff_eq_drop.1 h]

/-- The answer to a call depends on the tokens that are left, and so does how many of them it
passes. It is a tree or an error. -/
theorem exists_answer {ts : List Token} (hb : ∀ t ∈ ts, Source.IsBoundary source t.begin)
    (c : Call) :
    ∃ (answer : Except (Failure ParseError) c.Answer) (k : Nat), k ≤ ts.length ∧
      (∀ v, answer ≠ .error (.violation v)) ∧
      ∀ passed, run c.parser ⟨source, passed, ts⟩ = (answer, ⟨source, passed + k, ts.drop k⟩) := by
  obtain ⟨a, us, hp, hus⟩ | ⟨cause, site, us, hp, hsite, hus⟩ := c.places_of_call ts
  · refine ⟨.ok a, ts.length - us.length, Nat.sub_le _ _, by simp, fun passed => ?_⟩
    simp only [run, hp, goTo_of_suffix hus]
  · obtain ⟨e, he, -⟩ := ParseError.ofFault_of_boundary cause fun t ht => hb t (hsite.subset ht)
    refine ⟨.error (.error e), ts.length - us.length, Nat.sub_le _ _, by simp, fun passed => ?_⟩
    simp only [run, hp, he, goTo_of_suffix hus]

/-- Calls pass tokens from the front. -/
theorem exists_after {tokens : List Token} (hb : ∀ t ∈ tokens, Source.IsBoundary source t.begin)
    (calls : List Call) {i : Nat} (hi : i ≤ tokens.length) :
    ∃ j, i ≤ j ∧ j ≤ tokens.length ∧
      after calls ⟨source, i, tokens.drop i⟩ = ⟨source, j, tokens.drop j⟩ := by
  induction calls generalizing i with
  | nil => exact ⟨i, Nat.le_refl i, hi, rfl⟩
  | cons c calls ih =>
    have hbi : ∀ t ∈ tokens.drop i, Source.IsBoundary source t.begin :=
      fun t ht => hb t (List.mem_of_mem_drop ht)
    obtain ⟨answer, k, hk, -, hrun⟩ := exists_answer hbi c
    rw [List.length_drop] at hk
    have hik : i + k ≤ tokens.length := by omega
    obtain ⟨j, hij, hj, hafter⟩ := ih hik
    refine ⟨j, by omega, hj, ?_⟩
    rw [after, List.foldl_cons, hrun, List.drop_drop]
    exact hafter

end Session

/-- A session whose calls share one count of levels. -/
structure CountedSession extends Session where
  depth : Nat

namespace CountedSession

def ofTokens (source : String) (tokens : List Token) : CountedSession :=
  ⟨Session.ofTokens source tokens, 0⟩

def goTo (place : Place) (s : CountedSession) : CountedSession :=
  ⟨s.toSession.goTo place.rest, place.depth⟩

def call (c : Call) (s : CountedSession) :
    Except (Failure ParseError) c.Answer × CountedSession :=
  match c.counted ⟨s.rest, s.depth⟩ with
  | .ok a place => (.ok a, s.goTo place)
  | .error fault place =>
    match ParseError.ofFault s.source fault with
    | .ok e => (.error (.error e), s.goTo place)
    | .error v => (.error (.violation v), s)

def after (calls : List Call) (s : CountedSession) : CountedSession :=
  calls.foldl (fun s c => (s.call c).2) s

/-- Inside no level a call does what it does with all levels left, and is inside no level again. -/
theorem call_eq (c : Call) (s : Session) :
    call c ⟨s, 0⟩ = ((s.run c.parser).1, ⟨(s.run c.parser).2, 0⟩) := by
  rw [call, c.tracks_counted s.rest, Counted.lift, Session.run]
  dsimp only
  cases c.parser s.rest with
  | ok a rest => rfl
  | error fault rest =>
    dsimp only
    cases ParseError.ofFault s.source fault with
    | ok e => rfl
    | error v => rfl

theorem after_eq (calls : List Call) (s : Session) : after calls ⟨s, 0⟩ = ⟨s.after calls, 0⟩ := by
  induction calls generalizing s with
  | nil => rfl
  | cons c calls ih =>
    rw [after, List.foldl_cons, call_eq]
    exact ih (s.run c.parser).2

/-- A session remembers nothing but its place. After any calls, failed ones among them, it is inside
no level and has passed some number `i` of its tokens. The next call gives a tree or an error, the
same as a new session over the tokens that are left; it passes as many of them, and the session is
inside no level again. A session that counts no levels goes the same way. -/
theorem only_place_remembered {source : String} {tokens : List Token}
    (hb : ∀ t ∈ tokens, Source.IsBoundary source t.begin) (calls : List Call) (c : Call) :
    ∃ (i k : Nat) (answer : Except (Failure ParseError) c.Answer),
      i + k ≤ tokens.length ∧ (∀ v, answer ≠ .error (.violation v)) ∧
      (ofTokens source tokens).after calls = ⟨⟨source, i, tokens.drop i⟩, 0⟩ ∧
      ((ofTokens source tokens).after calls).call c =
        (answer, ⟨⟨source, i + k, tokens.drop (i + k)⟩, 0⟩) ∧
      (ofTokens source (tokens.drop i)).call c =
        (answer, ⟨⟨source, k, (tokens.drop i).drop k⟩, 0⟩) ∧
      (Session.ofTokens source tokens).after calls = ⟨source, i, tokens.drop i⟩ ∧
      ((Session.ofTokens source tokens).after calls).run c.parser =
        (answer, ⟨source, i + k, tokens.drop (i + k)⟩) := by
  obtain ⟨i, -, hi, hafter⟩ := Session.exists_after hb calls (Nat.zero_le tokens.length)
  have hbi : ∀ t ∈ tokens.drop i, Source.IsBoundary source t.begin :=
    fun t ht => hb t (List.mem_of_mem_drop ht)
  obtain ⟨answer, k, hk, hnone, hrun⟩ := Session.exists_answer hbi c
  have hsession : (Session.ofTokens source tokens).after calls = ⟨source, i, tokens.drop i⟩ := hafter
  have hcounted : (ofTokens source tokens).after calls = ⟨⟨source, i, tokens.drop i⟩, 0⟩ := by
    rw [ofTokens, after_eq, hsession]
  have hnew : (ofTokens source (tokens.drop i)).call c =
      (answer, ⟨⟨source, k, (tokens.drop i).drop k⟩, 0⟩) := by
    rw [ofTokens, call_eq, Session.ofTokens, hrun, Nat.zero_add]
  have hcall := hrun i
  rw [List.drop_drop] at hcall
  refine ⟨i, k, answer, ?_, hnone, hcounted, ?_, hnew, hsession, ?_⟩
  · rw [List.length_drop] at hk
    omega
  · rw [hcounted, call_eq, hcall]
  · rw [hsession, hcall]

/-- The tokens of `(( ] x = 1;`. -/
def brokenGroup : List Token :=
  [⟨.symbol .openParen, "(", 0⟩, ⟨.symbol .openParen, "(", 1⟩, ⟨.symbol .closeBracket, "]", 3⟩,
    ⟨.name, "x", 5⟩, ⟨.symbol .assign, "=", 7⟩, ⟨.int, "1", 9⟩, ⟨.symbol .semicolon, ";", 10⟩]

/-- The expression fails inside three levels, at the bracket, and that is passed. Behind it tokens are
left, and they are no block; they are read as the statement that they are on their own. -/
theorem only_place_remembered_brokenGroup :
    tokenize "(( ] x = 1;" = .ok brokenGroup ∧
    (∃ e, ((ofTokens "(( ] x = 1;" brokenGroup).call (.read .expr)).1 = .error (.error e)) ∧
    ((ofTokens "(( ] x = 1;" brokenGroup).after [.read .expr, .finish, .read .block]).call
        (.read .statements) =
      (.ok [.assignment (.var "x" none) (.constant (.int 1))], ⟨⟨"(( ] x = 1;", 7, []⟩, 0⟩) ∧
    (ofTokens "(( ] x = 1;" (brokenGroup.drop 3)).call (.read .statements) =
      (.ok [.assignment (.var "x" none) (.constant (.int 1))], ⟨⟨"(( ] x = 1;", 4, []⟩, 0⟩) := by
  have ht : tokenize "(( ] x = 1;" = .ok brokenGroup := by decide +kernel
  have hb := isBoundary_of_tokenize ht
  have hpassed : ((Session.ofTokens "(( ] x = 1;" brokenGroup).after
      [.read .expr, .finish, .read .block]).passed = 3 := by decide +kernel
  have hnew : (ofTokens "(( ] x = 1;" (brokenGroup.drop 3)).call (.read .statements) =
      (.ok [.assignment (.var "x" none) (.constant (.int 1))], ⟨⟨"(( ] x = 1;", 4, []⟩, 0⟩) := by rfl
  have hfails : ∃ e, ((ofTokens "(( ] x = 1;" brokenGroup).call (.read .expr)).1 =
      .error (.error e) := ⟨_, rfl⟩
  obtain ⟨i, k, answer, -, -, -, hcall, hfresh, hafter, -⟩ :=
    only_place_remembered hb [.read .expr, .finish, .read .block] (.read .statements)
  obtain rfl : 3 = i := hpassed.symm.trans (congrArg Session.passed hafter)
  obtain ⟨rfl, hend⟩ := Prod.mk.inj (hnew.symm.trans hfresh)
  obtain rfl : 4 = k := congrArg (fun s => s.passed) hend
  exact ⟨ht, hfails, hcall, hnew⟩

end CountedSession

end FrontEnd
