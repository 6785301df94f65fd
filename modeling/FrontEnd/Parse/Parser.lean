import FrontEnd.Program.Script
import FrontEnd.Token.Basic

/-! Parsers over tokens. A parser takes tokens off the front of the rest of its input and gives a
result, or stops with a fault; the rest stays where it stopped. Loops run on the number of tokens
that are left, and `loop_eq` and `many_eq` say that this is no bound as long as every round takes a
token. -/

namespace FrontEnd

inductive Cause where
  /-- A token, or the end, where another kind is expected or where none fits. -/
  | unexpected (expected : Option TokenKind)
  | definition (e : Program.DefinitionError)
  | invalidLiteral (text : String)
  | invalidTarget
  | tooDeep
  deriving DecidableEq

/-- What is wrong, and the input from the token on that shows it. -/
structure Fault where
  cause : Cause
  site : List Token
  deriving DecidableEq

/-- A parser: its state is the rest of the input. -/
abbrev Parser := EStateM Fault (List Token)

namespace Parser

def fail {α : Type} (cause : Cause) : Parser α := fun ts =>
  .error ⟨cause, ts⟩ ts

/-- Stops, with the blame on an earlier token. -/
def failAt {α : Type} (site : List Token) (cause : Cause) : Parser α := fun ts =>
  .error ⟨cause, site⟩ ts

def kind? : Parser (Option TokenKind) := fun ts =>
  .ok (ts.head?.map Token.kind) ts

def skip : Parser Unit := fun ts =>
  .ok () ts.tail

def isAt (kind : TokenKind) : Parser Bool := fun ts =>
  .ok (ts.head?.any fun t => t.kind = kind) ts

def take (kind : TokenKind) : Parser Bool
  | [] => .ok false []
  | t :: ts => if t.kind = kind then .ok true ts else .ok false (t :: ts)

def expect (kind : TokenKind) : Parser Token
  | [] => .error ⟨.unexpected (some kind), []⟩ []
  | t :: ts =>
    if t.kind = kind then .ok t ts else .error ⟨.unexpected (some kind), t :: ts⟩ (t :: ts)

def symbol (s : Symbol) : Parser Unit := do
  let _ ← expect (.symbol s)

def name : Parser String := do
  return (← expect .name).text

def finish : Parser Unit
  | [] => .ok () []
  | ts => .error ⟨.unexpected none, ts⟩ ts

/-- Rounds of a loop, at most one more than the clock has tokens. -/
def iterate {σ : Type} (step : σ → Parser (Option σ)) : List Token → σ → Parser σ
  | [], s => do
    match ← step s with
    | none => pure s
    | some s' => pure s'
  | _ :: clock, s => do
    match ← step s with
    | none => pure s
    | some s' => iterate step clock s'

/-- Repeats a step on its own results until it gives none. -/
def loop {σ : Type} (step : σ → Parser (Option σ)) (s : σ) : Parser σ := fun ts =>
  iterate step ts s ts

def collect {α : Type} (item : Parser (Option α)) (done : List α) : Parser (Option (List α)) := do
  return (← item).map (· :: done)

def many {α : Type} (item : Parser (Option α)) : Parser (List α) := do
  return (← loop (collect item) []).reverse

/-- Items with commas between them, up to a closing token, which stays. A comma may stand in front
of that token. -/
def commaList {α : Type} (close : TokenKind) (item : Parser α) : Parser (List α) := do
  if ← isAt close then return []
  let first ← item
  let more ← many do
    if ← take (.symbol .comma) then
      if ← isAt close then return none
      return some (← item)
    return none
  return first :: more

theorem pure_apply {α : Type} (a : α) (ts : List Token) : (pure a : Parser α) ts = .ok a ts := rfl

theorem bind_apply {α β : Type} (p : Parser α) (f : α → Parser β) (ts : List Token) :
    (p >>= f) ts =
      match p ts with
      | .ok a ts' => f a ts'
      | .error e ts' => .error e ts' := by
  simp only [bind, EStateM.bind]
  cases p ts <;> rfl

/-- Every round that goes on takes a token. -/
def Advances {σ : Type} (step : σ → Parser (Option σ)) : Prop :=
  ∀ s ts s' ts', step s ts = .ok (some s') ts' → ts'.length < ts.length

theorem iterate_nil {σ : Type} (step : σ → Parser (Option σ)) (s : σ) (ts : List Token) :
    iterate step [] s ts =
      match step s ts with
      | .ok none ts' => .ok s ts'
      | .ok (some s') ts' => .ok s' ts'
      | .error e ts' => .error e ts' := by
  rw [iterate, bind_apply]
  rcases step s ts with ⟨_ | s', ts'⟩ | ⟨e, ts'⟩ <;> rfl

theorem iterate_cons {σ : Type} (step : σ → Parser (Option σ)) (t : Token) (clock : List Token)
    (s : σ) (ts : List Token) :
    iterate step (t :: clock) s ts =
      match step s ts with
      | .ok none ts' => .ok s ts'
      | .ok (some s') ts' => iterate step clock s' ts'
      | .error e ts' => .error e ts' := by
  rw [iterate, bind_apply]
  rcases step s ts with ⟨_ | s', ts'⟩ | ⟨e, ts'⟩ <;> rfl

/-- Two clocks that are long enough make no difference. -/
theorem iterate_clock {σ : Type} {step : σ → Parser (Option σ)} (h : Advances step)
    (c d : List Token) (s : σ) (ts : List Token) (hc : ts.length ≤ c.length)
    (hd : ts.length ≤ d.length) : iterate step c s ts = iterate step d s ts := by
  induction c generalizing d s ts with
  | nil =>
    cases d with
    | nil => rfl
    | cons u d =>
      rw [iterate_nil, iterate_cons]
      rcases hs : step s ts with (_ | s') | _
      · rfl
      · have := h _ _ _ _ hs
        simp only [List.length_nil] at hc
        omega
      · rfl
  | cons t c ih =>
    cases d with
    | nil =>
      rw [iterate_nil, iterate_cons]
      rcases hs : step s ts with (_ | s') | _
      · rfl
      · have := h _ _ _ _ hs
        simp only [List.length_nil] at hd
        omega
      · rfl
    | cons u d =>
      rw [iterate_cons, iterate_cons]
      rcases hs : step s ts with (_ | s') | _
      · rfl
      · have := h _ _ _ _ hs
        simp only [List.length_cons] at hc hd
        exact ih d s' _ (by omega) (by omega)
      · rfl

/-- A loop is one round and the loop again. -/
theorem loop_eq {σ : Type} {step : σ → Parser (Option σ)} (h : Advances step) (s : σ)
    (ts : List Token) :
    loop step s ts =
      match step s ts with
      | .ok none ts' => .ok s ts'
      | .ok (some s') ts' => loop step s' ts'
      | .error e ts' => .error e ts' := by
  have t : Token := ⟨.name, "", 0⟩
  rw [loop, iterate_clock h ts (t :: ts) s ts (Nat.le_refl _) (Nat.le_succ _), iterate_cons]
  rcases hs : step s ts with (_ | s') | _
  · rfl
  · exact iterate_clock h _ _ _ _ (Nat.le_of_lt (h _ _ _ _ hs)) (Nat.le_refl _)
  · rfl

/-- Every item takes a token. -/
def ItemAdvances {α : Type} (item : Parser (Option α)) : Prop :=
  ∀ ts a ts', item ts = .ok (some a) ts' → ts'.length < ts.length

theorem collect_apply {α : Type} (item : Parser (Option α)) (done : List α) (ts : List Token) :
    collect item done ts =
      match item ts with
      | .ok a? ts' => .ok (a?.map (· :: done)) ts'
      | .error e ts' => .error e ts' := by
  rw [collect, bind_apply]
  cases item ts <;> rfl

theorem advances_collect {α : Type} {item : Parser (Option α)} (h : ItemAdvances item) :
    Advances (collect item) := by
  intro done ts done' ts' hs
  rw [collect_apply] at hs
  rcases hi : item ts with ⟨_ | a, us⟩ | ⟨e, us⟩ <;> rw [hi] at hs
  · cases hs
  · cases hs
    exact h _ _ _ hi
  · cases hs

/-- Items found before stay behind those that are found. -/
theorem loop_collect {α : Type} {item : Parser (Option α)} (h : ItemAdvances item) (done : List α)
    (ts : List Token) :
    loop (collect item) done ts =
      match loop (collect item) [] ts with
      | .ok as ts' => .ok (as ++ done) ts'
      | .error e ts' => .error e ts' := by
  induction hn : ts.length using Nat.strongRecOn generalizing done ts with
  | ind n ih =>
    subst hn
    rw [loop_eq (advances_collect h), loop_eq (advances_collect h) [] ts, collect_apply,
      collect_apply]
    rcases hi : item ts with ⟨_ | a, us⟩ | ⟨e, us⟩
    · rfl
    · dsimp only [Option.map_some]
      rw [ih _ (h _ _ _ hi) (a :: done) us rfl, ih _ (h _ _ _ hi) [a] us rfl]
      cases loop (collect item) [] us with
      | ok as vs => simp
      | error e vs => rfl
    · rfl

/-- The items are none, or one and then the items of the rest. -/
theorem many_eq {α : Type} {item : Parser (Option α)} (h : ItemAdvances item) (ts : List Token) :
    many item ts =
      match item ts with
      | .ok none ts' => .ok [] ts'
      | .ok (some a) ts' =>
        match many item ts' with
        | .ok as ts'' => .ok (a :: as) ts''
        | .error e ts'' => .error e ts''
      | .error e ts' => .error e ts' := by
  have hm : ∀ ts, many item ts =
      match loop (collect item) [] ts with
      | .ok as ts' => .ok as.reverse ts'
      | .error e ts' => .error e ts' := by
    intro ts
    rw [many, bind_apply]
    cases loop (collect item) [] ts <;> rfl
  rw [hm, loop_eq (advances_collect h), collect_apply]
  rcases item ts with ⟨_ | a, us⟩ | ⟨e, us⟩
  · rfl
  · dsimp only [Option.map_some]
    rw [loop_collect h, hm]
    cases loop (collect item) [] us with
    | ok as vs => simp
    | error e vs => rfl
  · rfl

end Parser

end FrontEnd
