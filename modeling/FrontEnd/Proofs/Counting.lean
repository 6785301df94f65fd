import FrontEnd.Proofs.NestingLimit

/-! Parsers that count the levels they are inside. They are made as the other parsers are, step by
step, but the count is part of their state: it goes up on the way into a level and down on the way
out, whether the level gives a result or a fault, and nothing but the count stops the nesting.
Started inside `d` levels, such a parser does what the one does that has the other levels left, and
it stops inside `d` levels again. -/

namespace FrontEnd.Parse

open FrontEnd.Parser FrontEnd.Program

structure Place where
  rest : List Token
  depth : Nat

abbrev Counted := EStateM Fault Place

namespace Counted

variable {α β σ : Type}

def lift (p : Parser α) : Counted α := fun s =>
  match p s.rest with
  | .ok a rest => .ok a { s with rest }
  | .error fault rest => .error fault { s with rest }

instance : MonadLift Parser Counted where
  monadLift := lift

/-- Runs a parser one level further in, unless the limit is reached. -/
def nested (p : Counted α) : Counted α := fun s =>
  if maxLevels ≤ s.depth then .error ⟨.tooDeep, s.rest⟩ s
  else
    match p { s with depth := s.depth + 1 } with
    | .ok a s' => .ok a { s' with depth := s'.depth - 1 }
    | .error fault s' => .error fault { s' with depth := s'.depth - 1 }

def iterate (step : σ → Counted (Option σ)) : List Token → σ → Counted σ
  | [], s => do
    match ← step s with
    | none => pure s
    | some s' => pure s'
  | _ :: clock, s => do
    match ← step s with
    | none => pure s
    | some s' => iterate step clock s'

def loop (step : σ → Counted (Option σ)) (s : σ) : Counted σ := do
  iterate step (← get).rest s

def many (item : Counted (Option α)) : Counted (List α) := do
  let found ← loop (fun done => do return (← item).map (· :: done)) []
  return found.reverse

def commaList (close : TokenKind) (item : Counted α) : Counted (List α) := do
  if ← isAt close then return []
  let first ← item
  let more ← many do
    if ← take (.symbol .comma) then
      if ← isAt close then return none
      return some (← item)
    return none
  return first :: more

section Expr

/-- The parsers of expressions and links, each of which enters a level. -/
structure Inner where
  expr : Nat → Counted Expr
  child : Counted (Option Expr)

def link (inner : Inner) (name : String) : Counted Expr := do
  if ← take (.symbol .openParen) then
    let args ← commaList (.symbol .closeParen) (inner.expr 0)
    symbol .closeParen
    return .call name args (← inner.child)
  if ← take (.symbol .openBracket) then
    let i ← inner.expr 0
    symbol .closeBracket
    return .index name i (← inner.child)
  return .var name (← inner.child)

def childBy (link : String → Counted Expr) : Counted (Option Expr) := do
  if ← take (.symbol .period) then
    return some (← link (← name))
  return none

def operandAt (inner : Inner) (site : List Token) (t : Token) : Counted Expr :=
  match t.kind with
  | .int => literal site t.text ((Number.readInt? t.text).map .int)
  | .float => literal site t.text ((Number.readFloat? t.text).map .float)
  | .string => return .constant (.string t.text)
  | .keyword .trueKw => return .constant (.bool true)
  | .keyword .falseKw => return .constant (.bool false)
  | .keyword .nullKw => return .constant .null
  | .symbol .openParen => do
    let e ← inner.expr 0
    symbol .closeParen
    return e
  | .symbol .minus => return .negate (← inner.expr unaryPower)
  | .symbol .bang => return .inverse (← inner.expr unaryPower)
  | .keyword .localKw => do
    let name ← name
    return .declaration name (← typeRef)
  | .keyword .selfKw => return .this (← inner.child)
  | .symbol .hash => do
    let name ← name
    return .classRef ⟨name, 0⟩ (← inner.child)
  | .name => link inner t.text
  | _ => failAt site (.unexpected none)

def operand (inner : Inner) : Counted Expr := do
  match (← get).rest with
  | [] => fail (.unexpected none)
  | t :: ts =>
    skip
    operandAt inner (t :: ts) t

def extend (inner : Inner) (floor : Nat) (lhs : Expr) : Counted (Option Expr) := do
  match (← kind?).bind binding? with
  | none => return none
  | some b =>
    if b.left < floor then return none
    skip
    return some (.binary b.op lhs (← inner.expr b.right))

def operands (inner : Inner) (floor : Nat) : Counted Expr := do
  loop (extend inner floor) (← operand inner)

/-- The parsers of expressions call one another. Here the calls are written out a number of times,
down to parsers that stand for all further calls. -/
def unrolled (beyond : Inner) : Nat → Inner
  | 0 => beyond
  | n + 1 =>
    ⟨fun floor => nested (operands (unrolled beyond n) floor),
      childBy fun name => nested (link (unrolled beyond n) name)⟩

/-- An expression. No call gets beyond one more than the levels, whatever is put there. -/
def expr : Counted Expr :=
  (unrolled ⟨fun _ => pure (.constant .null), pure none⟩ (maxLevels + 1)).expr 0

end Expr

section Statement

structure InnerBody where
  block : Counted (List Statement)
  elseIf : Counted Branches

def returned : Counted (Option Expr) := do
  if ← isAt (.symbol .semicolon) then return none
  return some (← expr)

def simpleStatement : Counted Statement := do
  let site := (← get).rest
  let e ← expr
  if ← take (.symbol .assign) then
    ensureAssignable site e
    return .assignment e (← expr)
  if ← take (.symbol .increment) then
    ensureAssignable site e
    return .increment e
  if ← take (.symbol .decrement) then
    ensureAssignable site e
    return .decrement e
  return .ofExpr e

def statement (block : Counted (List Statement)) : Counted Statement := do
  let site := (← get).rest
  match ← kind? with
  | none => fail (.unexpected none)
  | some (.keyword .whileKw) =>
    skip
    let condition ← expr
    return .loop condition (← block)
  | some (.symbol .openBrace) => return .block (← block)
  | some (.keyword .returnKw) =>
    skip
    let value ← returned
    symbol .semicolon
    return .ret value
  | some (.symbol .increment) =>
    skip
    let target ← expr
    ensureAssignable site target
    symbol .semicolon
    return .increment target
  | some (.symbol .decrement) =>
    skip
    let target ← expr
    ensureAssignable site target
    symbol .semicolon
    return .decrement target
  | some _ =>
    let s ← simpleStatement
    symbol .semicolon
    return s

def branches (inner : InnerBody) : Counted Branches := do
  let _ ← expect (.keyword .ifKw)
  let condition ← expr
  let thenPart ← inner.block
  if ← take (.keyword .elseKw) then
    if ← isAt (.keyword .ifKw) then
      let b ← inner.elseIf
      return ⟨condition, thenPart, some [b.toStatement []]⟩
    return ⟨condition, thenPart, some (← inner.block)⟩
  return ⟨condition, thenPart, none⟩

def item (inner : InnerBody) (close : Option TokenKind) : Counted (Option Item) := do
  match ← kind? with
  | none => return none
  | some kind =>
    if close = some kind then return none
    if kind = .keyword .ifKw then return some (.branches (← branches inner))
    return some (.plain (← statement inner.block))

def statementsUntil (inner : InnerBody) (close : Option TokenKind) : Counted (List Statement) := do
  return Item.assemble (← many (item inner close))

def braced (inner : InnerBody) : Counted (List Statement) := do
  symbol .openBrace
  let body ← statementsUntil inner (some (.symbol .closeBrace))
  symbol .closeBrace
  return body

def unrolledBody (beyond : InnerBody) : Nat → InnerBody
  | 0 => beyond
  | n + 1 => ⟨nested (braced (unrolledBody beyond n)), nested (branches (unrolledBody beyond n))⟩

def body : InnerBody :=
  unrolledBody ⟨pure [], pure ⟨.constant .null, [], none⟩⟩ (maxLevels + 1)

def block : Counted (List Statement) :=
  body.block

def statements : Counted (List Statement) :=
  statementsUntil body none

end Statement

section Script

def attributes : Counted (List Attribute) :=
  many do
    if ← take (.symbol .atSign) then
      let name ← name
      symbol .openParen
      let args ← commaList (.symbol .closeParen) expr
      symbol .closeParen
      return some ⟨name, args⟩
    return none

def method (attributes : List Attribute) (name : String) (privacy : Privacy) (isStatic : Bool) :
    Counted MethodDecl := do
  let params ← parameters
  let returns ← typeRef
  let body ← block
  return { attributes, name, privacy, isStatic, params, returns, body := some body }

def member : Counted (Option Member) := do
  if ← isAt (.symbol .closeBrace) then return none
  let attributes ← attributes
  let privacy ← privacy
  let isStatic ← take (.keyword .staticKw)
  let name ← name
  if ← isAt (.symbol .openParen) then
    return some (.method (← method attributes name privacy isStatic))
  let type ← typeRef
  symbol .semicolon
  return some (.field { attributes, name, privacy, isStatic, type })

def classDefinition (attributes : List Attribute) : Counted ClassDecl := do
  let privacy ← privacy
  let _ ← expect (.keyword .classKw)
  let name ← name
  symbol .openBrace
  let members ← many member
  symbol .closeBrace
  return { attributes, name, privacy
           fields := members.filterMap Member.field?
           methods := members.filterMap Member.method? }

def part : Counted (Option Part) := do
  let attributes ← attributes
  match ← kind? with
  | none => if attributes.isEmpty then return none else fail (.unexpected none)
  | some (.keyword .importKw) =>
    if attributes.isEmpty then
      skip
      let path ← path
      symbol .semicolon
      return some (.importing path)
    else fail (.unexpected none)
  | some (.keyword .funcKw) =>
    skip
    let name ← name
    return some (.function (← method attributes name .global false))
  | some (.keyword .foreignKw) =>
    skip
    return some (.function (← foreignFunction attributes))
  | some (.keyword .publicKw) => return some (.defining (← classDefinition attributes))
  | some (.keyword .privateKw) => return some (.defining (← classDefinition attributes))
  | some _ => fail (.unexpected none)

def script : Counted Script := do
  let _ ← expect (.keyword .namespaceKw)
  let path ← path
  symbol .semicolon
  let parts ← many part
  return Part.toScript path parts

end Script

/-- Inside `d` levels the counting parser does what the other one does, and it is inside `d` levels
again when it stops. -/
def Tracks (d : Nat) (c : Counted α) (p : Parser α) : Prop :=
  ∀ ts, c ⟨ts, d⟩ = lift p ⟨ts, d⟩

theorem bind_apply (c : Counted α) (f : α → Counted β) (s : Place) :
    (c >>= f) s =
      match c s with
      | .ok a s' => f a s'
      | .error e s' => .error e s' := by
  simp only [bind, EStateM.bind]
  cases c s <;> rfl

namespace Tracks

variable {d : Nat}

theorem lift (p : Parser α) : Tracks d (lift p) p :=
  fun _ => rfl

theorem pure (a : α) : Tracks d (pure a) (pure a) :=
  fun _ => rfl

theorem bind {c : Counted α} {p : Parser α} {f : α → Counted β} {g : α → Parser β}
    (h : Tracks d c p) (hf : ∀ a, Tracks d (f a) (g a)) : Tracks d (c >>= f) (p >>= g) := by
  intro ts
  rw [Counted.bind_apply, h ts, Counted.lift, Counted.lift, Parser.bind_apply]
  cases p ts with
  | ok a us => exact hf a us
  | error e us => rfl

/-- A step that enters no level. -/
theorem step {p : Parser α} {f : α → Counted β} {g : α → Parser β}
    (hf : ∀ a, Tracks d (f a) (g a)) : Tracks d (Counted.lift p >>= f) (p >>= g) :=
  (lift p).bind hf

theorem here {f : Place → Counted α} {g : List Token → Parser α}
    (h : ∀ ts, Tracks d (f ⟨ts, d⟩) (g ts)) : Tracks d (get >>= f) (get >>= g) :=
  fun ts => h ts ts

theorem ite {b : Prop} [Decidable b] {c c' : Counted α} {p p' : Parser α} (h : Tracks d c p)
    (h' : Tracks d c' p') : Tracks d (if b then c else c') (if b then p else p') := by
  split
  · exact h
  · exact h'

/-- The way in and the way out of a level. -/
theorem nested {c : Counted α} {p : Parser α} (hd : d < maxLevels) (h : Tracks (d + 1) c p) :
    Tracks d (nested c) p := by
  intro ts
  rw [Counted.nested, if_neg (Nat.not_le.2 hd), h ts, Counted.lift, Counted.lift]
  cases p ts with
  | ok a us => rfl
  | error e us => rfl

/-- No level is left. -/
theorem nested_tooDeep {c : Counted α} : Tracks maxLevels (Counted.nested c) (fail .tooDeep) := by
  intro ts
  rw [Counted.nested, if_pos (Nat.le_refl _)]
  rfl

theorem iterate {step : σ → Counted (Option σ)} {step' : σ → Parser (Option σ)}
    (h : ∀ s, Tracks d (step s) (step' s)) (clock : List Token) (s : σ) :
    Tracks d (iterate step clock s) (Parser.iterate step' clock s) := by
  induction clock generalizing s with
  | nil =>
    refine (h s).bind fun s? => ?_
    cases s? with
    | none => exact pure _
    | some s' => exact pure _
  | cons t clock ih =>
    refine (h s).bind fun s? => ?_
    cases s? with
    | none => exact pure _
    | some s' => exact ih s'

theorem loop {step : σ → Counted (Option σ)} {step' : σ → Parser (Option σ)}
    (h : ∀ s, Tracks d (step s) (step' s)) (s : σ) :
    Tracks d (loop step s) (Parser.loop step' s) :=
  fun ts => iterate h ts s ts

theorem many {item : Counted (Option α)} {item' : Parser (Option α)} (h : Tracks d item item') :
    Tracks d (many item) (Parser.many item') :=
  (loop (fun _ => h.bind fun _ => pure _) []).bind fun _ => pure _

theorem commaList (close : TokenKind) {item : Counted α} {item' : Parser α}
    (h : Tracks d item item') :
    Tracks d (commaList close item) (Parser.commaList close item') := by
  refine step fun _ => ite (pure _) (h.bind fun _ => (many ?_).bind fun _ => pure _)
  exact step fun _ => ite (step fun _ => ite (pure _) (h.bind fun _ => pure _)) (pure _)

end Tracks

section Expr

variable {d : Nat} {inner : Inner} {inner' : Parse.Inner}

structure InnerTracks (d : Nat) (inner : Inner) (inner' : Parse.Inner) : Prop where
  expr : ∀ floor, Tracks d (inner.expr floor) (inner'.expr floor)
  child : Tracks d inner.child inner'.child

theorem tracks_link (h : InnerTracks d inner inner') (name : String) :
    Tracks d (link inner name) (Parse.link inner' name) := by
  refine .step fun _ => .ite ?_ (.step fun _ => .ite ?_ ?_)
  · exact (Tracks.commaList _ (h.expr 0)).bind fun _ => .step fun _ => h.child.bind fun _ => .pure _
  · exact (h.expr 0).bind fun _ => .step fun _ => h.child.bind fun _ => .pure _
  · exact h.child.bind fun _ => .pure _

theorem tracks_childBy {link : String → Counted Expr} {link' : String → Parser Expr}
    (h : ∀ name, Tracks d (link name) (link' name)) :
    Tracks d (childBy link) (Parse.childBy link') :=
  .step fun _ => .ite (.step fun name => (h name).bind fun _ => .pure _) (.pure _)

theorem tracks_operandAt (h : InnerTracks d inner inner') (site : List Token) (t : Token) :
    Tracks d (operandAt inner site t) (Parse.operandAt inner' site t) := by
  have hunary := h.expr unaryPower
  obtain ⟨kind, text, start⟩ := t
  unfold operandAt Parse.operandAt
  dsimp only
  split
  · exact .lift _
  · exact .lift _
  · exact .pure _
  · exact .pure _
  · exact .pure _
  · exact .pure _
  · exact (h.expr 0).bind fun _ => .step fun _ => .pure _
  · exact hunary.bind fun _ => .pure _
  · exact hunary.bind fun _ => .pure _
  · exact .step fun _ => .step fun _ => .pure _
  · exact h.child.bind fun _ => .pure _
  · exact .step fun _ => h.child.bind fun _ => .pure _
  · exact tracks_link h _
  -- What the one match leaves over the other one leaves over too, so its other cases are absurd.
  · try split
    all_goals first | (simp_all; done) | exact .lift _

theorem tracks_operand (h : InnerTracks d inner inner') :
    Tracks d (operand inner) (Parse.operand inner') := by
  rw [operand_eq]
  refine .here fun ts => ?_
  cases ts with
  | nil => exact .lift _
  | cons t ts => exact .step fun _ => tracks_operandAt h _ t

theorem tracks_extend (h : InnerTracks d inner inner') (floor : Nat) (lhs : Expr) :
    Tracks d (extend inner floor lhs) (Parse.extend inner' floor lhs) := by
  refine .step fun k? => ?_
  cases k?.bind binding? with
  | none => exact .pure _
  | some b => exact .ite (.pure _) (.step fun _ => (h.expr _).bind fun _ => .pure _)

theorem tracks_operands (h : InnerTracks d inner inner') (floor : Nat) :
    Tracks d (operands inner floor) (Parse.operands inner' floor) :=
  (tracks_operand h).bind fun _ => .loop (tracks_extend h floor) _

/-- With more calls written out than levels are left, the count stops the nesting before the last
one. -/
theorem innerTracks_unrolled (beyond : Inner) {n calls : Nat} (hd : d + n = maxLevels)
    (hn : n < calls) : InnerTracks d (unrolled beyond calls) (level n) := by
  induction calls generalizing d n with
  | zero => omega
  | succ calls ih =>
    cases n with
    | zero =>
      obtain rfl : d = maxLevels := hd
      exact ⟨fun _ => .nested_tooDeep, tracks_childBy fun _ => .nested_tooDeep⟩
    | succ n =>
      have hlt : d < maxLevels := by omega
      have hi : InnerTracks (d + 1) (unrolled beyond calls) (level n) := ih (by omega) (by omega)
      exact ⟨fun floor => .nested hlt (tracks_operands hi floor),
        tracks_childBy fun name => .nested hlt (tracks_link hi name)⟩

theorem tracks_expr {n : Nat} (hd : d + n = maxLevels) : Tracks d expr (Parse.expr n) :=
  (innerTracks_unrolled _ hd (by omega)).expr 0

end Expr

section Statement

variable {d : Nat} {inner : InnerBody} {inner' : Parse.InnerBody} {p : Parser Expr}

structure BodyTracks (d : Nat) (inner : InnerBody) (inner' : Parse.InnerBody) : Prop where
  block : Tracks d inner.block inner'.block
  elseIf : Tracks d inner.elseIf inner'.elseIf

theorem tracks_returned (he : Tracks d expr p) : Tracks d returned (Parse.returned p) :=
  .step fun _ => .ite (.pure _) (he.bind fun _ => .pure _)

theorem tracks_simpleStatement (he : Tracks d expr p) :
    Tracks d simpleStatement (Parse.simpleStatement p) := by
  refine .here fun site => he.bind fun e => .step fun _ => .ite ?_
    (.step fun _ => .ite ?_ (.step fun _ => .ite ?_ (.pure _)))
  · exact .step fun _ => he.bind fun _ => .pure _
  · exact .step fun _ => .pure _
  · exact .step fun _ => .pure _

theorem tracks_statement (he : Tracks d expr p) {block : Counted (List Statement)}
    {block' : Parser (List Statement)} (hb : Tracks d block block') :
    Tracks d (statement block) (Parse.statement p block') := by
  refine .here fun site => .step fun kind => ?_
  split
  · exact .lift _
  · exact .step fun _ => he.bind fun _ => hb.bind fun _ => .pure _
  · exact hb.bind fun _ => .pure _
  · exact .step fun _ => (tracks_returned he).bind fun _ => .step fun _ => .pure _
  · exact .step fun _ => he.bind fun _ => .step fun _ => .step fun _ => .pure _
  · exact .step fun _ => he.bind fun _ => .step fun _ => .step fun _ => .pure _
  · try split
    all_goals first
      | (simp_all; done)
      | exact (tracks_simpleStatement he).bind fun _ => .step fun _ => .pure _

theorem tracks_branches (he : Tracks d expr p) (h : BodyTracks d inner inner') :
    Tracks d (branches inner) (Parse.branches p inner') := by
  refine .step fun _ => he.bind fun _ => h.block.bind fun _ =>
    .step fun _ => .ite (.step fun _ => .ite ?_ ?_) (.pure _)
  · exact h.elseIf.bind fun _ => .pure _
  · exact h.block.bind fun _ => .pure _

theorem tracks_item (he : Tracks d expr p) (h : BodyTracks d inner inner')
    (close : Option TokenKind) : Tracks d (item inner close) (Parse.item p inner' close) := by
  refine .step fun kind => ?_
  cases kind with
  | none => exact .pure _
  | some kind =>
    exact .ite (.pure _) (.ite ((tracks_branches he h).bind fun _ => .pure _)
      ((tracks_statement he h.block).bind fun _ => .pure _))

theorem tracks_statementsUntil (he : Tracks d expr p) (h : BodyTracks d inner inner')
    (close : Option TokenKind) :
    Tracks d (statementsUntil inner close) (Parse.statementsUntil p inner' close) :=
  (Tracks.many (tracks_item he h close)).bind fun _ => .pure _

theorem tracks_braced (he : Tracks d expr p) (h : BodyTracks d inner inner') :
    Tracks d (braced inner) (Parse.braced p inner') :=
  .step fun _ => (tracks_statementsUntil he h _).bind fun _ => .step fun _ => .pure _

theorem bodyTracks_unrolled (beyond : InnerBody) {n calls : Nat} (hd : d + n = maxLevels)
    (hn : n < calls) : BodyTracks d (unrolledBody beyond calls) (bodyLevel n) := by
  induction calls generalizing d n with
  | zero => omega
  | succ calls ih =>
    cases n with
    | zero =>
      obtain rfl : d = maxLevels := hd
      exact ⟨.nested_tooDeep, .nested_tooDeep⟩
    | succ n =>
      have hlt : d < maxLevels := by omega
      have he : Tracks (d + 1) expr (Parse.expr n) := tracks_expr (by omega)
      have hi : BodyTracks (d + 1) (unrolledBody beyond calls) (bodyLevel n) :=
        ih (by omega) (by omega)
      exact ⟨.nested hlt (tracks_braced he hi), .nested hlt (tracks_branches he hi)⟩

theorem bodyTracks_body {n : Nat} (hd : d + n = maxLevels) : BodyTracks d body (bodyLevel n) :=
  bodyTracks_unrolled _ hd (by omega)

theorem tracks_block {n : Nat} (hd : d + n = maxLevels) : Tracks d block (Parse.block n) :=
  (bodyTracks_body hd).block

theorem tracks_statements {n : Nat} (hd : d + n = maxLevels) :
    Tracks d statements (Parse.statements n) :=
  tracks_statementsUntil (tracks_expr hd) (bodyTracks_body hd) none

end Statement

section Script

variable {d n : Nat}

theorem tracks_attributes (he : Tracks d expr (Parse.expr n)) :
    Tracks d attributes (Parse.attributes n) :=
  .many (.step fun _ => .ite (.step fun _ => .step fun _ =>
    (Tracks.commaList _ he).bind fun _ => .step fun _ => .pure _) (.pure _))

theorem tracks_method (hb : Tracks d block (Parse.block n)) (attributes : List Attribute)
    (name : String) (privacy : Privacy) (isStatic : Bool) :
    Tracks d (method attributes name privacy isStatic)
      (Parse.method n attributes name privacy isStatic) :=
  .step fun _ => .step fun _ => hb.bind fun _ => .pure _

theorem tracks_member (he : Tracks d expr (Parse.expr n)) (hb : Tracks d block (Parse.block n)) :
    Tracks d member (Parse.member n) := by
  refine .step fun _ => .ite (.pure _) ((tracks_attributes he).bind fun _ =>
    .step fun _ => .step fun _ => .step fun _ => .step fun _ => .ite ?_ ?_)
  · exact (tracks_method hb _ _ _ _).bind fun _ => .pure _
  · exact .step fun _ => .step fun _ => .pure _

theorem tracks_classDefinition (he : Tracks d expr (Parse.expr n))
    (hb : Tracks d block (Parse.block n)) (attributes : List Attribute) :
    Tracks d (classDefinition attributes) (Parse.classDefinition n attributes) :=
  .step fun _ => .step fun _ => .step fun _ => .step fun _ =>
    (Tracks.many (tracks_member he hb)).bind fun _ => .step fun _ => .pure _

theorem tracks_part (he : Tracks d expr (Parse.expr n)) (hb : Tracks d block (Parse.block n)) :
    Tracks d part (Parse.part n) := by
  refine (tracks_attributes he).bind fun _ => .step fun kind => ?_
  split
  · exact .ite (.pure _) (.lift _)
  · exact .ite (.step fun _ => .step fun _ => .step fun _ => .pure _) (.lift _)
  · exact .step fun _ => .step fun _ => (tracks_method hb _ _ _ _).bind fun _ => .pure _
  · exact .step fun _ => .step fun _ => .pure _
  · exact (tracks_classDefinition he hb _).bind fun _ => .pure _
  · exact (tracks_classDefinition he hb _).bind fun _ => .pure _
  · try split
    all_goals first | (simp_all; done) | exact .lift _

theorem tracks_script (hd : d + n = maxLevels) : Tracks d script (Parse.script n) :=
  .step fun _ => .step fun _ => .step fun _ =>
    (Tracks.many (tracks_part (tracks_expr hd) (tracks_block hd))).bind fun _ => .pure _

end Script

end Counted

end FrontEnd.Parse
