import FrontEnd.Proofs.ScriptProgress

/-! Relations between parsers that pass through the combinators. All parsers here are made of a few
primitive ones by sequence, choice and repetition, so a relation that the primitives are in and that
these three keep relates every parser to itself, given only that it relates the parsers one nesting
level further in. -/

namespace FrontEnd.Parser

def face (t : Token) : TokenKind × String := (t.kind, t.text)

/-- A relation between parsers that the combinators keep. The two parsers may stand at different
inputs; those are related by `Same`, and start with tokens that no parser can tell apart. -/
structure Congruence (Same : List Token → List Token → Prop)
    (R : ∀ {α : Type}, Parser α → Parser α → Prop) : Prop where
  head : ∀ {ts us}, Same ts us → ts.head?.map face = us.head?.map face
  pure : ∀ {α : Type} (a : α), R (pure a : Parser α) (pure a)
  bind : ∀ {α β : Type} {p q : Parser α} {f g : α → Parser β},
    R p q → (∀ a, R (f a) (g a)) → R (p >>= f) (q >>= g)
  /-- The tokens where the two parsers stand. -/
  here : ∀ {α : Type} {f g : List Token → Parser α},
    (∀ ts us, Same ts us → R (f ts) (g us)) → R (get >>= f) (get >>= g)
  /-- Want of a level is no concern of the combinators. -/
  failAt : ∀ {α : Type} {cause : Cause} {ts us : List Token},
    cause ≠ .tooDeep → Same ts us → R (failAt ts cause : Parser α) (failAt us cause)
  kind? : R kind? kind?
  skip : R skip skip
  isAt : ∀ kind, R (isAt kind) (isAt kind)
  take : ∀ kind, R (take kind) (take kind)
  expect : ∀ {α : Type} {f g : Token → Parser α} (kind : TokenKind),
    (∀ t u, face t = face u → R (f t) (g u)) → R (expect kind >>= f) (expect kind >>= g)
  loop : ∀ {σ : Type} {step step' : σ → Parser (Option σ)} (s : σ),
    (∀ s, R (step s) (step' s)) → R (loop step s) (loop step' s)

/-- To stop where one stands is to stop with the blame on the current token. -/
theorem fail_eq {α : Type} (cause : Cause) :
    (fail cause : Parser α) = get >>= fun ts => failAt ts cause := rfl

theorem related_ite {R : ∀ {α : Type}, Parser α → Parser α → Prop} {α : Type} {c : Prop}
    [Decidable c] {p p' q q' : Parser α} (hp : R p q) (hq : R p' q') :
    R (if c then p else p') (if c then q else q') := by
  split
  · exact hp
  · exact hq

namespace Congruence

variable {Same : List Token → List Token → Prop} {R : ∀ {α : Type}, Parser α → Parser α → Prop}
variable {α : Type}

theorem fail (h : Congruence Same R) {cause : Cause} (hc : cause ≠ .tooDeep) :
    R (fail cause : Parser α) (fail cause) := by
  rw [fail_eq]
  exact h.here fun _ _ hs => h.failAt hc hs

theorem symbol (h : Congruence Same R) (s : Symbol) : R (symbol s) (symbol s) :=
  h.expect _ fun _ _ _ => h.pure _

theorem name (h : Congruence Same R) : R name name := by
  refine h.expect _ fun t u htu => ?_
  rw [show t.text = u.text from congrArg Prod.snd htu]
  exact h.pure _

theorem many (h : Congruence Same R) {item item' : Parser (Option α)} (hi : R item item') :
    R (many item) (many item') :=
  h.bind (h.loop [] fun _ => h.bind hi fun _ => h.pure _) fun _ => h.pure _

theorem commaList (h : Congruence Same R) (close : TokenKind) {item item' : Parser α}
    (hi : R item item') : R (commaList close item) (commaList close item') := by
  have hnext : R (nextItem close item) (nextItem close item') :=
    h.bind (h.take _) fun _ => related_ite
      (h.bind (h.isAt _) fun _ => related_ite (h.pure _) (h.bind hi fun _ => h.pure _)) (h.pure _)
  exact h.bind (h.isAt _) fun _ => related_ite (h.pure _) (h.bind hi fun _ =>
    h.bind (h.many hnext) fun _ => h.pure _)

end Congruence

end FrontEnd.Parser

namespace FrontEnd.Parse

open FrontEnd.Parser FrontEnd.Program

/-- The operand of the token in front, as a sequence. -/
theorem operand_eq (inner : Inner) : operand inner = get >>= fun
    | [] => fail (.unexpected none)
    | t :: ts => skip >>= fun _ => operandAt inner (t :: ts) t := by
  funext ts
  cases ts <;> rfl

section Inner

variable {Same : List Token → List Token → Prop} {R : ∀ {α : Type}, Parser α → Parser α → Prop}

structure InnerRelated (R : ∀ {α : Type}, Parser α → Parser α → Prop) (inner inner' : Inner) :
    Prop where
  expr : ∀ floor, R (inner.expr floor) (inner'.expr floor)
  child : R inner.child inner'.child

variable {inner inner' : Inner}

theorem related_typeRef (h : Congruence Same R) : R typeRef typeRef :=
  h.bind (h.symbol _) fun _ => h.bind h.name fun _ =>
    h.bind (h.many (h.bind (h.take _) fun _ => h.pure _)) fun _ => h.pure _

theorem related_link (h : Congruence Same R) (hi : InnerRelated R inner inner') (name : String) :
    R (link inner name) (link inner' name) := by
  refine h.bind (h.take _) fun _ => related_ite ?_ (h.bind (h.take _) fun _ => related_ite ?_ ?_)
  · exact h.bind (h.commaList _ (hi.expr 0)) fun _ => h.bind (h.symbol _) fun _ =>
      h.bind hi.child fun _ => h.pure _
  · exact h.bind (hi.expr 0) fun _ => h.bind (h.symbol _) fun _ =>
      h.bind hi.child fun _ => h.pure _
  · exact h.bind hi.child fun _ => h.pure _

theorem related_childBy (h : Congruence Same R) {link link' : String → Parser Expr}
    (hl : ∀ name, R (link name) (link' name)) : R (childBy link) (childBy link') :=
  h.bind (h.take _) fun _ => related_ite
    (h.bind h.name fun name => h.bind (hl name) fun _ => h.pure _) (h.pure _)

theorem related_literal (h : Congruence Same R) {site site' : List Token} (hs : Same site site')
    (text : String) (value? : Option Literal) :
    R (literal site text value?) (literal site' text value?) := by
  cases value? with
  | none => exact h.failAt (by simp) hs
  | some value => exact h.pure _

theorem related_operandAt (h : Congruence Same R) (hi : InnerRelated R inner inner')
    {site site' : List Token} (hs : Same site site') {t t' : Token} (ht : face t = face t') :
    R (operandAt inner site t) (operandAt inner' site' t') := by
  have hunary := hi.expr unaryPower
  obtain ⟨kind, text, start⟩ := t
  obtain ⟨kind', text', start'⟩ := t'
  obtain ⟨rfl, rfl⟩ : kind = kind' ∧ text = text' := by simpa [face] using ht
  unfold operandAt
  dsimp only
  split
  · exact related_literal h hs _ _
  · exact related_literal h hs _ _
  · exact h.pure _
  · exact h.pure _
  · exact h.pure _
  · exact h.pure _
  · exact h.bind (hi.expr 0) fun _ => h.bind (h.symbol _) fun _ => h.pure _
  · exact h.bind hunary fun _ => h.pure _
  · exact h.bind hunary fun _ => h.pure _
  · exact h.bind h.name fun _ => h.bind (related_typeRef h) fun _ => h.pure _
  · exact h.bind hi.child fun _ => h.pure _
  · exact h.bind h.name fun _ => h.bind hi.child fun _ => h.pure _
  · exact related_link h hi _
  · exact h.failAt (by simp) hs

theorem related_operand (h : Congruence Same R) (hi : InnerRelated R inner inner') :
    R (operand inner) (operand inner') := by
  rw [operand_eq, operand_eq]
  refine h.here fun ts us hs => ?_
  have hhead := h.head hs
  cases ts with
  | nil =>
    cases us with
    | nil => exact h.fail (by simp)
    | cons u us => simp at hhead
  | cons t ts =>
    cases us with
    | nil => simp at hhead
    | cons u us => exact h.bind h.skip fun _ => related_operandAt h hi hs (by simpa using hhead)

theorem related_extend (h : Congruence Same R) (hi : InnerRelated R inner inner') (floor : Nat)
    (lhs : Expr) : R (extend inner floor lhs) (extend inner' floor lhs) := by
  refine h.bind h.kind? fun k? => ?_
  cases k?.bind binding? with
  | none => exact h.pure _
  | some b =>
    exact related_ite (h.pure _) (h.bind h.skip fun _ => h.bind (hi.expr _) fun _ => h.pure _)

theorem related_operands (h : Congruence Same R) (hi : InnerRelated R inner inner')
    (floor : Nat) : R (operands inner floor) (operands inner' floor) :=
  h.bind (related_operand h hi) fun _ => h.loop _ (related_extend h hi floor)

/-- With one level more around parsers that are related they are related again. -/
theorem innerRelated_succ (h : Congruence Same R) {n m : Nat}
    (hi : InnerRelated R (level n) (level m)) : InnerRelated R (level (n + 1)) (level (m + 1)) :=
  ⟨related_operands h hi, related_childBy h (related_link h hi)⟩

end Inner

section Body

variable {Same : List Token → List Token → Prop} {R : ∀ {α : Type}, Parser α → Parser α → Prop}

structure BodyRelated (R : ∀ {α : Type}, Parser α → Parser α → Prop) (inner inner' : InnerBody) :
    Prop where
  block : R inner.block inner'.block
  elseIf : R inner.elseIf inner'.elseIf

variable {expr expr' : Parser Expr} {inner inner' : InnerBody}

theorem related_returned (h : Congruence Same R) (he : R expr expr') :
    R (returned expr) (returned expr') :=
  h.bind (h.isAt _) fun _ => related_ite (h.pure _) (h.bind he fun _ => h.pure _)

theorem related_ensureAssignable (h : Congruence Same R) {site site' : List Token}
    (hs : Same site site') (target : Expr) :
    R (ensureAssignable site target) (ensureAssignable site' target) :=
  related_ite (h.pure _) (h.failAt (by simp) hs)

theorem related_simpleStatement (h : Congruence Same R) (he : R expr expr') :
    R (simpleStatement expr) (simpleStatement expr') := by
  refine h.here fun site site' hs => h.bind he fun e => h.bind (h.take _) fun _ => related_ite ?_
    (h.bind (h.take _) fun _ => related_ite ?_ (h.bind (h.take _) fun _ => related_ite ?_ (h.pure _)))
  · exact h.bind (related_ensureAssignable h hs e) fun _ => h.bind he fun _ => h.pure _
  · exact h.bind (related_ensureAssignable h hs e) fun _ => h.pure _
  · exact h.bind (related_ensureAssignable h hs e) fun _ => h.pure _

theorem related_statement (h : Congruence Same R) (he : R expr expr')
    {block block' : Parser (List Statement)} (hb : R block block') :
    R (statement expr block) (statement expr' block') := by
  have hstop := h.symbol .semicolon
  refine h.here fun site site' hs => h.bind h.kind? fun kind => ?_
  have hcheck := related_ensureAssignable h hs
  split
  · exact h.fail (by simp)
  · exact h.bind h.skip fun _ => h.bind he fun _ => h.bind hb fun _ => h.pure _
  · exact h.bind hb fun _ => h.pure _
  · exact h.bind h.skip fun _ => h.bind (related_returned h he) fun _ => h.bind hstop fun _ =>
      h.pure _
  · exact h.bind h.skip fun _ => h.bind he fun e => h.bind (hcheck e) fun _ =>
      h.bind hstop fun _ => h.pure _
  · exact h.bind h.skip fun _ => h.bind he fun e => h.bind (hcheck e) fun _ =>
      h.bind hstop fun _ => h.pure _
  · exact h.bind (related_simpleStatement h he) fun _ => h.bind hstop fun _ => h.pure _

theorem related_branches (h : Congruence Same R) (he : R expr expr')
    (hi : BodyRelated R inner inner') : R (branches expr inner) (branches expr' inner') := by
  refine h.expect _ fun _ _ _ => h.bind he fun _ => h.bind hi.block fun _ =>
    h.bind (h.take _) fun _ => related_ite (h.bind (h.isAt _) fun _ => related_ite ?_ ?_) (h.pure _)
  · exact h.bind hi.elseIf fun _ => h.pure _
  · exact h.bind hi.block fun _ => h.pure _

theorem related_item (h : Congruence Same R) (he : R expr expr') (hi : BodyRelated R inner inner')
    (close : Option TokenKind) : R (item expr inner close) (item expr' inner' close) := by
  refine h.bind h.kind? fun kind => ?_
  cases kind with
  | none => exact h.pure _
  | some kind =>
    refine related_ite (h.pure _) (related_ite ?_ ?_)
    · exact h.bind (related_branches h he hi) fun _ => h.pure _
    · exact h.bind (related_statement h he hi.block) fun _ => h.pure _

theorem related_statementsUntil (h : Congruence Same R) (he : R expr expr')
    (hi : BodyRelated R inner inner') (close : Option TokenKind) :
    R (statementsUntil expr inner close) (statementsUntil expr' inner' close) :=
  h.bind (h.many (related_item h he hi close)) fun _ => h.pure _

theorem related_braced (h : Congruence Same R) (he : R expr expr')
    (hi : BodyRelated R inner inner') : R (braced expr inner) (braced expr' inner') :=
  h.bind (h.symbol _) fun _ => h.bind (related_statementsUntil h he hi _) fun _ =>
    h.bind (h.symbol _) fun _ => h.pure _

theorem bodyRelated_succ (h : Congruence Same R) {n m : Nat} (he : R (Parse.expr n) (Parse.expr m))
    (hi : BodyRelated R (bodyLevel n) (bodyLevel m)) :
    BodyRelated R (bodyLevel (n + 1)) (bodyLevel (m + 1)) :=
  ⟨related_braced h he hi, related_branches h he hi⟩

end Body

section Script

variable {Same : List Token → List Token → Prop} {R : ∀ {α : Type}, Parser α → Parser α → Prop}
variable {n m : Nat}

theorem related_path (h : Congruence Same R) : R path path :=
  h.bind h.name fun _ => h.bind (h.many (h.bind (h.take _) fun _ =>
    related_ite (h.bind h.name fun _ => h.pure _) (h.pure _))) fun _ => h.pure _

theorem related_attributes (h : Congruence Same R) (he : R (expr n) (expr m)) :
    R (attributes n) (attributes m) :=
  h.many (h.bind (h.take _) fun _ => related_ite (h.bind h.name fun _ => h.bind (h.symbol _) fun _ =>
    h.bind (h.commaList _ he) fun _ => h.bind (h.symbol _) fun _ => h.pure _) (h.pure _))

theorem related_parameter (h : Congruence Same R) : R parameter parameter := by
  refine h.here fun site site' hs => h.bind h.name fun _ => h.bind (related_typeRef h) fun _ => ?_
  split
  · exact h.pure _
  · exact h.failAt (by simp) hs

theorem related_parameters (h : Congruence Same R) : R parameters parameters :=
  h.bind (h.symbol _) fun _ => h.bind (h.commaList _ (related_parameter h)) fun _ =>
    h.bind (h.symbol _) fun _ => h.pure _

theorem related_method (h : Congruence Same R) (hb : R (block n) (block m))
    (attributes : List Attribute) (name : String) (privacy : Privacy) (isStatic : Bool) :
    R (method n attributes name privacy isStatic) (method m attributes name privacy isStatic) :=
  h.bind (related_parameters h) fun _ => h.bind (related_typeRef h) fun _ => h.bind hb fun _ =>
    h.pure _

theorem related_foreignFunction (h : Congruence Same R) (attributes : List Attribute) :
    R (foreignFunction attributes) (foreignFunction attributes) :=
  h.bind h.name fun _ => h.bind (related_parameters h) fun _ => h.bind (related_typeRef h) fun _ =>
    h.bind (h.symbol _) fun _ => h.pure _

theorem related_privacy (h : Congruence Same R) : R privacy privacy :=
  h.bind (h.take _) fun _ => related_ite (h.pure _) (h.bind (h.take _) fun _ =>
    related_ite (h.pure _) (h.fail (by simp)))

theorem related_member (h : Congruence Same R) (he : R (expr n) (expr m))
    (hb : R (block n) (block m)) : R (member n) (member m) := by
  refine h.bind (h.isAt _) fun _ => related_ite (h.pure _) (h.bind (related_attributes h he) fun _ =>
    h.bind (related_privacy h) fun _ => h.bind (h.take _) fun _ => h.bind h.name fun _ =>
      h.bind (h.isAt _) fun _ => related_ite ?_ ?_)
  · exact h.bind (related_method h hb _ _ _ _) fun _ => h.pure _
  · exact h.bind (related_typeRef h) fun _ => h.bind (h.symbol _) fun _ => h.pure _

theorem related_classDefinition (h : Congruence Same R) (he : R (expr n) (expr m))
    (hb : R (block n) (block m)) (attributes : List Attribute) :
    R (classDefinition n attributes) (classDefinition m attributes) :=
  h.bind (related_privacy h) fun _ => h.expect _ fun _ _ _ => h.bind h.name fun _ =>
    h.bind (h.symbol _) fun _ => h.bind (h.many (related_member h he hb)) fun _ =>
      h.bind (h.symbol _) fun _ => h.pure _

theorem related_part (h : Congruence Same R) (he : R (expr n) (expr m))
    (hb : R (block n) (block m)) : R (part n) (part m) := by
  have hstray : R (fail (.unexpected none) : Parser (Option Part)) (fail (.unexpected none)) :=
    h.fail (by simp)
  refine h.bind (related_attributes h he) fun as => h.bind h.kind? fun kind => ?_
  split
  · exact related_ite (h.pure _) hstray
  · exact related_ite (h.bind h.skip fun _ => h.bind (related_path h) fun _ =>
      h.bind (h.symbol _) fun _ => h.pure _) hstray
  · exact h.bind h.skip fun _ => h.bind h.name fun _ =>
      h.bind (related_method h hb _ _ _ _) fun _ => h.pure _
  · exact h.bind h.skip fun _ => h.bind (related_foreignFunction h as) fun _ => h.pure _
  · exact h.bind (related_classDefinition h he hb as) fun _ => h.pure _
  · exact h.bind (related_classDefinition h he hb as) fun _ => h.pure _
  · exact hstray

theorem related_script (h : Congruence Same R) (he : R (expr n) (expr m))
    (hb : R (block n) (block m)) : R (script n) (script m) :=
  h.expect _ fun _ _ _ => h.bind (related_path h) fun _ => h.bind (h.symbol _) fun _ =>
    h.bind (h.many (related_part h he hb)) fun _ => h.pure _

end Script

end FrontEnd.Parse
