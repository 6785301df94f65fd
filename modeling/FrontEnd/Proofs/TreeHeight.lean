import FrontEnd.Proofs.ScriptGrammar

/-! How deep the trees are that the grammar gives. Along a path from the root down, every step goes
with a level of the nesting, but for two kinds: the left operands of an operator and the continuations
of an `if` take none. So the nesting bounds all other steps. -/

namespace FrontEnd.Tree

structure Step where
  tag : String
  field : String
  deriving DecidableEq

/-- The steps of a way from the root of a tree down. The items of a list stand in the field that has
the list. -/
inductive Path : Tree → List Step → Prop
  | stop (t : Tree) : Path t []
  | item {items : List Tree} {t : Tree} {steps : List Step} : t ∈ items → Path t steps →
      Path (list items) steps
  | field {tag name : String} {fields : List (String × Tree)} {t : Tree} {steps : List Step} :
      (name, t) ∈ fields → Path t steps → Path (node tag fields) (⟨tag, name⟩ :: steps)

def intoLeft : Step := ⟨"BinaryOperation", "left"⟩

def intoContinuation : Step := ⟨"If", "continue"⟩

/-- The steps of a path that loops add to it. A continuation is a statement list, so it takes another
step to get to its statements. -/
def loopSteps (steps : List Step) : Nat :=
  steps.count intoLeft + 2 * steps.count intoContinuation

theorem loopSteps_cons (s : Step) (steps : List Step) :
    loopSteps (s :: steps) = loopSteps [s] + loopSteps steps := by
  simp only [loopSteps, List.count_cons, List.count_nil]
  omega

/-- No path has more than `n` steps besides those that loops add. -/
def Bounded (n : Nat) (t : Tree) : Prop :=
  ∀ steps, t.Path steps → steps.length ≤ n + loopSteps steps

theorem Bounded.mono {n m : Nat} {t : Tree} (h : Bounded n t) (hm : n ≤ m) : Bounded m t := by
  intro steps hp
  have := h steps hp
  omega

theorem bounded_null : Bounded 0 null := by
  rintro _ ⟨⟩
  exact Nat.zero_le _

theorem bounded_str (text : String) : Bounded 0 (str text) := by
  rintro _ ⟨⟩
  exact Nat.zero_le _

theorem bounded_value (text : String) : Bounded 0 (value text) := by
  rintro _ ⟨⟩
  exact Nat.zero_le _

theorem bounded_list {n : Nat} {items : List Tree} (h : ∀ t ∈ items, Bounded n t) :
    Bounded n (list items) := by
  intro steps hp
  cases hp with
  | stop => exact Nat.zero_le _
  | item ht hp => exact h _ ht _ hp

theorem bounded_map {α : Type} {n : Nat} {f : α → Tree} {as : List α}
    (h : ∀ a ∈ as, Bounded n (f a)) : Bounded n (list (as.map f)) := by
  refine bounded_list fun t ht => ?_
  obtain ⟨a, ha, rfl⟩ := List.mem_map.1 ht
  exact h a ha

theorem bounded_bare {n : Nat} (tag : String) : Bounded n (node tag []) := by
  intro steps hp
  cases hp with
  | stop => exact Nat.zero_le _
  | field hf hp => cases hf

/-- The field of a node that has no path with more than `n` steps besides those that loops add. -/
def FieldBounded (n : Nat) (tag name : String) (t : Tree) : Prop :=
  ∃ m, 1 + m ≤ n + loopSteps [⟨tag, name⟩] ∧ Bounded m t

section Fields

variable {n m : Nat} {tag name : String} {t : Tree}

/-- A node is bounded by its fields, one after the other. -/
theorem Bounded.cons {fields : List (String × Tree)} (hf : FieldBounded n tag name t)
    (h : Bounded n (node tag fields)) : Bounded n (node tag ((name, t) :: fields)) := by
  intro steps hp
  cases hp with
  | stop => exact Nat.zero_le _
  | field hmem hp =>
    obtain hfirst | hmem := List.mem_cons.1 hmem
    · obtain ⟨rfl, rfl⟩ := Prod.mk.inj hfirst
      obtain ⟨m, hm, hb⟩ := hf
      have hlen := hb _ hp
      rw [loopSteps_cons, List.length_cons]
      omega
    · exact h _ (.field hmem hp)

theorem Bounded.field (h : Bounded m t) (hm : m < n) : FieldBounded n tag name t :=
  ⟨m, by omega, h⟩

theorem Bounded.of_field {fields : List (String × Tree)} (h : Bounded n (node tag fields))
    (hf : (name, t) ∈ fields) (hs : loopSteps [⟨tag, name⟩] ≤ 1) : Bounded n t := by
  intro steps hp
  have hlen := h _ (.field hf hp)
  rw [loopSteps_cons, List.length_cons] at hlen
  omega

/-- A left operand may be as deep as what it is an operand of. -/
theorem Bounded.left (h : Bounded n t) : FieldBounded n "BinaryOperation" "left" t := by
  have hone : loopSteps [⟨"BinaryOperation", "left"⟩] = 1 := by decide
  exact ⟨n, by omega, h⟩

/-- A continuation may be deeper than its `if` by one step, the one to its statements. -/
theorem Bounded.continuation (h : Bounded (n + 1) t) : FieldBounded n "If" "continue" t := by
  have htwo : loopSteps [⟨"If", "continue"⟩] = 2 := by decide
  exact ⟨n + 1, by omega, h⟩

end Fields

end FrontEnd.Tree

namespace FrontEnd.Grammar

open FrontEnd.Program FrontEnd.Parse FrontEnd.Tree

/-- How deep the tree of a phrase is. A link is as deep as it is by itself, or as what follows it. -/
def DepthBounded : (p : Phrase) → Derivation p → Prop
  | .expr _, d => Bounded (1 + d.nesting) (Expr.toTree d.value)
  | .root, d => ∀ c n, d.nesting ≤ n → Bounded n (Expr.childTree c) →
      Bounded (1 + n) (Expr.toTree (d.value c))
  | .link, d => ∀ c n, d.nesting ≤ n → Bounded n (Expr.childTree c) →
      Bounded (1 + n) (Expr.toTree (d.value c))
  | .links, d => Bounded d.nesting (Expr.childTree d.value)
  | .args, d => ∀ e ∈ (d.value : List Expr), Bounded d.nesting e.toTree
  | .moreArgs, d => ∀ e ∈ (d.value : List Expr), Bounded d.nesting e.toTree

theorem bounded_binary {n m : Nat} {op : Operator} {left right : Expr} (hn : 0 < n)
    (hl : Bounded n left.toTree) (hr : Bounded m right.toTree) (hm : m < n) :
    Bounded n (Expr.binary op left right).toTree := by
  rw [Expr.toTree]
  exact .cons ((bounded_value _).field hn) (.cons hl.left (.cons (hr.field hm) (bounded_bare _)))

theorem bounded_literal (value : Literal) : Bounded 0 value.toTree := by
  cases value with
  | string text => exact bounded_str text
  | null => exact bounded_null
  | _ => exact bounded_value _

/-- The tree of an expression is no deeper than its derivation is nested. -/
theorem depthBounded {p : Phrase} (d : Derivation p) : DepthBounded p d := by
  induction d with
  | next _ d ih => exact ih
  | binary left mark h right ihl ihr =>
    simp only [DepthBounded, Derivation.nesting, Derivation.value] at ihl ihr ⊢
    exact bounded_binary (by omega) (ihl.mono (by omega)) ihr (by omega)
  | power base mark exponent ihb ihe =>
    simp only [DepthBounded, Derivation.nesting, Derivation.value] at ihb ihe ⊢
    exact bounded_binary (by omega) (ihb.mono (by omega)) ihe (by omega)
  | negate mark d ih =>
    simp only [DepthBounded, Derivation.nesting, Derivation.value, Expr.toTree] at ih ⊢
    exact .cons (ih.field (by omega)) (bounded_bare _)
  | inverse mark d ih =>
    simp only [DepthBounded, Derivation.nesting, Derivation.value, Expr.toTree] at ih ⊢
    exact .cons (ih.field (by omega)) (bounded_bare _)
  | @literal t value h =>
    simp only [DepthBounded, Derivation.nesting, Derivation.value, Expr.toTree]
    exact .cons ((bounded_literal value).field (by omega)) (bounded_bare _)
  | group opening d closing ih => exact ih.mono (by rw [Derivation.nesting]; omega)
  | declaration mark name type =>
    simp only [DepthBounded, Derivation.nesting, Derivation.value, Expr.toTree]
    exact .cons ((bounded_str _).field (by omega))
      (.cons ((bounded_value _).field (by omega)) (bounded_bare _))
  | chain root links ihr ihl =>
    simp only [DepthBounded, Derivation.nesting, Derivation.value] at ihr ihl ⊢
    exact ihr _ _ (by omega) (ihl.mono (by omega))
  | selfRoot mark =>
    intro c n hn hc
    simp only [Derivation.value, Expr.toTree]
    exact .cons (hc.field (by omega)) (bounded_bare _)
  | typeRoot hash name =>
    intro c n hn hc
    simp only [Derivation.value, Expr.toTree]
    exact .cons ((bounded_value _).field (by omega)) (.cons (hc.field (by omega)) (bounded_bare _))
  | linkRoot link ih => exact ih
  | var name =>
    intro c n hn hc
    simp only [Derivation.value, Expr.toTree]
    exact .cons ((bounded_str _).field (by omega)) (.cons (hc.field (by omega)) (bounded_bare _))
  | call name opening args closing ih =>
    intro c n hn hc
    simp only [Derivation.value, Expr.toTree]
    simp only [DepthBounded] at ih
    rw [Derivation.nesting] at hn
    have hargs := (Expr.toTrees_eq_map _ ▸ bounded_map ih).mono hn
    exact .cons ((bounded_str _).field (by omega)) (.cons (hargs.field (by omega))
      (.cons (hc.field (by omega)) (bounded_bare _)))
  | index name opening d closing ih =>
    intro c n hn hc
    simp only [DepthBounded, Derivation.value, Derivation.nesting, Expr.toTree] at ih hn ⊢
    exact .cons ((bounded_str _).field (by omega)) (.cons (ih.field (by omega))
      (.cons (hc.field (by omega)) (bounded_bare _)))
  | noLinks => exact bounded_null
  | dot mark link links ih ihl =>
    simp only [DepthBounded, Derivation.nesting, Derivation.value] at ih ihl ⊢
    exact ih _ _ (by omega) (ihl.mono (by omega))
  | noArgs => exact nofun
  | someArgs first more ihf ihm =>
    simp only [DepthBounded, Derivation.nesting, Derivation.value] at ihf ihm ⊢
    exact List.forall_mem_cons.2 ⟨ihf.mono (by omega), fun e he => (ihm e he).mono (by omega)⟩
  | noMoreArgs => exact nofun
  | lastComma mark => exact nofun
  | nextArg mark arg more iha ihm =>
    simp only [DepthBounded, Derivation.nesting, Derivation.value] at iha ihm ⊢
    exact List.forall_mem_cons.2 ⟨iha.mono (by omega), fun e he => (ihm e he).mono (by omega)⟩

theorem bounded_expr (f : ExprForm) : Bounded f.levels f.value.toTree :=
  depthBounded f.1

/-- The same for a clause. An `if` is as deep as it is by itself, or as its continuation. -/
def FormDepthBounded : (c : Clause) → Form c → Prop
  | .statement, f => Bounded (1 + 2 * f.levels) (Statement.toTree f.value)
  | .branches, f => ∀ n continuation, 1 + 2 * f.levels ≤ n →
      (∀ s ∈ continuation, Bounded n s.toTree) →
      Bounded n (Branches.toStatement f.value continuation).toTree
  | .items, f => ∀ s ∈ (f.value : List Statement), Bounded (1 + 2 * f.levels) s.toTree
  | .block, f => Bounded (2 * f.levels) (Statement.listTree f.value)

/-- A statement list is one step above its statements. -/
theorem bounded_listTree {n : Nat} {ss : List Statement} (h : ∀ s ∈ ss, Bounded n s.toTree) :
    Bounded (n + 1) (Statement.listTree ss) := by
  rw [Statement.listTree, Statement.toTrees_eq_map]
  exact .cons ((bounded_map h).field (Nat.lt_succ_self n)) (bounded_bare _)

theorem bounded_ofExpr {n : Nat} {e : Expr} (h : Bounded n e.toTree) :
    Bounded (1 + n) (Statement.ofExpr e).toTree := by
  unfold Statement.ofExpr
  split
  · next name args =>
    -- The arguments are those of the call that the expression is.
    have hargs : Bounded n (.list (args.map Expr.toTree)) := by
      rw [Expr.toTree, Expr.toTrees_eq_map] at h
      exact h.of_field (List.mem_cons_of_mem _ List.mem_cons_self) (by decide)
    exact .cons ((bounded_str _).field (by omega))
      (.cons (hargs.field (by omega)) (bounded_bare _))
  · split
    · exact .cons (h.field (by omega)) (bounded_bare _)
    · exact .cons (h.field (by omega)) (bounded_bare _)

theorem bounded_counting {s : Symbol} {make : Expr → Statement} (h : counting? s = some make)
    {n : Nat} {e : Expr} (he : Bounded n e.toTree) : Bounded (1 + n) (make e).toTree := by
  unfold counting? at h
  split at h
  · cases h
    exact .cons (he.field (by omega)) (bounded_bare _)
  · cases h
    exact .cons (he.field (by omega)) (bounded_bare _)
  · cases h

/-- An `if` whose parts are bounded, given how its other branch is. -/
theorem bounded_branch {n : Nat} {condition : Expr} {thenPart continuation : List Statement}
    {elsePart : Option (List Statement)} (hc : FieldBounded n "If" "condition" condition.toTree)
    (ht : FieldBounded n "If" "then" (Statement.listTree thenPart))
    (he : FieldBounded n "If" "else" (Statement.elseTree elsePart))
    (hk : ∀ s ∈ continuation, Bounded n s.toTree) :
    Bounded n (Statement.branch condition thenPart elsePart continuation).toTree := by
  rw [Statement.toTree]
  exact .cons hc (.cons ht (.cons he (.cons (bounded_listTree hk).continuation (bounded_bare _))))

theorem formDepthBounded {c : Clause} (f : Form c) : FormDepthBounded c f := by
  induction f with
  | whileLoop mark condition body ih =>
    simp only [FormDepthBounded, Form.levels, Form.value, Statement.toTree] at ih ⊢
    exact .cons ((bounded_expr condition).field (by omega))
      (.cons (ih.field (by omega)) (bounded_bare _))
  | inner body ih =>
    simp only [FormDepthBounded, Form.levels, Form.value, Statement.toTree] at ih ⊢
    exact .cons (ih.field (by omega)) (bounded_bare _)
  | ret mark value stop =>
    cases value with
    | none => exact .cons (bounded_null.field (by omega)) (bounded_bare _)
    | some value =>
      simp only [FormDepthBounded, Form.levels, Form.value, Statement.toTree, Option.map_some,
        Tree.ofOption]
      exact .cons ((bounded_expr value).field (by omega)) (bounded_bare _)
  | countFirst mark h target ht stop =>
    exact (bounded_counting h (bounded_expr target)).mono (by rw [Form.levels]; omega)
  | countLast target ht mark h stop =>
    exact (bounded_counting h (bounded_expr target)).mono (by rw [Form.levels]; omega)
  | assign target ht mark value stop =>
    simp only [FormDepthBounded, Form.levels, Form.value, Statement.toTree]
    exact .cons ((bounded_expr target).field (by omega))
      (.cons ((bounded_expr value).field (by omega)) (bounded_bare _))
  | bare e stop => exact (bounded_ofExpr (bounded_expr e)).mono (by rw [Form.levels]; omega)
  | ifOnly mark condition thenPart ih =>
    intro n continuation hn hk
    simp only [FormDepthBounded, Form.levels] at ih hn
    exact bounded_branch ((bounded_expr condition).field (by omega)) (ih.field (by omega))
      (bounded_null.field (by omega)) hk
  | ifElse mark condition thenPart mark' elsePart iht ihe =>
    intro n continuation hn hk
    simp only [FormDepthBounded, Form.levels] at iht ihe hn
    exact bounded_branch ((bounded_expr condition).field (by omega)) (iht.field (by omega))
      (ihe.field (by omega)) hk
  | ifElseIf mark condition thenPart mark' elsePart iht ihe =>
    intro n continuation hn hk
    simp only [FormDepthBounded, Form.levels] at iht ihe hn
    have hif := ihe (1 + 2 * elsePart.levels) [] (Nat.le_refl _) nofun
    have helse := bounded_listTree (List.forall_mem_singleton.2 hif)
    exact bounded_branch ((bounded_expr condition).field (by omega)) (iht.field (by omega))
      (helse.field (by omega)) hk
  | noItems => exact nofun
  | plain s rest ihs ihr =>
    simp only [FormDepthBounded, Form.levels, Form.value] at ihs ihr ⊢
    exact List.forall_mem_cons.2 ⟨ihs.mono (by omega), fun s hs => (ihr s hs).mono (by omega)⟩
  | branch b rest ihb ihr =>
    simp only [FormDepthBounded, Form.levels, Form.value] at ihb ihr ⊢
    refine List.forall_mem_singleton.2 (ihb _ _ (by omega) fun s hs => (ihr s hs).mono (by omega))
  | braces opening body closing ih =>
    simp only [FormDepthBounded, Form.levels, Form.value] at ih ⊢
    exact (bounded_listTree ih).mono (by omega)

theorem le_levelsOf {α : Type} {levels : α → Nat} {f : α} {fs : List α} (h : f ∈ fs) :
    levels f ≤ levelsOf levels fs := by
  induction h with
  | head fs => exact Nat.le_max_left _ _
  | tail g _ ih => exact Nat.le_trans ih (Nat.le_max_right _ _)

theorem bounded_attributes {n : Nat} {fs : List AttributeForm}
    (h : levelsOf AttributeForm.levels fs ≤ n) :
    Bounded (1 + n) (.list ((fs.map AttributeForm.value).map Attribute.toTree)) := by
  refine bounded_map fun a ha => ?_
  obtain ⟨f, hf, rfl⟩ := List.mem_map.1 ha
  have hn : f.levels ≤ n := Nat.le_trans (le_levelsOf hf) h
  have hargs := (bounded_map (depthBounded f.args.1)).mono hn
  exact .cons ((bounded_str _).field (by omega)) (.cons (hargs.field (by omega)) (bounded_bare _))

/-- A method is at least as deep as its parameters are. -/
theorem bounded_methodDecl {n : Nat} {m : MethodDecl}
    (ha : Bounded (1 + n) (.list (m.attributes.map Attribute.toTree)))
    (hb : ∀ body ∈ m.body, Bounded (2 * n) (Statement.listTree body)) :
    Bounded (2 * n + 3) m.toTree := by
  have hparams : Bounded 1 (.list (m.params.map Parameter.toTree)) :=
    bounded_map fun p _ => .cons ((bounded_str _).field (by omega))
      (.cons ((bounded_value _).field (by omega)) (bounded_bare _))
  have hlist : Bounded 2 (.node "ParameterList" [("params", .list (m.params.map Parameter.toTree))]) :=
    .cons (hparams.field (by omega)) (bounded_bare _)
  have hbody : Bounded (2 * n) (.ofOption Statement.listTree m.body) := by
    cases hm : m.body with
    | none => exact bounded_null.mono (by omega)
    | some body => exact hb body (by rw [hm]; rfl)
  exact .cons (ha.field (by omega)) (.cons ((bounded_str _).field (by omega))
    (.cons ((bounded_value _).field (by omega)) (.cons ((bounded_value _).field (by omega))
      (.cons (hlist.field (by omega)) (.cons ((bounded_value _).field (by omega))
        (.cons (hbody.field (by omega)) (bounded_bare _)))))))

theorem bounded_fieldDecl {n : Nat} {f : FieldDecl}
    (ha : Bounded (1 + n) (.list (f.attributes.map Attribute.toTree))) :
    Bounded (2 * n + 3) f.toTree :=
  .cons (ha.field (by omega)) (.cons ((bounded_str _).field (by omega))
    (.cons ((bounded_value _).field (by omega)) (.cons ((bounded_value _).field (by omega))
      (.cons ((bounded_value _).field (by omega)) (bounded_bare _)))))

theorem bounded_block {n : Nat} {f : Form .block} (h : f.levels ≤ n) :
    Bounded (2 * n) (Statement.listTree f.value) :=
  Bounded.mono (formDepthBounded f) (by omega)

/-- How deep a member of a class is. -/
theorem bounded_member {n : Nat} {f : MemberForm} (h : f.levels ≤ n) :
    (∀ d ∈ f.value.field?, Bounded (2 * n + 3) d.toTree) ∧
    ∀ m ∈ f.value.method?, Bounded (2 * n + 3) m.toTree := by
  cases f with
  | method attributes access static name signature body =>
    refine ⟨nofun, ?_⟩
    rintro _ ⟨⟩
    obtain ⟨ha, hb⟩ := Nat.max_le.1 h
    refine bounded_methodDecl (bounded_attributes ha) ?_
    rintro _ ⟨⟩
    exact bounded_block hb
  | field attributes access static name type stop =>
    refine ⟨?_, nofun⟩
    rintro _ ⟨⟩
    exact bounded_fieldDecl (bounded_attributes h)

theorem bounded_part {n : Nat} {f : PartForm} (h : f.levels ≤ n) :
    (∀ c ∈ f.value.class?, Bounded (2 * n + 4) c.toTree) ∧
    ∀ m ∈ f.value.function?, Bounded (2 * n + 3) m.toTree := by
  cases f with
  | importing mark path stop => exact ⟨nofun, nofun⟩
  | function attributes mark name signature body =>
    refine ⟨nofun, ?_⟩
    rintro _ ⟨⟩
    obtain ⟨ha, hb⟩ := Nat.max_le.1 h
    refine bounded_methodDecl (bounded_attributes ha) ?_
    rintro _ ⟨⟩
    exact bounded_block hb
  | foreign attributes mark name signature stop =>
    refine ⟨nofun, ?_⟩
    rintro _ ⟨⟩
    exact bounded_methodDecl (bounded_attributes h) nofun
  | defining attributes access mark name opening members closing =>
    refine ⟨?_, nofun⟩
    rintro _ ⟨⟩
    obtain ⟨ha, hm⟩ := Nat.max_le.1 h
    have hmembers : ∀ f ∈ members, f.levels ≤ n := fun f hf => Nat.le_trans (le_levelsOf hf) hm
    have hfields : Bounded (2 * n + 3)
        (.list (((members.map MemberForm.value).filterMap Member.field?).map FieldDecl.toTree)) := by
      refine bounded_map fun d hd => ?_
      simp only [List.filterMap_map, List.mem_filterMap] at hd
      obtain ⟨f, hf, hd⟩ := hd
      exact (bounded_member (hmembers f hf)).1 d hd
    have hmethods : Bounded (2 * n + 3)
        (.list (((members.map MemberForm.value).filterMap Member.method?).map
          MethodDecl.toTree)) := by
      refine bounded_map fun m hm => ?_
      simp only [List.filterMap_map, List.mem_filterMap] at hm
      obtain ⟨f, hf, hm⟩ := hm
      exact (bounded_member (hmembers f hf)).2 m hm
    have hattributes := bounded_attributes ha
    exact .cons (hattributes.field (by omega)) (.cons ((bounded_str _).field (by omega))
      (.cons ((bounded_value _).field (by omega)) (.cons (hfields.field (by omega))
        (.cons (hmethods.field (by omega)) (bounded_bare _)))))

theorem bounded_path (segments : List String) : Bounded 1 (Script.pathTree segments) := by
  have hlist : Bounded 0 (.list (segments.map Tree.str)) := bounded_map fun _ _ => bounded_str _
  exact .cons (hlist.field (by omega)) (bounded_bare _)

theorem bounded_script {n : Nat} {f : ScriptForm} (h : f.levels ≤ n) :
    Bounded (2 * n + 5) f.value.toTree := by
  have hparts : ∀ p ∈ f.parts, p.levels ≤ n := fun p hp => Nat.le_trans (le_levelsOf hp) h
  have himports : Bounded 2 (.list (f.value.imports.map Script.importTree)) :=
    bounded_map fun path _ => .cons ((bounded_path path).field (by omega)) (bounded_bare _)
  have hclasses : Bounded (2 * n + 4) (.list (f.value.classes.map ClassDecl.toTree)) := by
    refine bounded_map fun c hc => ?_
    simp only [ScriptForm.value, Part.toScript, List.filterMap_map, List.mem_filterMap] at hc
    obtain ⟨p, hp, hc⟩ := hc
    exact (bounded_part (hparts p hp)).1 c hc
  have hfunctions : Bounded (2 * n + 3) (.list (f.value.functions.map MethodDecl.toTree)) := by
    refine bounded_map fun m hm => ?_
    simp only [ScriptForm.value, Part.toScript, List.filterMap_map, List.mem_filterMap] at hm
    obtain ⟨p, hp, hm⟩ := hm
    exact (bounded_part (hparts p hp)).2 m hm
  exact .cons ((bounded_path _).field (by omega)) (.cons (himports.field (by omega))
    (.cons (hclasses.field (by omega)) (.cons (hfunctions.field (by omega)) (bounded_bare _))))

end FrontEnd.Grammar
