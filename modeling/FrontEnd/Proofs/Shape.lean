import FrontEnd.Proofs.ElseIf
import FrontEnd.Proofs.ReadWellFormed

/-! The shapes of what is read, node by node: what may stand at every place of a tree, however deep.
Well-formed parts have well-formed parts, so each shape need only be looked up at one node. -/

namespace FrontEnd.Program

namespace Expr

def parts : Expr → List Expr
  | binary _ left right => [left, right]
  | constant _ => []
  | declaration _ _ => []
  | var _ c => c.toList
  | call _ args c => args ++ c.toList
  | index _ i c => i :: c.toList
  | classRef _ c => c.toList
  | this c => c.toList
  | negate value => [value]
  | inverse value => [value]

inductive Within (node : Expr) : Expr → Prop
  | self : Within node node
  | part {part e : Expr} : part ∈ e.parts → Within node part → Within node e

/-- What may stand at one node: only a link as the child, a type without stars in front of a chain,
and no negative number. -/
def Shaped (e : Expr) : Prop :=
  (∀ c ∈ e.child, c.isLink = true) ∧
    match e with
    | classRef type _ => type.pointerDepth = 0
    | constant (.int value) => 0 ≤ value
    | _ => True

theorem wellFormed_of_mem_child {c : Option Expr} (h : ChildWellFormed c) :
    ∀ e ∈ c, e.isLink = true ∧ e.WellFormed := by
  rintro e rfl
  rwa [ChildWellFormed] at h

/-- The parts of a well-formed expression are well-formed. -/
theorem WellFormed.part {e : Expr} (h : e.WellFormed) : ∀ part ∈ e.parts, part.WellFormed := by
  intro part hp
  cases e with
  | constant | declaration => cases hp
  | binary op left right =>
    rw [WellFormed] at h
    simp only [parts, List.mem_cons, List.not_mem_nil, or_false] at hp
    obtain rfl | rfl := hp
    · exact h.1
    · exact h.2
  | var name c =>
    rw [WellFormed] at h
    exact (wellFormed_of_mem_child h.2 part (Option.mem_toList.1 hp)).2
  | call name args c =>
    rw [WellFormed] at h
    obtain hp | hp := List.mem_append.1 hp
    · exact Grammar.wellFormed_of_mem_args h.2.1 part hp
    · exact (wellFormed_of_mem_child h.2.2 part (Option.mem_toList.1 hp)).2
  | index name i c =>
    rw [WellFormed] at h
    obtain rfl | hp := List.mem_cons.1 hp
    · exact h.2.1
    · exact (wellFormed_of_mem_child h.2.2 part (Option.mem_toList.1 hp)).2
  | classRef type c =>
    rw [WellFormed] at h
    exact (wellFormed_of_mem_child h.2.2 part (Option.mem_toList.1 hp)).2
  | this c =>
    rw [WellFormed] at h
    exact (wellFormed_of_mem_child h part (Option.mem_toList.1 hp)).2
  | negate value =>
    rw [WellFormed] at h
    obtain rfl := List.mem_singleton.1 hp
    exact h
  | inverse value =>
    rw [WellFormed] at h
    obtain rfl := List.mem_singleton.1 hp
    exact h

theorem WellFormed.within {node e : Expr} (hn : node.Within e) (h : e.WellFormed) :
    node.WellFormed := by
  induction hn with
  | self => exact h
  | part hp _ ih => exact ih (h.part _ hp)

theorem WellFormed.shaped {e : Expr} (h : e.WellFormed) : e.Shaped := by
  cases e with
  | binary | declaration | negate | inverse => exact ⟨forall_mem_none, trivial⟩
  | constant value =>
    rw [WellFormed] at h
    cases value with
    | int value => exact ⟨forall_mem_none, h.1⟩
    | _ => exact ⟨forall_mem_none, trivial⟩
  | var name c =>
    rw [WellFormed] at h
    exact ⟨fun e he => (wellFormed_of_mem_child h.2 e he).1, trivial⟩
  | call name args c =>
    rw [WellFormed] at h
    exact ⟨fun e he => (wellFormed_of_mem_child h.2.2 e he).1, trivial⟩
  | index name i c =>
    rw [WellFormed] at h
    exact ⟨fun e he => (wellFormed_of_mem_child h.2.2 e he).1, trivial⟩
  | classRef type c =>
    rw [WellFormed] at h
    exact ⟨fun e he => (wellFormed_of_mem_child h.2.2 e he).1, h.2.1⟩
  | this c =>
    rw [WellFormed] at h
    exact ⟨fun e he => (wellFormed_of_mem_child h e he).1, trivial⟩

end Expr

namespace Statement

def exprs : Statement → List Expr
  | assignment target value => [target, value]
  | call _ args => args
  | chainCall reference => [reference]
  | branch condition _ _ _ => [condition]
  | loop condition _ => [condition]
  | block _ => []
  | ret value => value.toList
  | increment target => [target]
  | decrement target => [target]
  | eval expr => [expr]

/-- What a statement may be made of: only what can be stored into is a target, only a chain that ends
in a call is called, unless it is a call by itself, and no other expression ends in a call. -/
def Shaped : Statement → Prop
  | assignment target _ => target.isAssignable = true
  | increment target => target.isAssignable = true
  | decrement target => target.isAssignable = true
  | chainCall e => e.endsInCall = true ∧ ∀ name args, e ≠ .call name args none
  | eval e => e.endsInCall = false
  | _ => True

/-- All statements of a list and all nodes of their expressions have their shapes, and an `if` is the
last of them. -/
structure ListShaped (list : List Statement) : Prop where
  last : ∀ s ∈ list.dropLast, s.isBranch = false
  statements : ∀ s ∈ list, s.Shaped
  nodes : ∀ s ∈ list, ∀ e ∈ s.exprs, ∀ node, Expr.Within node e → node.Shaped

theorem wellFormed_of_mem_list {ss : List Statement} (h : ListWellFormed ss) :
    ∀ s ∈ ss, s.WellFormed := by
  induction ss with
  | nil => exact nofun
  | cons s ss ih =>
    rw [ListWellFormed] at h
    exact List.forall_mem_cons.2 ⟨h.1, ih h.2.2⟩

theorem ListWellFormed.last {ss : List Statement} (h : ListWellFormed ss) :
    ∀ s ∈ ss.dropLast, s.isBranch = false := by
  induction ss with
  | nil => exact List.forall_mem_nil _
  | cons s ss ih =>
    rw [ListWellFormed] at h
    cases ss with
    | nil => exact List.forall_mem_nil _
    | cons t ss =>
      rw [List.dropLast_cons_of_ne_nil (List.cons_ne_nil t ss)]
      refine List.forall_mem_cons.2 ⟨?_, ih h.2.2⟩
      -- An `if` in front of another statement would not be well-formed.
      cases hb : s.isBranch with
      | false => rfl
      | true => cases h.2.1 hb

/-- The expressions and the lists of a well-formed statement are well-formed. -/
theorem WellFormed.below {s : Statement} (h : s.WellFormed) :
    (∀ e ∈ s.exprs, e.WellFormed) ∧ ∀ list ∈ s.lists, ListWellFormed list := by
  cases s with
  | assignment target value =>
    rw [WellFormed] at h
    exact ⟨by simpa [exprs] using h.2, List.forall_mem_nil _⟩
  | call name args =>
    rw [WellFormed] at h
    exact ⟨Grammar.wellFormed_of_mem_args h.2, List.forall_mem_nil _⟩
  | chainCall e =>
    rw [WellFormed] at h
    exact ⟨by simpa [exprs] using h.2, List.forall_mem_nil _⟩
  | branch condition thenPart elsePart continuation =>
    rw [WellFormed] at h
    refine ⟨by simpa [exprs] using h.1, ?_⟩
    refine List.forall_mem_cons.2 ⟨h.2.1, List.forall_mem_cons.2 ⟨h.2.2.2, fun list hl => ?_⟩⟩
    obtain rfl := Option.mem_toList.1 hl
    simpa only [ElseWellFormed] using h.2.2.1
  | loop condition body =>
    rw [WellFormed] at h
    exact ⟨by simpa [exprs] using h.1, by simpa [lists] using h.2⟩
  | block body =>
    rw [WellFormed] at h
    exact ⟨List.forall_mem_nil _, by simpa [lists] using h⟩
  | ret value =>
    rw [WellFormed] at h
    exact ⟨fun e he => h e (Option.mem_toList.1 he), List.forall_mem_nil _⟩
  | increment target =>
    rw [WellFormed] at h
    exact ⟨by simpa [exprs] using h.2, List.forall_mem_nil _⟩
  | decrement target =>
    rw [WellFormed] at h
    exact ⟨by simpa [exprs] using h.2, List.forall_mem_nil _⟩
  | eval e =>
    rw [WellFormed] at h
    exact ⟨by simpa [exprs] using h.2, List.forall_mem_nil _⟩

/-- What an expression on its own is decides whether it ends in a call. -/
theorem endsInCall_of_ofExpr {e : Expr} :
    (ofExpr e = chainCall e → e.endsInCall = true ∧ ∀ name args, e ≠ .call name args none) ∧
    (ofExpr e = eval e → e.endsInCall = false) := by
  unfold ofExpr
  split
  · exact ⟨nofun, nofun⟩
  · next hcall =>
    cases e.endsInCall with
    | true => exact ⟨fun _ => ⟨rfl, hcall⟩, nofun⟩
    | false => exact ⟨nofun, fun _ => rfl⟩

theorem WellFormed.shaped {s : Statement} (h : s.WellFormed) : s.Shaped := by
  cases s with
  | assignment target value =>
    rw [WellFormed] at h
    exact h.1
  | increment target =>
    rw [WellFormed] at h
    exact h.1
  | decrement target =>
    rw [WellFormed] at h
    exact h.1
  | chainCall e =>
    rw [WellFormed] at h
    exact endsInCall_of_ofExpr.1 h.1
  | eval e =>
    rw [WellFormed] at h
    exact endsInCall_of_ofExpr.2 h.1
  | _ => trivial

theorem ListWellFormed.within {list ss : List Statement} (hl : ListWithin list ss)
    (h : ListWellFormed ss) : ListWellFormed list := by
  induction hl with
  | self => exact h
  | part hs hi _ ih => exact ih ((wellFormed_of_mem_list h _ hs).below.2 _ hi)

theorem ListWellFormed.shaped {ss : List Statement} (h : ListWellFormed ss) : ListShaped ss where
  last := h.last
  statements s hs := (wellFormed_of_mem_list h s hs).shaped
  nodes s hs e he _ hn :=
    (Expr.WellFormed.within hn ((wellFormed_of_mem_list h s hs).below.1 e he)).shaped

end Statement

namespace Script

def fields (s : Script) : List FieldDecl :=
  s.classes.flatMap ClassDecl.fields

def attributes (s : Script) : List Attribute :=
  s.methods.flatMap MethodDecl.attributes ++ s.fields.flatMap FieldDecl.attributes ++
    s.classes.flatMap ClassDecl.attributes

structure Shaped (s : Script) : Prop where
  functions : ∀ m ∈ s.functions, m.isStatic = false ∧
    (m.privacy = .global ∧ m.body.isSome = true ∨ m.privacy = .foreign ∧ m.body = none)
  classes : ∀ c ∈ s.classes, c.privacy.IsAccess ∧ (∀ f ∈ c.fields, f.privacy.IsAccess) ∧
    ∀ m ∈ c.methods, m.privacy.IsAccess ∧ m.body.isSome = true
  params : ∀ m ∈ s.methods, ∀ p ∈ m.params, p.type.isVoid = false
  bodies : ∀ body ∈ s.bodies, ∀ list, Statement.ListWithin list body → Statement.ListShaped list
  attributes : ∀ a ∈ s.attributes, ∀ e ∈ a.args, ∀ node, Expr.Within node e → node.Shaped

variable {s : Script}

theorem WellFormed.method (h : s.WellFormed) : ∀ m ∈ s.methods,
    m.HeadWellFormed ∧ ∀ body ∈ m.body, Statement.ListWellFormed body := by
  intro m hm
  obtain hm | hm := List.mem_append.1 hm
  · obtain ⟨hhead, -, ⟨-, body, hb, hw⟩ | ⟨-, hb⟩⟩ := h.functions m hm
    · exact ⟨hhead, by simpa [hb] using hw⟩
    · exact ⟨hhead, by simp [hb]⟩
  · obtain ⟨c, hc, hm⟩ := List.mem_flatMap.1 hm
    obtain ⟨hhead, -, body, hb, hw⟩ := (h.classes c hc).methods m hm
    exact ⟨hhead, by simpa [hb] using hw⟩

theorem WellFormed.attribute (h : s.WellFormed) : ∀ a ∈ s.attributes, a.WellFormed := by
  intro a ha
  simp only [attributes, fields, List.mem_append, List.mem_flatMap] at ha
  obtain (⟨m, hm, ha⟩ | ⟨f, ⟨c, hc, hf⟩, ha⟩) | ⟨c, hc, ha⟩ := ha
  · exact (h.method m hm).1.attributes a ha
  · exact ((h.classes c hc).fields f hf).attributes a ha
  · exact (h.classes c hc).attributes a ha

/-- A well-formed script has its shapes at every node. -/
theorem WellFormed.shaped (h : s.WellFormed) : s.Shaped where
  functions m hm := by
    obtain ⟨-, hs, ⟨hp, body, hb, -⟩ | hf⟩ := h.functions m hm
    · exact ⟨hs, .inl ⟨hp, by rw [hb]; rfl⟩⟩
    · exact ⟨hs, .inr hf⟩
  classes c hc := by
    refine ⟨(h.classes c hc).access, fun f hf => ((h.classes c hc).fields f hf).access,
      fun m hm => ?_⟩
    obtain ⟨-, hp, body, hb, -⟩ := (h.classes c hc).methods m hm
    exact ⟨hp, by rw [hb]; rfl⟩
  params m hm p hp := ((h.method m hm).1.params p hp).2.2
  bodies body hb list hl := by
    obtain ⟨m, hm, hbody⟩ := List.mem_filterMap.1 hb
    exact (Statement.ListWellFormed.within hl ((h.method m hm).2 body hbody)).shaped
  attributes a ha e he _ hn := by
    have hargs := Grammar.wellFormed_of_mem_args (h.attribute a ha).2
    exact (Expr.WellFormed.within hn (hargs e he)).shaped

end Script

end FrontEnd.Program

namespace FrontEnd.Parse

open FrontEnd.Grammar FrontEnd.Parser FrontEnd.Program

/-- Statements and scripts that are read have their shapes at every node, and the `if` behind an
`else` stands alone in its list, without a continuation. -/
theorem shapes_of_read (src : String) :
    (∀ ss, readStatements src = .ok ss →
      (∀ list, Statement.ListWithin list ss → Statement.ListShaped list) ∧
      ∃ tokens, tokenize src = .ok tokens ∧ ElseIfsAlone tokens [] (NodeOf ss)) ∧
    ∀ s, readScript src = .ok s →
      s.Shaped ∧ ∃ tokens, tokenize src = .ok tokens ∧ ElseIfsAlone tokens [] (ScriptNode s) := by
  refine ⟨fun ss h => ⟨fun list hl => ?_, ?_⟩, fun s h => ⟨?_, ?_⟩⟩
  · exact (Statement.ListWellFormed.within hl (wellFormed_of_readStatements h)).shaped
  · obtain ⟨f, ht, rfl⟩ := exists_form_of_readStatements h
    exact ⟨_, ht, clauseElseIfs f []⟩
  · exact (wellFormed_of_readScript h).shaped
  · obtain ⟨f, ht, rfl⟩ := exists_form_of_readScript h
    exact ⟨_, ht, elseIfs_script f⟩

/-- The tokens of `if x { } else if y { } x++;`. -/
def chosenCount : List Token :=
  [⟨.keyword .ifKw, "if", 0⟩, ⟨.name, "x", 3⟩, ⟨.symbol .openBrace, "\x7b", 5⟩,
    ⟨.symbol .closeBrace, "\x7d", 7⟩, ⟨.keyword .elseKw, "else", 9⟩, ⟨.keyword .ifKw, "if", 14⟩,
    ⟨.name, "y", 17⟩, ⟨.symbol .openBrace, "\x7b", 19⟩, ⟨.symbol .closeBrace, "\x7d", 21⟩,
    ⟨.name, "x", 23⟩, ⟨.symbol .increment, "++", 24⟩, ⟨.symbol .semicolon, ";", 26⟩]

/-- The tokens of `namespace n; foreign f(a #int) #void;`. -/
def oneForeign : List Token :=
  [⟨.keyword .namespaceKw, "namespace", 0⟩, ⟨.name, "n", 10⟩, ⟨.symbol .semicolon, ";", 11⟩,
    ⟨.keyword .foreignKw, "foreign", 13⟩, ⟨.name, "f", 21⟩, ⟨.symbol .openParen, "(", 22⟩,
    ⟨.name, "a", 23⟩, ⟨.symbol .hash, "#", 25⟩, ⟨.name, "int", 26⟩,
    ⟨.symbol .closeParen, ")", 29⟩, ⟨.symbol .hash, "#", 31⟩, ⟨.name, "void", 32⟩,
    ⟨.symbol .semicolon, ";", 36⟩]

/-- The counting is the continuation of the first `if`, and the second one has none. -/
theorem shapes_of_read_chosenCount :
    (readStatements "if x \x7b \x7d else if y \x7b \x7d x++;" = .ok
        [.branch (.var "x" none) [] (some [.branch (.var "y" none) [] none []])
          [.increment (.var "x" none)]] ∧
      ElseIfsAlone chosenCount [] (NodeOf
        [.branch (.var "x" none) [] (some [.branch (.var "y" none) [] none []])
          [.increment (.var "x" none)]])) ∧
    readScript "namespace n; foreign f(a #int) #void;" = .ok
        ⟨["n"], [], [], [⟨[], "f", .foreign, false, [⟨"a", ⟨"int", 0⟩⟩], ⟨"void", 0⟩, none⟩]⟩ ∧
      Script.Shaped
        ⟨["n"], [], [], [⟨[], "f", .foreign, false, [⟨"a", ⟨"int", 0⟩⟩], ⟨"void", 0⟩, none⟩]⟩ := by
  have ht : tokenize "if x \x7b \x7d else if y \x7b \x7d x++;" = .ok chosenCount := by
    decide +kernel
  have hss : readStatements "if x \x7b \x7d else if y \x7b \x7d x++;" = .ok
      [.branch (.var "x" none) [] (some [.branch (.var "y" none) [] none []])
        [.increment (.var "x" none)]] := source_of_ok ht (by rfl)
  have hts : tokenize "namespace n; foreign f(a #int) #void;" = .ok oneForeign := by decide +kernel
  have hs : readScript "namespace n; foreign f(a #int) #void;" = .ok
      ⟨["n"], [], [], [⟨[], "f", .foreign, false, [⟨"a", ⟨"int", 0⟩⟩], ⟨"void", 0⟩, none⟩]⟩ :=
    source_of_ok hts (by rfl)
  obtain ⟨-, tokens, htokens, helse⟩ := (shapes_of_read _).1 _ hss
  rw [ht] at htokens
  cases htokens
  exact ⟨⟨hss, helse⟩, hs, ((shapes_of_read _).2 _ hs).1⟩

end FrontEnd.Parse
