import FrontEnd.Proofs.ScriptGrammar

/-! Where the `if` behind an `else` goes. It stands alone in the list of the `else`, and what follows
in the source does not become its continuation. This is a fact about the source, since the tree of
`else if` is also that of an `else` with braces around one `if`: it is shown along the tokens, each
piece of them in front of any rest. -/

namespace FrontEnd.Program

namespace Statement

def lists : Statement → List (List Statement)
  | branch _ thenPart elsePart continuation => thenPart :: continuation :: elsePart.toList
  | loop _ body => [body]
  | block body => [body]
  | _ => []

/-- The first list is the second, or stands in a statement of it, however deep. -/
inductive ListWithin (list : List Statement) : List Statement → Prop
  | self : ListWithin list list
  | part {inner ss : List Statement} {s : Statement} : s ∈ ss → inner ∈ s.lists →
      ListWithin list inner → ListWithin list ss

end Statement

namespace Script

def methods (s : Script) : List MethodDecl :=
  s.functions ++ s.classes.flatMap ClassDecl.methods

def bodies (s : Script) : List (List Statement) :=
  s.methods.filterMap MethodDecl.body

end Script

end FrontEnd.Program

namespace FrontEnd.Grammar

open FrontEnd.Parse FrontEnd.Program FrontEnd.Program.Statement

/-- The statement stands in the list, however deep. -/
def NodeOf (ss : List Statement) (s : Statement) : Prop :=
  ∃ list, ListWithin list ss ∧ s ∈ list

theorem NodeOf.mem {ss : List Statement} {s : Statement} (h : s ∈ ss) : NodeOf ss s :=
  ⟨ss, .self, h⟩

theorem NodeOf.below {inner ss : List Statement} {s t : Statement} (ht : t ∈ ss)
    (hi : inner ∈ t.lists) (h : NodeOf inner s) : NodeOf ss s := by
  obtain ⟨list, hl, hs⟩ := h
  exact ⟨list, .part ht hi hl, hs⟩

def NoElse (ts : List Token) : Prop :=
  ∀ t ∈ ts, t.kind ≠ .keyword .elseKw

@[simp]
theorem noElse_nil : NoElse [] :=
  nofun

@[simp]
theorem noElse_cons {t : Token} {ts : List Token} :
    NoElse (t :: ts) ↔ t.kind ≠ .keyword .elseKw ∧ NoElse ts :=
  List.forall_mem_cons

@[simp]
theorem noElse_append {ts us : List Token} : NoElse (ts ++ us) ↔ NoElse ts ∧ NoElse us :=
  List.forall_mem_append

@[simp]
theorem noElse_flatMap {F : Type} {tokens : F → List Token} {fs : List F} :
    NoElse (fs.flatMap tokens) ↔ ∀ f ∈ fs, NoElse (tokens f) := by
  simp only [NoElse, List.mem_flatMap]
  exact ⟨fun h f hf t ht => h t ⟨f, hf, ht⟩, fun h t ⟨f, hf, ht⟩ => h f hf t ht⟩

@[simp]
theorem noElse_unattach {kind : TokenKind} {ts : List (TokenOf kind)}
    (h : kind ≠ .keyword .elseKw) : NoElse ts.unattach := by
  intro t ht
  obtain ⟨hk, -⟩ := List.mem_unattach.1 ht
  rwa [hk]

@[simp]
theorem TypeForm.noElse (f : TypeForm) : NoElse f.tokens := by
  simp [TypeForm.tokens]

theorem noElse_literal {t : Token} {value : Literal} (h : literal? t = some value) :
    t.kind ≠ .keyword .elseKw := by
  intro hk
  simp [literal?, hk] at h

/-- No `else` stands in an expression. -/
@[simp]
theorem Derivation.noElse {p : Phrase} (d : Derivation p) : NoElse d.tokens := by
  induction d with
  | literal h => simpa using noElse_literal h
  | _ => simp_all

@[simp]
theorem ExprForm.noElse (f : ExprForm) : NoElse f.tokens :=
  f.1.noElse

/-- The tokens in front of an `else` end, and those behind it start, with those of an `if`; and the
second `if`, without a continuation, is all that the `else` of the first one consists of. `Has` says
which statements there are. -/
def Joined (front back : List Token) (Has : Statement → Prop) : Prop :=
  ∃ (before : List Token) (mark : TokenOf (.keyword .ifKw)) (condition : ExprForm)
    (thenPart : Form .block) (second : Form .branches) (behind : List Token)
    (continuation : List Statement),
    front = before ++ (Form.ifOnly mark condition thenPart).tokens ∧
    back = second.tokens ++ behind ∧
    Has (.branch condition.value thenPart.value (some [Branches.toStatement second.value []])
      continuation)

/-- Among the tokens, which stand in front of `rest`, every `else` that an `if` follows joins two
`if`s. -/
def ElseIfsAlone (tokens rest : List Token) (Has : Statement → Prop) : Prop :=
  ∀ front mark back, tokens = front ++ mark :: back → mark.kind = .keyword .elseKw →
    (back ++ rest).head?.map Token.kind = some (.keyword .ifKw) → Joined front (back ++ rest) Has

section ElseIfs

variable {front back ts us rest : List Token} {Has Has' : Statement → Prop}

theorem Joined.mono (h : Joined front back Has) (hh : ∀ s, Has s → Has' s) :
    Joined front back Has' := by
  obtain ⟨before, mark, condition, thenPart, second, behind, k, hfront, hback, hhas⟩ := h
  exact ⟨before, mark, condition, thenPart, second, behind, k, hfront, hback, hh _ hhas⟩

theorem Joined.prepend (h : Joined front back Has) (ts : List Token) :
    Joined (ts ++ front) back Has := by
  obtain ⟨before, mark, condition, thenPart, second, behind, k, rfl, hback, hhas⟩ := h
  exact ⟨ts ++ before, mark, condition, thenPart, second, behind, k, by simp, hback, hhas⟩

namespace ElseIfsAlone

theorem mono (h : ElseIfsAlone ts rest Has) (hh : ∀ s, Has s → Has' s) :
    ElseIfsAlone ts rest Has' :=
  fun front mark back hts hmark hif => (h front mark back hts hmark hif).mono hh

theorem of_none (h : NoElse ts) : ElseIfsAlone ts rest Has := by
  rintro front mark back rfl hmark -
  exact absurd hmark (h mark (List.mem_append_right _ List.mem_cons_self))

/-- An `else` among two pieces is in the first or in the second. -/
theorem append (h : ElseIfsAlone ts (us ++ rest) Has) (hu : ElseIfsAlone us rest Has) :
    ElseIfsAlone (ts ++ us) rest Has := by
  intro front mark back hts hmark hif
  obtain ⟨c, rfl, hus⟩ | ⟨c, rfl, hc⟩ := List.append_eq_append_iff.1 hts
  · exact (hu c mark back hus hmark hif).prepend ts
  · cases c with
    | nil => simpa using (hu [] mark back hc.symm hmark hif).prepend front
    | cons t c =>
      rw [List.cons_append] at hc
      obtain ⟨rfl, rfl⟩ := List.cons.inj hc
      rw [List.append_assoc] at hif ⊢
      exact h front mark c rfl hmark hif

theorem cons {t : Token} (ht : t.kind ≠ .keyword .elseKw) (h : ElseIfsAlone ts rest Has) :
    ElseIfsAlone (t :: ts) rest Has := by
  have hone : ElseIfsAlone [t] (ts ++ rest) Has := of_none (by simpa using ht)
  exact hone.append h

/-- An `else` between two pieces, which joins them if an `if` follows. -/
theorem around {mark : Token} (h : ElseIfsAlone ts (mark :: us ++ rest) Has)
    (hu : ElseIfsAlone us rest Has)
    (hj : (us ++ rest).head?.map Token.kind = some (.keyword .ifKw) → Joined ts (us ++ rest) Has) :
    ElseIfsAlone (ts ++ mark :: us) rest Has := by
  intro front mark' back hts hmark hif
  obtain ⟨c, rfl, hc⟩ | ⟨c, rfl, hc⟩ := List.append_eq_append_iff.1 hts
  · cases c with
    | nil =>
      obtain ⟨rfl, rfl⟩ := List.cons.inj hc
      simpa using hj hif
    | cons t c =>
      rw [List.cons_append] at hc
      obtain ⟨rfl, rfl⟩ := List.cons.inj hc
      simpa using (hu c mark' back rfl hmark hif).prepend (ts ++ [mark])
  · cases c with
    | nil =>
      obtain ⟨rfl, rfl⟩ := List.cons.inj hc
      simpa using hj hif
    | cons t c =>
      rw [List.cons_append] at hc
      obtain ⟨rfl, rfl⟩ := List.cons.inj hc
      rw [List.append_assoc] at hif ⊢
      exact h front mark' c rfl hmark hif

end ElseIfsAlone

end ElseIfs

/-- Every `else` that an `if` follows joins two `if`s of what the clause stands for. -/
def ClauseElseIfs : (c : Clause) → Form c → Prop
  | .statement, f => ∀ rest, ElseIfsAlone f.tokens rest (NodeOf [f.value])
  | .branches, f => ∀ continuation rest,
      ElseIfsAlone f.tokens rest (NodeOf [Branches.toStatement f.value continuation])
  | .items, f => ∀ rest, ElseIfsAlone f.tokens rest (NodeOf f.value)
  | .block, f => ∀ rest, ElseIfsAlone f.tokens rest (NodeOf f.value)

theorem NodeOf.cons {s t : Statement} {ss : List Statement} (h : NodeOf ss s) :
    NodeOf (t :: ss) s := by
  obtain ⟨list, hl, hs⟩ := h
  cases hl with
  | self => exact .mem (List.mem_cons_of_mem t hs)
  | part hmem hi hl => exact ⟨list, .part (List.mem_cons_of_mem t hmem) hi hl, hs⟩

theorem NodeOf.head {s t : Statement} {ss : List Statement} (h : NodeOf [t] s) :
    NodeOf (t :: ss) s := by
  obtain ⟨list, hl, hs⟩ := h
  cases hl with
  | self =>
    obtain rfl := List.mem_singleton.1 hs
    exact .mem List.mem_cons_self
  | part hmem hi hl =>
    obtain rfl := List.mem_singleton.1 hmem
    exact ⟨list, .part List.mem_cons_self hi hl, hs⟩

theorem elseIfs_ifOnly (mark : TokenOf (.keyword .ifKw)) (condition : ExprForm)
    {thenPart : Form .block} (ih : ClauseElseIfs .block thenPart)
    {elsePart : Option (List Statement)} {continuation : List Statement} (rest : List Token) :
    ElseIfsAlone (Form.ifOnly mark condition thenPart).tokens rest
      (NodeOf [.branch condition.value thenPart.value elsePart continuation]) := by
  have hthen : ElseIfsAlone thenPart.tokens rest
      (NodeOf [.branch condition.value thenPart.value elsePart continuation]) :=
    (ih rest).mono fun s hs => hs.below List.mem_cons_self List.mem_cons_self
  have hfront : NoElse (mark.1 :: condition.tokens) := by simp
  exact (ElseIfsAlone.of_none hfront).append hthen

theorem clauseElseIfs {c : Clause} (f : Form c) : ClauseElseIfs c f := by
  induction f with
  | whileLoop mark condition body ih =>
    intro rest
    have hfront : NoElse (mark.1 :: condition.tokens) := by simp
    have hbody : ElseIfsAlone body.tokens rest (NodeOf [(Form.whileLoop mark condition body).value]) :=
      (ih rest).mono fun s hs => hs.below List.mem_cons_self List.mem_cons_self
    exact (ElseIfsAlone.of_none hfront).append hbody
  | inner body ih =>
    intro rest
    exact (ih rest).mono fun s hs => hs.below List.mem_cons_self List.mem_cons_self
  | ret mark value stop =>
    intro rest
    exact .of_none (by cases value <;> simp)
  | countFirst mark h target ht stop => exact fun rest => .of_none (by simp)
  | countLast target ht mark h stop => exact fun rest => .of_none (by simp)
  | assign target ht mark value stop => exact fun rest => .of_none (by simp)
  | bare e stop => exact fun rest => .of_none (by simp)
  | ifOnly mark condition thenPart ih => exact fun k rest => elseIfs_ifOnly mark condition ih rest
  | ifElse mark condition thenPart mark' elsePart iht ihe =>
    intro k rest
    have helse : ElseIfsAlone elsePart.tokens rest
        (NodeOf [.branch condition.value thenPart.value (some elsePart.value) k]) :=
      (ihe rest).mono fun s hs => hs.below List.mem_cons_self (by simp [lists])
    refine (elseIfs_ifOnly mark condition iht _).around helse fun hif => ?_
    -- A block starts with a brace.
    cases elsePart with
    | braces opening body closing => simp at hif
  | ifElseIf mark condition thenPart mark' elsePart iht ihe =>
    intro k rest
    have helse : ElseIfsAlone elsePart.tokens rest
        (NodeOf [.branch condition.value thenPart.value
          (some [Branches.toStatement elsePart.value []]) k]) :=
      (ihe [] rest).mono fun s hs => hs.below List.mem_cons_self (by simp [lists])
    refine (elseIfs_ifOnly mark condition iht _).around helse fun _ => ?_
    exact ⟨[], mark, condition, thenPart, elsePart, rest, k, rfl, rfl, .mem List.mem_cons_self⟩
  | noItems => exact fun rest => .of_none nofun
  | plain s rest ihs ihr =>
    intro behind
    exact ((ihs _).mono fun s hs => hs.head).append ((ihr _).mono fun s hs => hs.cons)
  | branch b rest ihb ihr =>
    intro behind
    refine (ihb _ _).append ((ihr _).mono fun s hs => ?_)
    exact hs.below List.mem_cons_self (List.mem_cons_of_mem _ List.mem_cons_self)
  | braces opening body closing ih =>
    intro rest
    have hclosing : NoElse [closing.1] := by simp
    exact .cons (by simp) ((ih _).append (.of_none hclosing))

theorem ElseIfsAlone.flatMap {F : Type} {tokens : F → List Token} {Has : Statement → Prop}
    {fs : List F} (h : ∀ f ∈ fs, ∀ rest, ElseIfsAlone (tokens f) rest Has) (rest : List Token) :
    ElseIfsAlone (fs.flatMap tokens) rest Has := by
  induction fs with
  | nil => exact .of_none noElse_nil
  | cons f fs ih =>
    obtain ⟨hf, hfs⟩ := List.forall_mem_cons.1 h
    rw [List.flatMap_cons]
    exact (hf _).append (ih hfs)

section Definitions

@[simp]
theorem PathForm.noElse (f : PathForm) : NoElse f.tokens := by
  simp [PathForm.tokens]

@[simp]
theorem AttributeForm.noElse (f : AttributeForm) : NoElse f.tokens := by
  simp [AttributeForm.tokens]

@[simp]
theorem SignatureForm.noElse (f : SignatureForm) : NoElse f.tokens := by
  rw [SignatureForm.tokens]
  cases f.params with
  | none => simp [ParametersForm.tokens]
  | some first more last => simp [ParametersForm.tokens, ParameterForm.tokens]

@[simp]
theorem AccessForm.noElse (f : AccessForm) : f.token.kind ≠ .keyword .elseKw := by
  intro hk
  have h := f.spelled
  rw [hk] at h
  cases h

def BodyNode (m : MethodDecl) (s : Statement) : Prop :=
  ∃ body ∈ m.body, NodeOf body s

theorem elseIfs_member (f : MemberForm) (rest : List Token) :
    ElseIfsAlone f.tokens rest fun s => ∃ m, f.value.method? = some m ∧ BodyNode m s := by
  cases f with
  | method attributes access static name signature body =>
    have hfront : NoElse (MemberForm.head attributes access static name ++ signature.tokens) := by
      simp [MemberForm.head]
    refine (ElseIfsAlone.of_none hfront).append ((clauseElseIfs body rest).mono fun s hs => ?_)
    exact ⟨_, rfl, body.value, rfl, hs⟩
  | field attributes access static name type stop =>
    exact .of_none (by simp [MemberForm.tokens, MemberForm.head])

def PartNode (p : Part) (s : Statement) : Prop :=
  ∃ m, (p.function? = some m ∨ ∃ c, p.class? = some c ∧ m ∈ c.methods) ∧ BodyNode m s

theorem elseIfs_members (members : List MemberForm) {c : ClassDecl}
    (hc : c.methods = (members.map MemberForm.value).filterMap Member.method?)
    (rest : List Token) :
    ElseIfsAlone (members.flatMap MemberForm.tokens) rest (PartNode (.defining c)) := by
  refine .flatMap (fun f hf rest => (elseIfs_member f rest).mono ?_) rest
  rintro s ⟨m, hm, hs⟩
  refine ⟨m, .inr ⟨c, rfl, ?_⟩, hs⟩
  simp only [hc, List.filterMap_map, List.mem_filterMap]
  exact ⟨f, hf, hm⟩

theorem elseIfs_part (f : PartForm) (rest : List Token) :
    ElseIfsAlone f.tokens rest (PartNode f.value) := by
  cases f with
  | importing mark path stop => exact .of_none (by simp [PartForm.tokens])
  | function attributes mark name signature body =>
    have hfront : NoElse (attributes.flatMap AttributeForm.tokens ++ mark.1 :: name.1 ::
        signature.tokens) := by simp
    refine (ElseIfsAlone.of_none hfront).append ((clauseElseIfs body rest).mono fun s hs => ?_)
    exact ⟨_, .inl rfl, body.value, rfl, hs⟩
  | foreign attributes mark name signature stop => exact .of_none (by simp [PartForm.tokens])
  | defining attributes access mark name opening members closing =>
    have hfront : NoElse (attributes.flatMap AttributeForm.tokens ++
        [access.token, mark.1, name.1, opening.1]) := by simp
    have hclosing : NoElse [closing.1] := by simp
    have hmembers : ElseIfsAlone (members.flatMap MemberForm.tokens) ([closing.1] ++ rest)
        (PartNode (PartForm.defining attributes access mark name opening members closing).value) :=
      elseIfs_members members rfl _
    have h := (ElseIfsAlone.of_none hfront).append (hmembers.append (.of_none hclosing))
    simpa [PartForm.tokens] using h

def ScriptNode (script : Script) (s : Statement) : Prop :=
  ∃ body ∈ script.bodies, NodeOf body s

theorem scriptNode_of_part {f : ScriptForm} {p : PartForm} (hp : p ∈ f.parts) {s : Statement}
    (h : PartNode p.value s) : ScriptNode f.value s := by
  obtain ⟨m, hm, body, hbody, hs⟩ := h
  refine ⟨body, List.mem_filterMap.2 ⟨m, ?_, hbody⟩, hs⟩
  obtain hfun | ⟨c, hc, hm⟩ := hm
  · refine List.mem_append_left _ ?_
    simp only [ScriptForm.value, Part.toScript, List.filterMap_map, List.mem_filterMap]
    exact ⟨p, hp, hfun⟩
  · refine List.mem_append_right _ (List.mem_flatMap.2 ⟨c, ?_, hm⟩)
    simp only [ScriptForm.value, Part.toScript, List.filterMap_map, List.mem_filterMap]
    exact ⟨p, hp, hc⟩

theorem elseIfs_script (f : ScriptForm) : ElseIfsAlone f.tokens [] (ScriptNode f.value) := by
  have hfront : NoElse (f.mark.1 :: f.path.tokens ++ [f.stop.1]) := by simp
  have hparts : ElseIfsAlone (f.parts.flatMap PartForm.tokens) [] (ScriptNode f.value) :=
    .flatMap (fun p hp rest => (elseIfs_part p rest).mono fun s hs => scriptNode_of_part hp hs) []
  simpa [ScriptForm.tokens] using (ElseIfsAlone.of_none hfront).append hparts

end Definitions

end FrontEnd.Grammar
