import FrontEnd.Proofs.Layout
import FrontEnd.Proofs.RenderedExpr
import FrontEnd.Proofs.ScriptSoundness

/-! Whatever is read from a source is well-formed, so it could have been written. Tokens of a source
are spelled as their kinds say: names are names, and numbers have no sign. All else that makes an
expression, a statement or a script well-formed lies in the rules of the grammar. -/

namespace FrontEnd

open FrontEnd.Program FrontEnd.Segment FrontEnd.Grammar

theorem forall_mem_none {α : Type} {p : α → Prop} : ∀ a ∈ (none : Option α), p a :=
  nofun

/-- The token is what a segment of the proper form stands for. -/
def Token.Spelled (t : Token) : Prop :=
  ∃ start s, Segment.Proper s ∧ Stands start s t

theorem Segment.Reads.spelled {start : Nat} {segments : List Segment} {tokens : List Token}
    (h : Reads start segments tokens) (hp : ∀ s ∈ segments, s.Proper) :
    ∀ t ∈ tokens, t.Spelled := by
  induction h with
  | nil => exact nofun
  | skip _ _ ih => exact ih (List.forall_mem_cons.1 hp).2
  | take hst _ ih =>
    obtain ⟨hs, hrest⟩ := List.forall_mem_cons.1 hp
    exact List.forall_mem_cons.2 ⟨⟨_, _, hs, hst⟩, ih hrest⟩

theorem spelled_of_tokenize {src : String} {tokens : List Token} (h : tokenize src = .ok tokens) :
    ∀ t ∈ tokens, t.Spelled := by
  obtain ⟨segments, hc⟩ := cover_of_tokenize h
  exact hc.reads.spelled hc.apart.proper

theorem Token.Spelled.isName {t : Token} (h : t.Spelled) (hk : t.kind = .name) : IsName t.text := by
  obtain ⟨start, s, hp, hst⟩ := h
  cases hst with
  | name hnone =>
    rw [IsName, String.toList_ofList]
    exact ⟨hp, hnone⟩
  | _ => cases hk

/-- What digits stand for is not negative. -/
theorem nonneg_of_readInt? {text : List Char} (hd : ∀ c ∈ text, Text.isDigit c = true)
    {value : Int} (h : Number.readInt? (String.ofList text) = some value) :
    0 ≤ value ∧ value ≤ Number.maxInt := by
  have hsign : Number.unsigned text = (false, text) :=
    unsigned_of_isDigit fun c hc => hd c (List.mem_of_mem_head? hc)
  have hsigned : Number.readSigned? text = (Number.readNat? text).map Int.ofNat := by
    cases hn : Number.readNat? text <;> simp [Number.readSigned?, hsign, hn]
  rw [Number.readInt?, String.toList_ofList, hsigned] at h
  cases hn : Number.readNat? text with
  | none =>
    rw [hn] at h
    cases h
  | some n =>
    rw [hn, Option.map_some] at h
    dsimp only at h
    split at h
    · next hrange =>
      cases h
      exact ⟨Int.natCast_nonneg n, hrange.2⟩
    · cases h

theorem digit_of_numberPart {text : List Char} (h : (Segment.number text).Proper)
    (hdot : '.' ∉ text) : ∀ c ∈ text, Text.isDigit c = true := by
  obtain ⟨⟨c, cs, rfl, hc, hcs⟩, -⟩ := h
  refine List.forall_mem_cons.2 ⟨hc, fun d hd => ?_⟩
  have hpart := hcs d hd
  rw [isNumberPart, Bool.or_eq_true] at hpart
  obtain hdigit | hd' := hpart
  · exact hdigit
  · obtain rfl : d = '.' := by simpa using hd'
    exact absurd (List.mem_cons_of_mem _ hd) hdot

theorem Token.Spelled.literal {t : Token} (h : t.Spelled) {value : Literal}
    (hv : literal? t = some value) : value.WellFormed := by
  obtain ⟨start, s, hp, hst⟩ := h
  cases hst with
  | keyword k =>
    cases k <;> simp only [literal?, reduceCtorEq] at hv <;> cases hv <;> trivial
  | name hnone => cases hv
  | @int text hdot =>
    obtain ⟨n, hn, rfl⟩ := Option.map_eq_some_iff.1 hv
    exact nonneg_of_readInt? (digit_of_numberPart hp hdot) hn
  | @float text hdot =>
    obtain ⟨x, hx, rfl⟩ := Option.map_eq_some_iff.1 hv
    exact ⟨text, hp, hdot, hx⟩
  | string body =>
    cases hv
    rw [Literal.WellFormed, String.toList_ofList]
    exact hp
  | symbol s => cases hv

end FrontEnd

namespace FrontEnd.Grammar

open FrontEnd.Program FrontEnd.Parse

/-- What a phrase stands for is well-formed. A link needs a well-formed chain behind it. -/
def PhraseWellFormed : (p : Phrase) → p.Value → Prop
  | .expr _, e => Expr.WellFormed e
  | .root, make => ∀ c, Expr.ChildWellFormed c → Expr.WellFormed (make c)
  | .link, make => ∀ c, Expr.ChildWellFormed c →
      (make c).isLink = true ∧ Expr.WellFormed (make c)
  | .links, c => Expr.ChildWellFormed c
  | .args, es => Expr.ArgsWellFormed es
  | .moreArgs, es => Expr.ArgsWellFormed es

theorem TypeForm.isName {f : TypeForm} (h : ∀ t ∈ f.tokens, t.Spelled) : IsName f.value.name :=
  (h f.name.1 (by simp [TypeForm.tokens])).isName f.name.2

/-- A phrase of spelled tokens stands for something well-formed. -/
theorem Derivation.wellFormed {p : Phrase} (d : Derivation p) (h : ∀ t ∈ d.tokens, t.Spelled) :
    PhraseWellFormed p d.value := by
  induction d with
  | next _ d ih => exact ih h
  | binary left mark _ right ihl ihr =>
    simp only [tokens, List.forall_mem_append, List.forall_mem_cons] at h
    simp only [PhraseWellFormed, value, Expr.WellFormed]
    exact ⟨ihl h.1, ihr h.2.2⟩
  | power base mark exponent ihb ihe =>
    simp only [tokens, List.forall_mem_append, List.forall_mem_cons] at h
    simp only [PhraseWellFormed, value, Expr.WellFormed]
    exact ⟨ihb h.1, ihe h.2.2⟩
  | negate mark d ih =>
    simp only [PhraseWellFormed, value, Expr.WellFormed]
    exact ih (List.forall_mem_cons.1 h).2
  | inverse mark d ih =>
    simp only [PhraseWellFormed, value, Expr.WellFormed]
    exact ih (List.forall_mem_cons.1 h).2
  | @literal t value hv =>
    simp only [PhraseWellFormed, Derivation.value, Expr.WellFormed]
    exact (List.forall_mem_singleton.1 h).literal hv
  | group opening d closing ih =>
    simp only [tokens, List.cons_append, List.forall_mem_cons, List.forall_mem_append] at h
    exact ih h.2.1
  | declaration mark name type =>
    simp only [tokens, List.forall_mem_cons] at h
    simp only [PhraseWellFormed, value, Expr.WellFormed]
    exact ⟨h.2.1.isName name.2, TypeForm.isName h.2.2⟩
  | chain root links ihr ihl =>
    simp only [tokens, List.forall_mem_append] at h
    exact ihr h.1 _ (ihl h.2)
  | selfRoot mark =>
    intro c hc
    simpa only [value, Expr.WellFormed] using hc
  | typeRoot hash name =>
    intro c hc
    simp only [tokens, List.forall_mem_cons] at h
    simp only [value, Expr.WellFormed]
    exact ⟨h.2.1.isName name.2, trivial, hc⟩
  | linkRoot link ih => exact fun c hc => (ih h c hc).2
  | var name =>
    intro c hc
    simp only [value, Expr.WellFormed]
    exact ⟨rfl, (List.forall_mem_singleton.1 h).isName name.2, hc⟩
  | call name opening args closing ih =>
    intro c hc
    simp only [tokens, List.cons_append, List.forall_mem_cons, List.forall_mem_append] at h
    simp only [value, Expr.WellFormed]
    exact ⟨rfl, h.1.isName name.2, ih h.2.2.1, hc⟩
  | index name opening d closing ih =>
    intro c hc
    simp only [tokens, List.cons_append, List.forall_mem_cons, List.forall_mem_append] at h
    simp only [value, Expr.WellFormed]
    exact ⟨rfl, h.1.isName name.2, ih h.2.2.1, hc⟩
  | noLinks =>
    simp only [PhraseWellFormed, value, Expr.ChildWellFormed]
  | dot mark link links ih ihl =>
    simp only [tokens, List.cons_append, List.forall_mem_cons, List.forall_mem_append] at h
    simp only [PhraseWellFormed, value, Expr.ChildWellFormed]
    exact ih h.2.1 _ (ihl h.2.2)
  | noArgs => simp only [PhraseWellFormed, value, Expr.ArgsWellFormed]
  | someArgs first more ihf ihm =>
    simp only [tokens, List.forall_mem_append] at h
    simp only [PhraseWellFormed, value, Expr.ArgsWellFormed]
    exact ⟨ihf h.1, ihm h.2⟩
  | noMoreArgs => simp only [PhraseWellFormed, value, Expr.ArgsWellFormed]
  | lastComma mark => simp only [PhraseWellFormed, value, Expr.ArgsWellFormed]
  | nextArg mark arg more iha ihm =>
    simp only [tokens, List.cons_append, List.forall_mem_cons, List.forall_mem_append] at h
    simp only [PhraseWellFormed, value, Expr.ArgsWellFormed]
    exact ⟨iha h.2.1, ihm h.2.2⟩

theorem ExprForm.wellFormed (f : ExprForm) (h : ∀ t ∈ f.tokens, t.Spelled) : f.value.WellFormed :=
  f.1.wellFormed h

/-- The same for a clause. An `if` needs a well-formed continuation. -/
def ClauseWellFormed : (c : Clause) → c.Value → Prop
  | .statement, s => s.isBranch = false ∧ Statement.WellFormed s
  | .branches, b => ∀ k, Statement.ListWellFormed k → (Branches.toStatement b k).WellFormed
  | .items, ss => Statement.ListWellFormed ss
  | .block, ss => Statement.ListWellFormed ss

theorem wellFormed_ofExpr {e : Expr} (h : e.WellFormed) :
    (Statement.ofExpr e).isBranch = false ∧ (Statement.ofExpr e).WellFormed := by
  unfold Statement.ofExpr
  split
  · rw [Expr.WellFormed] at h
    rw [Statement.WellFormed]
    exact ⟨rfl, h.1, h.2.1⟩
  · next hcall =>
    split
    · next hends =>
      rw [Statement.WellFormed]
      exact ⟨rfl, by simp [Statement.ofExpr, hends], h⟩
    · next hends =>
      rw [Statement.WellFormed]
      exact ⟨rfl, by simp [Statement.ofExpr, hends], h⟩

theorem wellFormed_counting {s : Symbol} {make : Expr → Statement} (h : counting? s = some make)
    {e : Expr} (ha : e.isAssignable = true) (he : e.WellFormed) :
    (make e).isBranch = false ∧ (make e).WellFormed := by
  unfold counting? at h
  split at h
  · cases h
    rw [Statement.WellFormed]
    exact ⟨rfl, ha, he⟩
  · cases h
    rw [Statement.WellFormed]
    exact ⟨rfl, ha, he⟩
  · cases h

theorem Form.wellFormed {c : Clause} (f : Form c) (h : ∀ t ∈ f.tokens, t.Spelled) :
    ClauseWellFormed c f.value := by
  induction f with
  | whileLoop mark condition body ih =>
    simp only [tokens, List.cons_append, List.forall_mem_cons, List.forall_mem_append] at h
    simp only [ClauseWellFormed, value, Statement.WellFormed]
    exact ⟨rfl, condition.wellFormed h.2.1, ih h.2.2⟩
  | inner body ih =>
    simp only [ClauseWellFormed, value, Statement.WellFormed]
    exact ⟨rfl, ih h⟩
  | ret mark value stop =>
    cases value with
    | none =>
      simp only [ClauseWellFormed, Form.value, Statement.WellFormed]
      exact ⟨rfl, nofun⟩
    | some value =>
      simp only [tokens, List.cons_append, List.forall_mem_cons, List.forall_mem_append] at h
      simp only [ClauseWellFormed, Form.value, Statement.WellFormed]
      refine ⟨rfl, ?_⟩
      rintro _ ⟨⟩
      exact value.wellFormed h.2.1
  | countFirst mark hs target ht stop =>
    simp only [tokens, List.cons_append, List.forall_mem_cons, List.forall_mem_append] at h
    exact wellFormed_counting hs ht (target.wellFormed h.2.1)
  | countLast target ht mark hs stop =>
    simp only [tokens, List.forall_mem_append] at h
    exact wellFormed_counting hs ht (target.wellFormed h.1)
  | assign target ht mark value stop =>
    simp only [tokens, List.append_assoc, List.cons_append, List.forall_mem_cons,
      List.forall_mem_append] at h
    simp only [ClauseWellFormed, Form.value, Statement.WellFormed]
    exact ⟨rfl, ht, target.wellFormed h.1, value.wellFormed h.2.2.1⟩
  | bare e stop =>
    simp only [tokens, List.forall_mem_append] at h
    exact wellFormed_ofExpr (e.wellFormed h.1)
  | ifOnly mark condition thenPart ih =>
    intro k hk
    simp only [tokens, List.cons_append, List.forall_mem_cons, List.forall_mem_append] at h
    simp only [value, Branches.toStatement, Statement.WellFormed, Statement.ElseWellFormed]
    exact ⟨condition.wellFormed h.2.1, ih h.2.2, trivial, hk⟩
  | ifElse mark condition thenPart mark' elsePart iht ihe =>
    intro k hk
    simp only [tokens, List.cons_append, List.append_assoc, List.forall_mem_cons,
      List.forall_mem_append] at h
    simp only [value, Branches.toStatement, Statement.WellFormed, Statement.ElseWellFormed]
    exact ⟨condition.wellFormed h.2.1, iht h.2.2.1, ihe h.2.2.2.2, hk⟩
  | ifElseIf mark condition thenPart mark' elsePart iht ihe =>
    intro k hk
    simp only [tokens, List.cons_append, List.append_assoc, List.forall_mem_cons,
      List.forall_mem_append] at h
    have helse := ihe h.2.2.2.2 [] (by rw [Statement.ListWellFormed]; trivial)
    simp only [value, Branches.toStatement, Statement.WellFormed, Statement.ElseWellFormed,
      Statement.ListWellFormed] at helse ⊢
    exact ⟨condition.wellFormed h.2.1, iht h.2.2.1, ⟨helse, fun _ => trivial, trivial⟩, hk⟩
  | noItems => simp only [ClauseWellFormed, value, Statement.ListWellFormed]
  | plain s rest ihs ihr =>
    simp only [tokens, List.forall_mem_append] at h
    obtain ⟨hs, hw⟩ := ihs h.1
    simp only [ClauseWellFormed, value, Statement.ListWellFormed]
    exact ⟨hw, fun hb => absurd (hs.symm.trans hb) Bool.false_ne_true, ihr h.2⟩
  | branch b rest ihb ihr =>
    simp only [tokens, List.forall_mem_append] at h
    simp only [ClauseWellFormed, value, Statement.ListWellFormed]
    exact ⟨ihb h.1 _ (ihr h.2), fun _ => trivial, trivial⟩
  | braces opening body closing ih =>
    simp only [tokens, List.cons_append, List.forall_mem_cons, List.forall_mem_append] at h
    exact ih h.2.1

section Definitions

theorem spelled_of_mem_flatMap {F : Type} {tokens : F → List Token} {fs : List F}
    (h : ∀ t ∈ fs.flatMap tokens, t.Spelled) {f : F} (hf : f ∈ fs) : ∀ t ∈ tokens f, t.Spelled :=
  fun t ht => h t (List.mem_flatMap.2 ⟨f, hf, ht⟩)

theorem AttributeForm.wellFormed {fs : List AttributeForm}
    (h : ∀ t ∈ fs.flatMap AttributeForm.tokens, t.Spelled) :
    ∀ a ∈ fs.map AttributeForm.value, a.WellFormed := by
  intro a ha
  obtain ⟨f, hf, rfl⟩ := List.mem_map.1 ha
  have hspelled := spelled_of_mem_flatMap h hf
  simp only [AttributeForm.tokens, List.cons_append, List.forall_mem_cons,
    List.forall_mem_append] at hspelled
  exact ⟨hspelled.2.1.isName f.name.2, f.args.1.wellFormed hspelled.2.2.2.1⟩

theorem ParameterForm.wellFormed (f : ParameterForm) (h : ∀ t ∈ f.tokens, t.Spelled) :
    f.value.WellFormed := by
  simp only [ParameterForm.tokens, List.forall_mem_cons] at h
  exact ⟨h.1.isName f.name.2, TypeForm.isName h.2, f.solid⟩

theorem ParametersForm.wellFormed (f : ParametersForm) (h : ∀ t ∈ f.tokens, t.Spelled) :
    ∀ p ∈ f.value, p.WellFormed := by
  cases f with
  | none => exact nofun
  | some first more last =>
    simp only [ParametersForm.tokens, List.forall_mem_append] at h
    refine List.forall_mem_cons.2 ⟨first.wellFormed h.1.1, fun p hp => ?_⟩
    obtain ⟨q, hq, rfl⟩ := List.mem_map.1 hp
    exact q.2.wellFormed (List.forall_mem_cons.1 (spelled_of_mem_flatMap h.1.2 hq)).2

theorem AccessForm.isAccess (f : AccessForm) : f.value.IsAccess := by
  have h := f.spelled
  unfold access? at h
  split at h
  · exact .inl (Option.some.inj h).symm
  · exact .inr (Option.some.inj h).symm
  · cases h

/-- What methods and functions have in common is well-formed. -/
theorem SignatureForm.headWellFormed (s : SignatureForm) {attributes : List AttributeForm}
    {name : TokenOf .name} {privacy : Privacy} {isStatic : Bool} {body : Option (List Statement)}
    (ha : ∀ t ∈ attributes.flatMap AttributeForm.tokens, t.Spelled) (hn : name.1.Spelled)
    (hs : ∀ t ∈ s.tokens, t.Spelled) :
    MethodDecl.HeadWellFormed ⟨attributes.map AttributeForm.value, name.1.text, privacy, isStatic,
      s.params.value, s.returns.value, body⟩ := by
  simp only [SignatureForm.tokens, List.cons_append, List.forall_mem_cons,
    List.forall_mem_append] at hs
  exact ⟨AttributeForm.wellFormed ha, hn.isName name.2, s.params.wellFormed hs.2.1,
    TypeForm.isName hs.2.2.2⟩

theorem PathForm.wellFormed (f : PathForm) (h : ∀ t ∈ f.tokens, t.Spelled) :
    PathWellFormed f.value := by
  simp only [PathForm.tokens, List.forall_mem_cons] at h
  refine ⟨nofun, List.forall_mem_cons.2 ⟨h.1.isName f.first.2, fun text htext => ?_⟩⟩
  obtain ⟨s, hs, rfl⟩ := List.mem_map.1 htext
  have hspelled := spelled_of_mem_flatMap h.2 hs
  exact (hspelled s.2.1 (by simp)).isName s.2.2

theorem MemberForm.wellFormed (f : MemberForm) (h : ∀ t ∈ f.tokens, t.Spelled) :
    f.value.WellFormed := by
  cases f with
  | method attributes access static name signature body =>
    simp only [MemberForm.tokens, MemberForm.head, List.append_assoc, List.cons_append,
      List.forall_mem_append, List.forall_mem_cons] at h
    obtain ⟨ha, -, -, hn, -, hs, hb⟩ := h
    exact ⟨signature.headWellFormed ha hn hs, access.isAccess, _, rfl, body.wellFormed hb⟩
  | field attributes access static name type stop =>
    simp only [MemberForm.tokens, MemberForm.head, List.append_assoc, List.cons_append,
      List.forall_mem_append, List.forall_mem_cons] at h
    obtain ⟨ha, -, -, hn, -, ht, -⟩ := h
    exact ⟨AttributeForm.wellFormed ha, hn.isName name.2, access.isAccess, TypeForm.isName ht⟩

theorem MemberForm.wellFormed_field? {f : MemberForm} (h : f.value.WellFormed) {d : FieldDecl}
    (hd : f.value.field? = some d) : d.WellFormed := by
  cases f with
  | method => cases hd
  | field =>
    cases hd
    exact h

theorem MemberForm.wellFormed_method? {f : MemberForm} (h : f.value.WellFormed) {m : MethodDecl}
    (hm : f.value.method? = some m) : m.MethodWellFormed := by
  cases f with
  | method =>
    cases hm
    exact h
  | field => cases hm

/-- What a part of a script adds to it is well-formed. -/
theorem PartForm.wellFormed (f : PartForm) (h : ∀ t ∈ f.tokens, t.Spelled) :
    (∀ path ∈ f.value.path?, PathWellFormed path) ∧ (∀ c ∈ f.value.class?, c.WellFormed) ∧
    ∀ m ∈ f.value.function?, m.FunctionWellFormed := by
  cases f with
  | importing mark path stop =>
    simp only [PartForm.tokens, List.cons_append, List.forall_mem_cons, List.forall_mem_append] at h
    refine ⟨?_, forall_mem_none, forall_mem_none⟩
    rintro _ ⟨⟩
    exact path.wellFormed h.2.1
  | function attributes mark name signature body =>
    simp only [PartForm.tokens, List.append_assoc, List.cons_append, List.forall_mem_cons,
      List.forall_mem_append] at h
    obtain ⟨ha, -, hn, hs, hb⟩ := h
    refine ⟨forall_mem_none, forall_mem_none, ?_⟩
    rintro _ ⟨⟩
    exact ⟨signature.headWellFormed ha hn hs, rfl, .inl ⟨rfl, _, rfl, body.wellFormed hb⟩⟩
  | foreign attributes mark name signature stop =>
    simp only [PartForm.tokens, List.append_assoc, List.cons_append, List.forall_mem_cons,
      List.forall_mem_append] at h
    obtain ⟨ha, -, hn, hs, -⟩ := h
    refine ⟨forall_mem_none, forall_mem_none, ?_⟩
    rintro _ ⟨⟩
    exact ⟨signature.headWellFormed ha hn hs, rfl, .inr ⟨rfl, rfl⟩⟩
  | defining attributes access mark name opening members closing =>
    simp only [PartForm.tokens, List.append_assoc, List.cons_append, List.forall_mem_cons,
      List.forall_mem_append] at h
    obtain ⟨ha, -, -, hn, -, hm, -⟩ := h
    have hmember : ∀ f ∈ members, f.value.WellFormed :=
      fun f hf => f.wellFormed (spelled_of_mem_flatMap hm hf)
    refine ⟨forall_mem_none, ?_, forall_mem_none⟩
    rintro _ ⟨⟩
    refine ⟨AttributeForm.wellFormed ha, hn.isName name.2, access.isAccess, fun d hd => ?_,
      fun m hm => ?_⟩
    · simp only [List.filterMap_map, List.mem_filterMap] at hd
      obtain ⟨f, hf, hd⟩ := hd
      exact MemberForm.wellFormed_field? (hmember f hf) hd
    · simp only [List.filterMap_map, List.mem_filterMap] at hm
      obtain ⟨f, hf, hm⟩ := hm
      exact MemberForm.wellFormed_method? (hmember f hf) hm

theorem ScriptForm.wellFormed (f : ScriptForm) (h : ∀ t ∈ f.tokens, t.Spelled) :
    f.value.WellFormed := by
  simp only [ScriptForm.tokens, List.cons_append, List.forall_mem_cons, List.forall_mem_append] at h
  obtain ⟨-, hpath, -, hp⟩ := h
  have hpart := fun (p : PartForm) (hmem : p ∈ f.parts) =>
    p.wellFormed (spelled_of_mem_flatMap hp hmem)
  refine ⟨f.path.wellFormed hpath, fun path hmem => ?_, fun c hmem => ?_, fun m hmem => ?_⟩
  all_goals
    simp only [ScriptForm.value, Part.toScript, List.filterMap_map, List.mem_filterMap] at hmem
    obtain ⟨p, hp, hv⟩ := hmem
  · exact (hpart p hp).1 path hv
  · exact (hpart p hp).2.1 c hv
  · exact (hpart p hp).2.2 m hv

end Definitions

end FrontEnd.Grammar

namespace FrontEnd.Parse

open FrontEnd.Grammar FrontEnd.Parser FrontEnd.Program

/-- Statements that are read from a source are what all its tokens are written for. -/
theorem exists_form_of_readStatements {src : String} {ss : List Statement}
    (h : readStatements src = .ok ss) :
    ∃ f : Form .items, tokenize src = .ok f.tokens ∧ f.value = ss := by
  obtain ⟨tokens, rest, ht, hp⟩ := exists_of_source h
  obtain ⟨vs, hs⟩ := Reading.ok_of_finished hp
  obtain ⟨-, f, rfl, hv, -⟩ := exists_itemsForm hs
  exact ⟨f, ht, hv⟩

theorem exists_form_of_readScript {src : String} {s : Script} (h : readScript src = .ok s) :
    ∃ f : ScriptForm, tokenize src = .ok f.tokens ∧ f.value = s := by
  obtain ⟨tokens, rest, ht, hp⟩ := exists_of_source h
  obtain ⟨-, f, rfl, hv, -⟩ := exists_scriptForm hp
  exact ⟨f, ht, hv⟩

/-- An expression that is read from a source is well-formed. -/
theorem wellFormed_of_readExpr {src : String} {e : Expr} (h : readExpr src = .ok e) :
    e.WellFormed := by
  obtain ⟨tokens, rest, ht, hp⟩ := exists_of_source h
  obtain ⟨vs, he⟩ := Reading.ok_of_finished hp
  obtain ⟨f, rfl, rfl, -⟩ := exprSound_expr _ _ _ _ he
  exact f.wellFormed fun t hf => spelled_of_tokenize ht t (List.mem_append_left _ hf)

/-- Statements that are read from a source are well-formed. -/
theorem wellFormed_of_readStatements {src : String} {ss : List Statement}
    (h : readStatements src = .ok ss) : Statement.ListWellFormed ss := by
  obtain ⟨f, ht, rfl⟩ := exists_form_of_readStatements h
  exact f.wellFormed (spelled_of_tokenize ht)

theorem wellFormed_of_readScript {src : String} {s : Script} (h : readScript src = .ok s) :
    s.WellFormed := by
  obtain ⟨f, ht, rfl⟩ := exists_form_of_readScript h
  exact f.wellFormed (spelled_of_tokenize ht)

end FrontEnd.Parse
