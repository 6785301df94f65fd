import FrontEnd.Proofs.RenderedExpr

/-! Scripts that are written have forms. Whatever tokens the lexemes of a well-formed script stand
for, in any arrangement and any style, they are those of a form that stands for the script and takes
the levels that the writing says. -/

namespace FrontEnd.Grammar

open FrontEnd.Parse FrontEnd.Parser FrontEnd.Program FrontEnd.Segment

/-- Whatever tokens the writing stands for, they are those of a form, which stands for `v`. -/
def FormOf {F α : Type} (tokens : F → List Token) (value : F → α) (levels : F → Nat) (w : Writing)
    (v : α) : Prop :=
  ∀ ts, w.Spells ts → ∃ f, tokens f = ts ∧ value f = v ∧ levels f = w.levels

/-- The same for a clause of a statement list. -/
abbrev Written (c : Clause) (w : Writing) (v : c.Value) : Prop :=
  FormOf (@Form.tokens c) Form.value Form.levels w v

section Statement

variable {st : Style}

theorem written_braces {w : Writing} {ss : List Statement} (h : Written .items w ss) :
    Written .block w.braces ss := by
  intro ts hts
  obtain ⟨us, vs, rfl, hu, hv⟩ := spells_append hts
  obtain ⟨os, bs, rfl, ho, hb⟩ := spells_append hu
  obtain ⟨opening, rfl⟩ := spells_symbol ho
  obtain ⟨closing, rfl⟩ := spells_symbol hv
  obtain ⟨body, rfl, rfl, hn⟩ := h bs hb
  refine ⟨.braces opening body closing, rfl, rfl, ?_⟩
  rw [Form.levels, hn, Writing.levels_braces]

theorem written_bare {e : Expr} {s : Statement} (he : e.WellFormed) (hs : .ofExpr e = s) :
    Written .statement (st.expr e ++ .symbol .semicolon) s := by
  intro ts hts
  obtain ⟨us, vs, rfl, hu, hv⟩ := spells_append hts
  obtain ⟨stop, rfl⟩ := spells_symbol hv
  obtain ⟨f, rfl, rfl, hn⟩ := spells_expr he hu
  refine ⟨.bare f stop, rfl, hs, ?_⟩
  rw [Form.levels, hn]
  simp

theorem written_assignment {target value : Expr} (ha : target.isAssignable = true)
    (ht : target.WellFormed) (hv : value.WellFormed) :
    Written .statement (st.statement (.assignment target value)) (.assignment target value) := by
  intro ts hts
  rw [Style.statement] at hts ⊢
  obtain ⟨us, vs, rfl, hu, hstop⟩ := spells_append hts
  obtain ⟨xs, ws, rfl, hx, hw⟩ := spells_append hu
  obtain ⟨ys, ms, rfl, hy, hm⟩ := spells_append hx
  obtain ⟨stop, rfl⟩ := spells_symbol hstop
  obtain ⟨mark, rfl⟩ := spells_symbol hm
  obtain ⟨f, rfl, rfl, hn⟩ := spells_expr ht hy
  obtain ⟨g, rfl, rfl, hg⟩ := spells_expr hv hw
  refine ⟨.assign f ha mark g stop, by simp, rfl, ?_⟩
  rw [Form.levels, hn, hg]
  simp

/-- A symbol that counts stands in front of its target or behind it. -/
theorem written_counted {s : Symbol} {make : Expr → Statement} (hs : counting? s = some make)
    {target : Expr} (ha : target.isAssignable = true) (ht : target.WellFormed) :
    Written .statement (st.counted s target) (make target) := by
  intro ts hts
  unfold Style.counted at hts ⊢
  split at hts
  · next hfirst =>
    rw [if_pos hfirst]
    obtain ⟨us, vs, rfl, hu, hstop⟩ := spells_append hts
    obtain ⟨ms, ws, rfl, hm, hw⟩ := spells_append hu
    obtain ⟨stop, rfl⟩ := spells_symbol hstop
    obtain ⟨mark, rfl⟩ := spells_symbol hm
    obtain ⟨f, rfl, rfl, hn⟩ := spells_expr ht hw
    refine ⟨.countFirst mark hs f ha stop, rfl, rfl, ?_⟩
    rw [Form.levels, hn]
    simp
  · next hfirst =>
    rw [if_neg hfirst]
    obtain ⟨us, vs, rfl, hu, hstop⟩ := spells_append hts
    obtain ⟨ws, ms, rfl, hw, hm⟩ := spells_append hu
    obtain ⟨stop, rfl⟩ := spells_symbol hstop
    obtain ⟨mark, rfl⟩ := spells_symbol hm
    obtain ⟨f, rfl, rfl, hn⟩ := spells_expr ht hw
    refine ⟨.countLast f ha mark hs stop, by simp, rfl, ?_⟩
    rw [Form.levels, hn]
    simp

theorem written_ret {value : Option Expr} (h : ∀ e ∈ value, e.WellFormed) :
    Written .statement (st.statement (.ret value)) (.ret value) := by
  intro ts hts
  cases value with
  | none =>
    rw [Style.statement] at hts ⊢
    obtain ⟨us, vs, rfl, hu, hv⟩ := spells_append hts
    obtain ⟨mark, rfl⟩ := spells_keyword hu
    obtain ⟨stop, rfl⟩ := spells_symbol hv
    exact ⟨.ret mark none stop, rfl, rfl, rfl⟩
  | some e =>
    rw [Style.statement] at hts ⊢
    obtain ⟨us, vs, rfl, hu, hv⟩ := spells_append hts
    obtain ⟨ms, ws, rfl, hm, hw⟩ := spells_append hu
    obtain ⟨mark, rfl⟩ := spells_keyword hm
    obtain ⟨stop, rfl⟩ := spells_symbol hv
    obtain ⟨f, rfl, rfl, hn⟩ := spells_expr (h e rfl) hw
    refine ⟨.ret mark (some f) stop, rfl, rfl, ?_⟩
    rw [Form.levels, hn]
    simp

theorem written_loop {condition : Expr} {body : List Statement} (hc : condition.WellFormed)
    (hb : Written .items (st.statements body) body) :
    Written .statement (st.statement (.loop condition body)) (.loop condition body) := by
  intro ts hts
  rw [Style.statement] at hts ⊢
  obtain ⟨us, vs, rfl, hu, hv⟩ := spells_append hts
  obtain ⟨ms, ws, rfl, hm, hw⟩ := spells_append hu
  obtain ⟨mark, rfl⟩ := spells_keyword hm
  obtain ⟨f, rfl, rfl, hn⟩ := spells_expr hc hw
  obtain ⟨g, rfl, rfl, hg⟩ := written_braces hb vs hv
  refine ⟨.whileLoop mark f g, rfl, rfl, ?_⟩
  rw [Form.levels, hn, hg]
  simp

theorem written_block {body : List Statement} (hb : Written .items (st.statements body) body) :
    Written .statement (st.statement (.block body)) (.block body) := by
  intro ts hts
  rw [Style.statement] at hts ⊢
  obtain ⟨g, rfl, rfl, hg⟩ := written_braces hb ts hts
  exact ⟨.inner g, rfl, rfl, hg⟩

/-- An `if` with its branches, without what follows it. -/
theorem written_branches {condition : Expr} {thenPart : List Statement}
    {elsePart : Option (List Statement)} (hc : condition.WellFormed)
    (ht : Written .items (st.statements thenPart) thenPart)
    (he : ∀ ss ∈ elsePart, Written .items (st.statements ss) ss) :
    Written .branches (.keyword .ifKw ++ st.expr condition ++ (st.statements thenPart).braces ++
      st.elseBranch elsePart) ⟨condition, thenPart, elsePart⟩ := by
  intro ts hts
  obtain ⟨us, vs, rfl, hu, hv⟩ := spells_append hts
  obtain ⟨xs, bs, rfl, hx, hb⟩ := spells_append hu
  obtain ⟨ms, cs, rfl, hm, hcs⟩ := spells_append hx
  obtain ⟨mark, rfl⟩ := spells_keyword hm
  obtain ⟨f, rfl, rfl, hn⟩ := spells_expr hc hcs
  obtain ⟨g, rfl, rfl, hg⟩ := written_braces ht bs hb
  cases elsePart with
  | none =>
    rw [Style.elseBranch] at hv ⊢
    obtain rfl := spells_nothing hv
    refine ⟨.ifOnly mark f g, by simp, rfl, ?_⟩
    rw [Form.levels, hn, hg]
    simp
  | some ss =>
    rw [Style.elseBranch] at hv ⊢
    obtain ⟨es, ws, rfl, hes, hw⟩ := spells_append hv
    obtain ⟨mark', rfl⟩ := spells_keyword hes
    obtain ⟨g', rfl, rfl, hg'⟩ := written_braces (he ss rfl) ws hw
    refine ⟨.ifElse mark f g mark' g', by simp, rfl, ?_⟩
    rw [Form.levels, hn, hg, hg']
    simp

/-- A statement that is no `if`, in front of the others. -/
theorem written_plain {s : Statement} {ss : List Statement}
    (hs : Written .statement (st.statement s) s) (hss : Written .items (st.statements ss) ss) :
    Written .items (st.statements (s :: ss)) (s :: ss) := by
  intro ts hts
  rw [Style.statements] at hts ⊢
  obtain ⟨us, vs, rfl, hu, hv⟩ := spells_append hts
  obtain ⟨f, rfl, rfl, hn⟩ := hs us hu
  obtain ⟨g, rfl, rfl, hg⟩ := hss vs hv
  refine ⟨.plain f g, rfl, rfl, ?_⟩
  rw [Form.levels, hn, hg, Writing.levels_append]

/-- An `if` is the last of its list, and what it goes on with stands behind it. -/
theorem written_branch {condition : Expr} {thenPart : List Statement}
    {elsePart : Option (List Statement)} {continuation : List Statement}
    (hb : Written .branches (.keyword .ifKw ++ st.expr condition ++
      (st.statements thenPart).braces ++ st.elseBranch elsePart) ⟨condition, thenPart, elsePart⟩)
    (hk : Written .items (st.statements continuation) continuation) :
    Written .items (st.statements [.branch condition thenPart elsePart continuation])
      [.branch condition thenPart elsePart continuation] := by
  intro ts hts
  rw [Style.statements, Style.statements, Style.statement] at hts ⊢
  obtain ⟨us, vs, rfl, hu, hv⟩ := spells_append hts
  obtain rfl := spells_nothing hv
  obtain ⟨bs, ks, rfl, hbs, hks⟩ := spells_append hu
  obtain ⟨f, rfl, hf, hn⟩ := hb bs hbs
  obtain ⟨g, rfl, rfl, hg⟩ := hk ks hks
  refine ⟨.branch f g, by simp, by rw [Form.value, hf]; rfl, ?_⟩
  rw [Form.levels, hn, hg]
  simp

/-- A list is written if each of its statements can be put in front of what is. -/
theorem written_statements {ss : List Statement} (hw : Statement.ListWellFormed ss)
    (h : ∀ s ∈ ss, s.WellFormed → ∀ rest, (s.isBranch = true → rest = []) →
      Written .items (st.statements rest) rest →
      Written .items (st.statements (s :: rest)) (s :: rest)) :
    Written .items (st.statements ss) ss := by
  induction ss with
  | nil =>
    intro ts hts
    rw [Style.statements] at hts ⊢
    obtain rfl := spells_nothing hts
    exact ⟨.noItems, rfl, rfl, rfl⟩
  | cons s ss ih =>
    obtain ⟨hs, hss⟩ := List.forall_mem_cons.1 h
    rw [Statement.ListWellFormed] at hw
    obtain ⟨hws, hlast, hwss⟩ := hw
    exact hs hws ss hlast (ih hwss hss)

/-- Every well-formed statement can be put in front of what is written behind it. -/
theorem written_cons (st : Style) (s : Statement) (hw : s.WellFormed) (rest : List Statement)
    (hlast : s.isBranch = true → rest = []) (hrest : Written .items (st.statements rest) rest) :
    Written .items (st.statements (s :: rest)) (s :: rest) := by
  induction s generalizing rest with
  | assignment target value =>
    rw [Statement.WellFormed] at hw
    exact written_plain (written_assignment hw.1 hw.2.1 hw.2.2) hrest
  | call name args =>
    rw [Statement.WellFormed] at hw
    have he : (Expr.call name args none).WellFormed := by
      rw [Expr.WellFormed, Expr.ChildWellFormed]
      exact ⟨hw.1, hw.2, trivial⟩
    refine written_plain ?_ hrest
    rw [Style.statement]
    exact written_bare he rfl
  | chainCall e =>
    rw [Statement.WellFormed] at hw
    refine written_plain ?_ hrest
    rw [Style.statement]
    exact written_bare hw.2 hw.1
  | branch condition thenPart elsePart continuation iht ihe ihk =>
    rw [Statement.WellFormed] at hw
    obtain ⟨hc, ht, he, hk⟩ := hw
    -- What follows the `if` is its continuation, so there is no rest behind it.
    obtain rfl := hlast rfl
    have hthen := written_statements ht fun s hs hw rest => iht s hs hw rest
    have helse : ∀ ss ∈ elsePart, Written .items (st.statements ss) ss := by
      intro ss hss
      obtain rfl := hss
      rw [Statement.ElseWellFormed] at he
      exact written_statements he fun s hs hw rest => ihe ss rfl s hs hw rest
    have hcont := written_statements hk fun s hs hw rest => ihk s hs hw rest
    exact written_branch (written_branches hc hthen helse) hcont
  | loop condition body ih =>
    rw [Statement.WellFormed] at hw
    have hbody := written_statements hw.2 fun s hs hw rest => ih s hs hw rest
    exact written_plain (written_loop hw.1 hbody) hrest
  | block body ih =>
    rw [Statement.WellFormed] at hw
    have hbody := written_statements hw fun s hs hw rest => ih s hs hw rest
    exact written_plain (written_block hbody) hrest
  | ret value =>
    rw [Statement.WellFormed] at hw
    exact written_plain (written_ret hw) hrest
  | increment target =>
    rw [Statement.WellFormed] at hw
    refine written_plain ?_ hrest
    rw [Style.statement]
    exact written_counted rfl hw.1 hw.2
  | decrement target =>
    rw [Statement.WellFormed] at hw
    refine written_plain ?_ hrest
    rw [Style.statement]
    exact written_counted rfl hw.1 hw.2
  | eval e =>
    rw [Statement.WellFormed] at hw
    refine written_plain ?_ hrest
    rw [Style.statement]
    exact written_bare hw.2 hw.1

theorem written_body {ss : List Statement} (hw : Statement.ListWellFormed ss) :
    Written .block (st.body (some ss)) ss :=
  written_braces (written_statements hw fun s _ hs rest => written_cons st s hs rest)

end Statement

section Sequences

variable {F α β : Type} {tokens : F → List Token} {value : F → α} {levels : F → Nat}

/-- If each of them has a form, then so have all of them, one behind the other. -/
theorem formOf_all {f : β → Writing} {g : β → α} {bs : List β}
    (h : ∀ b ∈ bs, FormOf tokens value levels (f b) (g b)) :
    FormOf (List.flatMap tokens) (List.map value) (levelsOf levels) (.all f bs) (bs.map g) := by
  induction bs with
  | nil =>
    intro ts hts
    obtain rfl := spells_nothing hts
    exact ⟨[], rfl, rfl, rfl⟩
  | cons b bs ih =>
    intro ts hts
    obtain ⟨hb, hbs⟩ := List.forall_mem_cons.1 h
    obtain ⟨us, vs, rfl, hu, hv⟩ := spells_append hts
    obtain ⟨x, rfl, hx, hn⟩ := hb us hu
    obtain ⟨xs, rfl, hxs, hns⟩ := ih hbs vs hv
    refine ⟨x :: xs, rfl, by rw [List.map_cons, List.map_cons, hx, hxs], ?_⟩
    rw [Writing.all, List.foldr_cons, Writing.levels_append, ← hn]
    exact congrArg _ hns

/-- A separator and what it separates. -/
theorem formOf_separated {s : Symbol} {w : Writing} {v : α} (h : FormOf tokens value levels w v) :
    FormOf (fun p : Mark s × F => p.1.1 :: tokens p.2) (fun p => value p.2) (fun p => levels p.2)
      (.symbol s ++ w) v := by
  intro ts hts
  obtain ⟨us, vs, rfl, hu, hv⟩ := spells_append hts
  obtain ⟨mark, rfl⟩ := spells_symbol hu
  obtain ⟨x, rfl, hx, hn⟩ := h vs hv
  refine ⟨(mark, x), rfl, hx, ?_⟩
  simp [hn]

end Sequences

section Definitions

variable {st : Style} {ts : List Token}

theorem formOf_name {text : String} (h : IsName text) :
    FormOf (fun name : TokenOf .name => [name.1]) (fun name => name.1.text) (fun _ => 0)
      (.name text) text := by
  intro ts hts
  obtain ⟨name, rfl, htext⟩ := spells_name h hts
  exact ⟨name, rfl, htext, rfl⟩

theorem formOf_path {path : List String} (h : PathWellFormed path) :
    FormOf PathForm.tokens PathForm.value (fun _ => 0) (Style.path path) path := by
  intro ts hts
  cases path with
  | nil => exact absurd rfl h.1
  | cons text texts =>
    obtain ⟨hn, hns⟩ := List.forall_mem_cons.1 h.2
    obtain ⟨us, vs, rfl, hu, hv⟩ := spells_append hts
    obtain ⟨first, rfl, rfl⟩ := spells_name hn hu
    obtain ⟨more, rfl, hm, hl⟩ :=
      formOf_all (fun text ht => formOf_separated (formOf_name (hns text ht))) vs hv
    refine ⟨⟨first, more⟩, rfl, ?_, ?_⟩
    · rw [PathForm.value, hm, List.map_id']
    · rw [Style.path, Writing.levels_append, ← hl, levelsOf_zero]
      rfl

theorem formOf_attributes {as : List Attribute} (h : ∀ a ∈ as, a.WellFormed) :
    FormOf (List.flatMap AttributeForm.tokens) (List.map AttributeForm.value)
      (levelsOf AttributeForm.levels) (st.attributes as) as := by
  have hone : ∀ a ∈ as, FormOf AttributeForm.tokens AttributeForm.value AttributeForm.levels
      (.symbol .atSign ++ .name a.name ++ (st.args a.args).parens) a := by
    intro a ha ts hts
    obtain ⟨us, vs, rfl, hu, hv⟩ := spells_append hts
    obtain ⟨ms, ns, rfl, hm, hn⟩ := spells_append hu
    obtain ⟨mark, rfl⟩ := spells_symbol hm
    obtain ⟨name, rfl, hname⟩ := spells_name (h a ha).1 hn
    obtain ⟨opening, ws, closing, rfl, hw⟩ := spells_parens hv
    obtain ⟨args, rfl, hargs, hl⟩ := spells_args (h a ha).2 hw
    refine ⟨⟨mark, name, opening, args, closing⟩, rfl, ?_, ?_⟩
    · rw [AttributeForm.value, hname, hargs]
    · rw [AttributeForm.levels, hl]
      simp
  have hall := formOf_all hone
  rw [List.map_id'] at hall
  exact hall

theorem formOf_parameter {p : Parameter} (h : p.WellFormed) :
    FormOf ParameterForm.tokens ParameterForm.value (fun _ => 0) (Style.parameter p) p := by
  intro ts hts
  obtain ⟨hn, ht, hsolid⟩ := h
  obtain ⟨us, vs, rfl, hu, hv⟩ := spells_append hts
  obtain ⟨name, rfl, hname⟩ := spells_name hn hu
  obtain ⟨type, rfl, htype⟩ := spells_typeRef ht hv
  refine ⟨⟨name, type, by rw [htype, hsolid]⟩, rfl, ?_, ?_⟩
  · rw [ParameterForm.value, hname, htype]
  · simp [Style.parameter]

theorem formOf_parameters {ps : List Parameter} (h : ∀ p ∈ ps, p.WellFormed) :
    FormOf ParametersForm.tokens ParametersForm.value (fun _ => 0) (Style.parameters ps) ps := by
  intro ts hts
  cases ps with
  | nil =>
    obtain rfl := spells_nothing hts
    exact ⟨.none, rfl, rfl, rfl⟩
  | cons p ps =>
    obtain ⟨hp, hps⟩ := List.forall_mem_cons.1 h
    obtain ⟨us, vs, rfl, hu, hv⟩ := spells_append hts
    obtain ⟨first, rfl, hfirst, hl⟩ := formOf_parameter hp us hu
    obtain ⟨more, rfl, hmore, hls⟩ :=
      formOf_all (fun p hp => formOf_separated (formOf_parameter (hps p hp))) vs hv
    refine ⟨.some first more none, by simp [ParametersForm.tokens], ?_, ?_⟩
    · rw [ParametersForm.value, hfirst, hmore, List.map_id']
    · rw [Style.parameters, Writing.levels_append, ← hl, ← hls, levelsOf_zero]
      rfl

theorem formOf_signature {params : List Parameter} {returns : TypeRef}
    (hp : ∀ p ∈ params, p.WellFormed) (hr : IsName returns.name) :
    FormOf SignatureForm.tokens (fun f => (f.params.value, f.returns.value)) (fun _ => 0)
      (Style.signature params returns) (params, returns) := by
  intro ts hts
  obtain ⟨us, vs, rfl, hu, hv⟩ := spells_append hts
  obtain ⟨opening, ws, closing, rfl, hw⟩ := spells_parens hu
  obtain ⟨f, rfl, hf, hl⟩ := formOf_parameters hp ws hw
  obtain ⟨type, rfl, htype⟩ := spells_typeRef hr hv
  refine ⟨⟨opening, f, closing, type⟩, by simp [SignatureForm.tokens], Prod.ext hf htype, ?_⟩
  rw [Style.signature, Writing.levels_append, Writing.levels_parens, ← hl, levels_typeRef]
  rfl

theorem formOf_access {p : Privacy} (h : p.IsAccess) :
    FormOf (fun f : AccessForm => [f.token]) AccessForm.value (fun _ => 0) (Style.access p) p := by
  intro ts hts
  obtain rfl | rfl := h
  · obtain ⟨mark, rfl⟩ := spells_keyword hts
    exact ⟨⟨mark.1, .visible, by rw [mark.2]; rfl⟩, rfl, rfl, rfl⟩
  · obtain ⟨mark, rfl⟩ := spells_keyword hts
    exact ⟨⟨mark.1, .hidden, by rw [mark.2]; rfl⟩, rfl, rfl, rfl⟩

theorem formOf_static (isStatic : Bool) :
    FormOf (fun f : Option (TokenOf (.keyword .staticKw)) => f.toList.map Subtype.val)
      Option.isSome (fun _ => 0) (Style.static isStatic) isStatic := by
  intro ts hts
  cases isStatic with
  | false =>
    obtain rfl := spells_nothing hts
    exact ⟨none, rfl, rfl, rfl⟩
  | true =>
    obtain ⟨mark, rfl⟩ := spells_keyword hts
    exact ⟨some mark, rfl, rfl, rfl⟩

/-- What a method and a field have in front of their types. -/
theorem spells_head {as : List Attribute} {p : Privacy} {isStatic : Bool} {text : String}
    (ha : ∀ a ∈ as, a.WellFormed) (hp : p.IsAccess) (hn : IsName text)
    (hts : (st.attributes as ++ Style.access p ++ Style.static isStatic ++ .name text).Spells ts) :
    ∃ attributes access static name, MemberForm.head attributes access static name = ts ∧
      attributes.map AttributeForm.value = as ∧ access.value = p ∧ static.isSome = isStatic ∧
      name.1.text = text ∧ levelsOf AttributeForm.levels attributes =
        (st.attributes as ++ Style.access p ++ Style.static isStatic ++ .name text).levels := by
  obtain ⟨us, vs, rfl, hu, hv⟩ := spells_append hts
  obtain ⟨ws, xs, rfl, hw, hx⟩ := spells_append hu
  obtain ⟨ys, zs, rfl, hy, hz⟩ := spells_append hw
  obtain ⟨attributes, rfl, hattributes, hl⟩ := formOf_attributes ha ys hy
  obtain ⟨access, rfl, haccess, hla⟩ := formOf_access hp zs hz
  obtain ⟨static, rfl, hstatic, hls⟩ := formOf_static isStatic xs hx
  obtain ⟨name, rfl, hname⟩ := spells_name hn hv
  refine ⟨attributes, access, static, name, by simp [MemberForm.head], hattributes, haccess,
    hstatic, hname, ?_⟩
  simp only [Writing.levels_append, Writing.levels_name, ← hl, ← hla, ← hls, Nat.max_zero]

theorem formOf_field {f : FieldDecl} (h : f.WellFormed) :
    FormOf MemberForm.tokens MemberForm.value MemberForm.levels (st.member (.field f))
      (.field f) := by
  intro ts hts
  obtain ⟨us, vs, rfl, hu, hv⟩ := spells_append hts
  obtain ⟨hs, xs, rfl, hhead, hx⟩ := spells_append hu
  obtain ⟨attributes, access, static, name, rfl, hattributes, haccess, hstatic, hname, hl⟩ :=
    spells_head h.attributes h.access h.name hhead
  obtain ⟨type, rfl, htype⟩ := spells_typeRef h.type hx
  obtain ⟨stop, rfl⟩ := spells_symbol hv
  refine ⟨.field attributes access static name type stop, rfl, ?_, ?_⟩
  · rw [MemberForm.value, hattributes, haccess, hstatic, hname, htype]
  · rw [MemberForm.levels, hl, Style.member, Writing.levels_append _ (.symbol _),
      Writing.levels_append _ (Style.typeRef _)]
    simp only [levels_typeRef, Writing.levels_symbol, Nat.max_zero]

theorem formOf_method {m : MethodDecl} (h : m.MethodWellFormed) :
    FormOf MemberForm.tokens MemberForm.value MemberForm.levels (st.member (.method m))
      (.method m) := by
  intro ts hts
  obtain ⟨hm, hp, body, hbody, hw⟩ := h
  obtain ⟨us, vs, rfl, hu, hv⟩ := spells_append hts
  obtain ⟨hs, xs, rfl, hhead, hx⟩ := spells_append hu
  obtain ⟨attributes, access, static, name, rfl, hattributes, haccess, hstatic, hname, hl⟩ :=
    spells_head hm.attributes hp hm.name hhead
  obtain ⟨signature, rfl, hsignature, hls⟩ := formOf_signature hm.params hm.returns xs hx
  rw [hbody] at hv
  obtain ⟨f, rfl, hf, hlf⟩ := written_body hw vs hv
  obtain ⟨hparams, hreturns⟩ := Prod.mk.inj hsignature
  refine ⟨.method attributes access static name signature f, rfl, ?_, ?_⟩
  · rw [MemberForm.value, hattributes, haccess, hstatic, hname, hparams, hreturns, hf, ← hbody]
  · rw [MemberForm.levels, hl, hlf, Style.member, hbody, Writing.levels_append _ (st.body _),
      Writing.levels_append _ (Style.signature _ _), ← hls, Nat.max_zero]

theorem formOf_member {m : Member} (h : m.WellFormed) :
    FormOf MemberForm.tokens MemberForm.value MemberForm.levels (st.member m) m := by
  cases m with
  | field f => exact formOf_field h
  | method m => exact formOf_method h

theorem formOf_import {path : List String} (h : PathWellFormed path) :
    FormOf PartForm.tokens PartForm.value PartForm.levels (st.entry (.importing path))
      (.importing path) := by
  intro ts hts
  obtain ⟨us, vs, rfl, hu, hv⟩ := spells_append hts
  obtain ⟨ms, ps, rfl, hm, hp⟩ := spells_append hu
  obtain ⟨mark, rfl⟩ := spells_keyword hm
  obtain ⟨f, rfl, rfl, hl⟩ := formOf_path h ps hp
  obtain ⟨stop, rfl⟩ := spells_symbol hv
  refine ⟨.importing mark f stop, rfl, rfl, ?_⟩
  simp [PartForm.levels, Style.entry, ← hl]

/-- The members of a class are all those that are written in it. -/
theorem formOf_class {c : ClassLayout} (h : c.decl.WellFormed) :
    FormOf PartForm.tokens PartForm.value PartForm.levels (st.entry (.defining c))
      (.defining c.decl) := by
  intro ts hts
  obtain ⟨us, vs, rfl, hu, hclosing⟩ := spells_append hts
  obtain ⟨ws, bs, rfl, hw, hb⟩ := spells_append hu
  obtain ⟨xs, os, rfl, hx, ho⟩ := spells_append hw
  obtain ⟨ys, ns, rfl, hy, hn⟩ := spells_append hx
  obtain ⟨zs, ms, rfl, hz, hm⟩ := spells_append hy
  obtain ⟨as, ps, rfl, ha, hp⟩ := spells_append hz
  obtain ⟨attributes, rfl, hattributes, hla⟩ := formOf_attributes h.attributes as ha
  obtain ⟨access, rfl, haccess, hlp⟩ := formOf_access h.access ps hp
  obtain ⟨mark, rfl⟩ := spells_keyword hm
  obtain ⟨name, rfl, hname⟩ := spells_name h.name hn
  obtain ⟨opening, rfl⟩ := spells_symbol ho
  obtain ⟨members, rfl, hmembers, hlm⟩ :=
    formOf_all (fun m hm => formOf_member (c.wellFormed_of_mem h m hm)) bs hb
  obtain ⟨closing, rfl⟩ := spells_symbol hclosing
  rw [List.map_id'] at hmembers
  refine ⟨.defining attributes access mark name opening members closing,
    by simp [PartForm.tokens], ?_, ?_⟩
  · rw [PartForm.value, hattributes, haccess, hname, hmembers]
    rfl
  · have hattr : (st.attributes c.attributes).levels = levelsOf AttributeForm.levels attributes :=
      hla.symm
    have haccess : (Style.access c.privacy).levels = 0 := hlp.symm
    simp [PartForm.levels, Style.entry, hattr, haccess, ← hlm]

theorem formOf_function {m : MethodDecl} (h : m.FunctionWellFormed) :
    FormOf PartForm.tokens PartForm.value PartForm.levels (st.entry (.function m))
      (.function m) := by
  intro ts hts
  obtain ⟨hm, hstatic, hbody⟩ := h
  obtain ⟨us, vs, rfl, hu, hv⟩ := spells_append hts
  obtain ⟨ws, ss, rfl, hw, hs⟩ := spells_append hu
  obtain ⟨xs, ns, rfl, hx, hn⟩ := spells_append hw
  obtain ⟨as, ks, rfl, ha, hk⟩ := spells_append hx
  obtain ⟨attributes, rfl, hattributes, hla⟩ := formOf_attributes hm.attributes as ha
  obtain ⟨name, rfl, hname⟩ := spells_name hm.name hn
  obtain ⟨signature, rfl, hsignature, hls⟩ := formOf_signature hm.params hm.returns ss hs
  obtain ⟨hparams, hreturns⟩ := Prod.mk.inj hsignature
  obtain ⟨mark, rfl⟩ := spells_keyword hk
  -- The two kinds of functions differ in their keyword and in how they end.
  obtain ⟨hglobal, body, hsome, hwell⟩ | ⟨hforeign, hnone⟩ := hbody
  · have hkeyword : Style.functionKeyword m = .funcKw := by simp [Style.functionKeyword, hsome]
    rw [hsome] at hv
    obtain ⟨f, rfl, hf, hlf⟩ := written_body hwell vs hv
    refine ⟨.function attributes ⟨mark.1, by rw [mark.2, hkeyword]⟩ name signature f,
      by simp [PartForm.tokens], ?_, ?_⟩
    · rw [PartForm.value, hattributes, hname, hparams, hreturns, hf, ← hglobal, ← hstatic, ← hsome]
    · simp [PartForm.levels, Style.entry, hlf, hsome, ← hla, ← hls]
  · have hkeyword : Style.functionKeyword m = .foreignKw := by simp [Style.functionKeyword, hnone]
    rw [hnone] at hv
    obtain ⟨stop, rfl⟩ := spells_symbol hv
    refine ⟨.foreign attributes ⟨mark.1, by rw [mark.2, hkeyword]⟩ name signature stop,
      by simp [PartForm.tokens], ?_, ?_⟩
    · rw [PartForm.value, hattributes, hname, hparams, hreturns, ← hforeign, ← hstatic, ← hnone]
    · simp [PartForm.levels, Style.entry, hnone, Style.body, ← hla, ← hls]

def Entry.part : Entry → Part
  | importing path => .importing path
  | defining c => .defining c.decl
  | function m => .function m

/-- In any arrangement the parts make up the script. -/
theorem Arrangement.toScript_eq {s : Script} (a : Arrangement s) :
    Part.toScript s.path (a.entries.map Entry.part) = s := by
  have hpath : Part.path? ∘ Entry.part = Entry.path? := by
    funext e
    cases e <;> rfl
  have hclass : Part.class? ∘ Entry.part = Entry.class? := by
    funext e
    cases e <;> rfl
  have hfunction : Part.function? ∘ Entry.part = Entry.function? := by
    funext e
    cases e <;> rfl
  simp only [Part.toScript, List.filterMap_map, hpath, hclass, hfunction, a.imports, a.classes,
    a.functions]

theorem formOf_entry {e : Entry} (h : e.WellFormed) :
    FormOf PartForm.tokens PartForm.value PartForm.levels (st.entry e) e.part := by
  cases e with
  | importing path => exact formOf_import h
  | defining c => exact formOf_class h
  | function m => exact formOf_function h

theorem formOf_script {s : Script} (h : s.WellFormed) (a : Arrangement s) :
    FormOf ScriptForm.tokens ScriptForm.value ScriptForm.levels (st.script a) s := by
  intro ts hts
  obtain ⟨us, vs, rfl, hu, hv⟩ := spells_append hts
  obtain ⟨ws, xs, rfl, hw, hx⟩ := spells_append hu
  obtain ⟨ms, ps, rfl, hm, hp⟩ := spells_append hw
  obtain ⟨mark, rfl⟩ := spells_keyword hm
  obtain ⟨path, rfl, hpath, hlp⟩ := formOf_path h.path ps hp
  obtain ⟨stop, rfl⟩ := spells_symbol hx
  obtain ⟨parts, rfl, hparts, hl⟩ :=
    formOf_all (fun e he => formOf_entry (a.wellFormed_of_mem h e he)) vs hv
  refine ⟨⟨mark, path, stop, parts⟩, by simp [ScriptForm.tokens], ?_, ?_⟩
  · rw [ScriptForm.value, hpath, hparts, a.toScript_eq]
  · simp [ScriptForm.levels, Style.script, ← hlp, ← hl]

end Definitions

end FrontEnd.Grammar
