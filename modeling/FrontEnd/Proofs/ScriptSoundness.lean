import FrontEnd.Parse.Session
import FrontEnd.Proofs.StatementSoundness

/-! Scripts that are read are written so: all the tokens that were passed, in their order, are those
of a form that stands for what was read. Every list of items is made up of the forms of its items,
and each attribute belongs to the definition behind it. -/

namespace FrontEnd.Parse

open FrontEnd.Parser FrontEnd.Grammar FrontEnd.Program

/-- Every item that is read is written so, and where there is none nothing is passed. -/
def ItemSound {α F : Type} (item : Parser (Option α)) (tokens : F → List Token) (value : F → α)
    (levels : F → Nat) (n : Nat) : Prop :=
  ∀ ts a? us, item ts = .ok a? us →
    (a? = none ∧ ts = us) ∨ ∃ f, ts = tokens f ++ us ∧ a? = some (value f) ∧ levels f ≤ n

/-- If every item that is read is written so, then so is the list, and it ends where there is no
item. -/
theorem exists_forms {α F : Type} {item : Parser (Option α)} {tokens : F → List Token}
    {value : F → α} {levels : F → Nat} {n : Nat} (ha : ItemAdvances item)
    (hi : ItemSound item tokens value levels n) {ts us : List Token} {as : List α}
    (h : many item ts = .ok as us) :
    ∃ fs : List F, ts = fs.flatMap tokens ++ us ∧ fs.map value = as ∧ levelsOf levels fs ≤ n ∧
      item us = .ok none us := by
  refine many_induction ha (P := fun ts as us => ∃ fs : List F, ts = fs.flatMap tokens ++ us ∧
    fs.map value = as ∧ levelsOf levels fs ≤ n ∧ item us = .ok none us) ?_ ?_ h
  · intro ts us hs
    obtain ⟨-, rfl⟩ | ⟨f, -, hf, -⟩ := hi _ _ _ hs
    · exact ⟨[], rfl, rfl, Nat.zero_le _, hs⟩
    · cases hf
  · rintro ts vs us a as hs ⟨fs, rfl, rfl, hn, hend⟩
    obtain ⟨ha, -⟩ | ⟨f, rfl, hf, hfn⟩ := hi _ _ _ hs
    · cases ha
    · cases hf
      exact ⟨f :: fs, by simp, rfl, Nat.max_le.2 ⟨hfn, hn⟩, hend⟩

section Definitions

variable {n : Nat} {ts us : List Token}

theorem itemSound_segment :
    ItemSound segment (fun s : Mark .period × TokenOf .name => [s.1.1, s.2.1])
      (fun s => s.2.1.text) (fun _ => 0) 0 := by
  intro ts text? us h
  obtain ⟨b, vs, ht, h1⟩ := bind_eq_ok_iff.1 h
  rcases take_eq_ok_iff.1 ht with ⟨rfl, t, hk, rfl⟩ | ⟨rfl, rfl, -⟩
  · obtain ⟨text, ws, hn, hp⟩ := bind_eq_ok_iff.1 h1
    obtain ⟨u, hu, rfl, rfl⟩ := name_eq_ok_iff.1 hn
    obtain ⟨rfl, rfl⟩ := pure_eq_ok_iff.1 hp
    exact .inr ⟨⟨⟨t, hk⟩, ⟨u, hu⟩⟩, rfl, rfl, Nat.le_refl _⟩
  · obtain ⟨rfl, rfl⟩ := pure_eq_ok_iff.1 h1
    exact .inl ⟨rfl, rfl⟩

theorem exists_pathForm {p : List String} (h : path ts = .ok p us) :
    ∃ f : PathForm, ts = f.tokens ++ us ∧ f.value = p := by
  rw [path_eq] at h
  obtain ⟨text, vs, hn, h1⟩ := bind_eq_ok_iff.1 h
  obtain ⟨first, hfirst, rfl, rfl⟩ := name_eq_ok_iff.1 hn
  obtain ⟨texts, ws, hm, hp⟩ := bind_eq_ok_iff.1 h1
  obtain ⟨rfl, rfl⟩ := pure_eq_ok_iff.1 hp
  obtain ⟨more, rfl, rfl, -⟩ := exists_forms itemAdvances_segment itemSound_segment hm
  exact ⟨⟨⟨first, hfirst⟩, more⟩, rfl, rfl⟩

theorem itemSound_attribute? (n : Nat) :
    ItemSound (attribute? n) AttributeForm.tokens AttributeForm.value AttributeForm.levels n := by
  intro ts a? us h
  obtain ⟨b, vs, ht, h1⟩ := bind_eq_ok_iff.1 h
  rcases take_eq_ok_iff.1 ht with ⟨rfl, t, hk, rfl⟩ | ⟨rfl, rfl, -⟩
  · obtain ⟨text, ws, hn, h2⟩ := bind_eq_ok_iff.1 h1
    obtain ⟨name, hname, rfl, rfl⟩ := name_eq_ok_iff.1 hn
    obtain ⟨_, xs, ho, h3⟩ := bind_eq_ok_iff.1 h2
    obtain ⟨opening, hopening, rfl⟩ := symbol_eq_ok_iff.1 ho
    obtain ⟨es, ys, ha, h4⟩ := bind_eq_ok_iff.1 h3
    obtain ⟨_, zs, hc, hp⟩ := bind_eq_ok_iff.1 h4
    obtain ⟨closing, hclosing, rfl⟩ := symbol_eq_ok_iff.1 hc
    obtain ⟨rfl, rfl⟩ := pure_eq_ok_iff.1 hp
    obtain ⟨args, rfl, rfl, hs, hn⟩ := derived_args (innerSound_level n) (innerForward_level n) ha
    have hstar : NotAt (.symbol .star) (closing :: zs) := notAt_cons.2 (by simp [hclosing])
    refine .inr ⟨⟨⟨t, hk⟩, ⟨name, hname⟩, ⟨opening, hopening⟩,
      ⟨args, (args.separated_nil_iff hstar).2 hs⟩, ⟨closing, hclosing⟩⟩, ?_, rfl,
      Nat.le_of_lt_succ hn⟩
    simp [AttributeForm.tokens]
  · obtain ⟨rfl, rfl⟩ := pure_eq_ok_iff.1 h1
    exact .inl ⟨rfl, rfl⟩

theorem exists_attributeForms {as : List Attribute} (h : attributes n ts = .ok as us) :
    ∃ fs : List AttributeForm, ts = fs.flatMap AttributeForm.tokens ++ us ∧
      fs.map AttributeForm.value = as ∧ levelsOf AttributeForm.levels fs ≤ n := by
  rw [attributes_eq] at h
  obtain ⟨fs, hts, hv, hn, -⟩ := exists_forms (itemAdvances_attribute? n) (itemSound_attribute? n) h
  exact ⟨fs, hts, hv, hn⟩

theorem exists_parameterForm {p : Parameter} (h : parameter ts = .ok p us) :
    ∃ f : ParameterForm, ts = f.tokens ++ us ∧ f.value = p := by
  obtain ⟨site, vs, hg, h1⟩ := bind_eq_ok_iff.1 h
  obtain ⟨rfl, rfl⟩ := get_eq_ok_iff.1 hg
  obtain ⟨text, ws, hn, h2⟩ := bind_eq_ok_iff.1 h1
  obtain ⟨name, hname, rfl, rfl⟩ := name_eq_ok_iff.1 hn
  obtain ⟨type, xs, ht, h3⟩ := bind_eq_ok_iff.1 h2
  obtain ⟨f, rfl, rfl, -⟩ := exists_typeForm ht
  unfold Parameter.of at h3
  cases hv : f.value.isVoid with
  | true =>
    rw [hv] at h3
    cases h3
  | false =>
    rw [hv] at h3
    obtain ⟨rfl, rfl⟩ := pure_eq_ok_iff.1 h3
    exact ⟨⟨⟨name, hname⟩, f, hv⟩, rfl, rfl⟩

/-- What follows the first parameter: commas and parameters, and perhaps one comma more. -/
theorem exists_moreParameters {ps : List Parameter}
    (h : many (nextItem (.symbol .closeParen) parameter) ts = .ok ps us) :
    ∃ (more : List (Mark .comma × ParameterForm)) (last : Option (Mark .comma)),
      ts = more.flatMap (fun p => p.1.1 :: p.2.tokens) ++ last.toList.map Subtype.val ++ us ∧
      (more.map fun p => p.2.value) = ps := by
  refine many_induction (itemAdvances_nextItem _ consumes_parameter.toForward)
    (P := fun ts ps us => ∃ (more : List (Mark .comma × ParameterForm))
      (last : Option (Mark .comma)),
      ts = more.flatMap (fun p => p.1.1 :: p.2.tokens) ++ last.toList.map Subtype.val ++ us ∧
      (more.map fun p => p.2.value) = ps) ?_ ?_ h
  · intro ts us hn
    rcases nextItem_cases hn with ⟨-, rfl⟩ | ⟨-, t, hk, rfl⟩ | ⟨t, vs, p, -, -, -, hp⟩
    · exact ⟨[], none, rfl, rfl⟩
    · exact ⟨[], some ⟨t, hk⟩, rfl, rfl⟩
    · cases hp
  · rintro ts vs us p ps hn ⟨more, last, rfl, rfl⟩
    rcases nextItem_cases hn with ⟨hp, -⟩ | ⟨hp, -⟩ | ⟨t, ws, q, hk, rfl, hq, hp⟩
    · cases hp
    · cases hp
    · cases hp
      obtain ⟨f, rfl, rfl⟩ := exists_parameterForm hq
      exact ⟨(⟨t, hk⟩, f) :: more, last, by simp, rfl⟩

theorem exists_signatureForm {α : Type} {rest : List Parameter → TypeRef → Parser α} {a : α}
    (h : (parameters >>= fun ps => typeRef >>= fun type => rest ps type) ts = .ok a us) :
    ∃ (f : SignatureForm) (vs : List Token), ts = f.tokens ++ vs ∧
      rest f.params.value f.returns.value vs = .ok a us := by
  obtain ⟨ps, vs, hps, h1⟩ := bind_eq_ok_iff.1 h
  obtain ⟨type, ws, ht, h2⟩ := bind_eq_ok_iff.1 h1
  obtain ⟨returns, rfl, rfl, -⟩ := exists_typeForm ht
  obtain ⟨_, xs, ho, h3⟩ := bind_eq_ok_iff.1 hps
  obtain ⟨opening, hopening, rfl⟩ := symbol_eq_ok_iff.1 ho
  obtain ⟨qs, ys, hl, h4⟩ := bind_eq_ok_iff.1 h3
  obtain ⟨_, zs, hc, hp⟩ := bind_eq_ok_iff.1 h4
  obtain ⟨closing, hclosing, rfl⟩ := symbol_eq_ok_iff.1 hc
  obtain ⟨rfl, rfl⟩ := pure_eq_ok_iff.1 hp
  obtain ⟨params, rfl, rfl⟩ : ∃ f : ParametersForm,
      xs = f.tokens ++ closing :: (returns.tokens ++ ws) ∧ f.value = qs := by
    rcases commaList_cases hl with ⟨rfl, rfl⟩ | ⟨q, ys, qs, hq, hm, rfl⟩
    · exact ⟨.none, rfl, rfl⟩
    · obtain ⟨first, rfl, rfl⟩ := exists_parameterForm hq
      obtain ⟨more, last, rfl, rfl⟩ := exists_moreParameters hm
      exact ⟨.some first more last, by simp [ParametersForm.tokens], rfl⟩
  exact ⟨⟨⟨opening, hopening⟩, params, ⟨closing, hclosing⟩, returns⟩, ws,
    by simp [SignatureForm.tokens], h2⟩

/-- A function with a body is written as its signature and a block. -/
theorem exists_methodForm {as : List Attribute} {name : String} {privacy : Privacy}
    {isStatic : Bool} {m : MethodDecl} (h : method n as name privacy isStatic ts = .ok m us) :
    ∃ (s : SignatureForm) (body : Form .block), ts = s.tokens ++ (body.tokens ++ us) ∧
      m = ⟨as, name, privacy, isStatic, s.params.value, s.returns.value, some body.value⟩ ∧
      body.levels ≤ n := by
  obtain ⟨s, vs, rfl, h1⟩ := exists_signatureForm h
  obtain ⟨ss, ws, hb, hp⟩ := bind_eq_ok_iff.1 h1
  obtain ⟨rfl, rfl⟩ := pure_eq_ok_iff.1 hp
  obtain ⟨body, rfl, rfl, hn⟩ := (bodySound_level n).block hb
  exact ⟨s, body, rfl, rfl, hn⟩

theorem exists_foreignForm {as : List Attribute} {m : MethodDecl}
    (h : foreignFunction as ts = .ok m us) :
    ∃ (name : TokenOf .name) (s : SignatureForm) (stop : Mark .semicolon),
      ts = name.1 :: (s.tokens ++ stop.1 :: us) ∧
      m = ⟨as, name.1.text, .foreign, false, s.params.value, s.returns.value, none⟩ := by
  obtain ⟨text, vs, hn, h1⟩ := bind_eq_ok_iff.1 h
  obtain ⟨name, hname, rfl, rfl⟩ := name_eq_ok_iff.1 hn
  obtain ⟨s, ws, rfl, h2⟩ := exists_signatureForm h1
  obtain ⟨_, xs, hs, hp⟩ := bind_eq_ok_iff.1 h2
  obtain ⟨stop, hstop, rfl⟩ := symbol_eq_ok_iff.1 hs
  obtain ⟨rfl, rfl⟩ := pure_eq_ok_iff.1 hp
  exact ⟨⟨name, hname⟩, s, ⟨stop, hstop⟩, rfl, rfl⟩

theorem exists_accessForm {p : Privacy} (h : privacy ts = .ok p us) :
    ∃ f : AccessForm, ts = f.token :: us ∧ f.value = p := by
  obtain ⟨t, rfl, ⟨hk, rfl⟩ | ⟨hk, rfl⟩⟩ := privacy_cases h
  · exact ⟨⟨t, .visible, by rw [hk]; rfl⟩, rfl, rfl⟩
  · exact ⟨⟨t, .hidden, by rw [hk]; rfl⟩, rfl, rfl⟩

/-- What stands between the access to a member and its name. -/
theorem exists_staticForm {b : Bool} (h : take (.keyword .staticKw) ts = .ok b us) :
    ∃ static : Option (TokenOf (.keyword .staticKw)),
      ts = static.toList.map Subtype.val ++ us ∧ static.isSome = b := by
  rcases take_eq_ok_iff.1 h with ⟨rfl, t, hk, rfl⟩ | ⟨rfl, rfl, -⟩
  · exact ⟨some ⟨t, hk⟩, rfl, rfl⟩
  · exact ⟨none, rfl, rfl⟩

theorem itemSound_member (n : Nat) :
    ItemSound (member n) MemberForm.tokens MemberForm.value MemberForm.levels n := by
  intro ts m? us h
  obtain ⟨b, vs, hb, h1⟩ := bind_eq_ok_iff.1 h
  obtain ⟨rfl, -⟩ := isAt_eq_ok_iff.1 hb
  cases b with
  | true =>
    obtain ⟨rfl, rfl⟩ := pure_eq_ok_iff.1 h1
    exact .inl ⟨rfl, rfl⟩
  | false =>
    obtain ⟨as, ws, has, h2⟩ := bind_eq_ok_iff.1 h1
    obtain ⟨attributes, rfl, rfl, hna⟩ := exists_attributeForms has
    obtain ⟨p, xs, hpr, h3⟩ := bind_eq_ok_iff.1 h2
    obtain ⟨access, rfl, rfl⟩ := exists_accessForm hpr
    obtain ⟨isStatic, ys, hst, h4⟩ := bind_eq_ok_iff.1 h3
    obtain ⟨static, rfl, rfl⟩ := exists_staticForm hst
    obtain ⟨text, zs, hn, h5⟩ := bind_eq_ok_iff.1 h4
    obtain ⟨name, hname, rfl, rfl⟩ := name_eq_ok_iff.1 hn
    obtain ⟨b, zs', hat, h6⟩ := bind_eq_ok_iff.1 h5
    obtain ⟨rfl, -⟩ := isAt_eq_ok_iff.1 hat
    -- the parenthesis behind the name tells a method from a field
    cases b with
    | true =>
      obtain ⟨m, ws, hm, hp⟩ := bind_eq_ok_iff.1 h6
      obtain ⟨rfl, rfl⟩ := pure_eq_ok_iff.1 hp
      obtain ⟨s, body, rfl, rfl, hnb⟩ := exists_methodForm hm
      refine .inr ⟨.method attributes access static ⟨name, hname⟩ s body, ?_, rfl,
        Nat.max_le.2 ⟨hna, hnb⟩⟩
      simp [MemberForm.tokens, MemberForm.head]
    | false =>
      obtain ⟨type, ws, ht, h7⟩ := bind_eq_ok_iff.1 h6
      obtain ⟨f, rfl, rfl, -⟩ := exists_typeForm ht
      obtain ⟨_, xs, hs, hp⟩ := bind_eq_ok_iff.1 h7
      obtain ⟨stop, hstop, rfl⟩ := symbol_eq_ok_iff.1 hs
      obtain ⟨rfl, rfl⟩ := pure_eq_ok_iff.1 hp
      refine .inr ⟨.field attributes access static ⟨name, hname⟩ f ⟨stop, hstop⟩, ?_, rfl, hna⟩
      simp [MemberForm.tokens, MemberForm.head]

/-- A class is written as a part of a script, with the attributes in front of it. -/
theorem exists_classForm (attributes : List AttributeForm)
    (hna : levelsOf AttributeForm.levels attributes ≤ n) {c : ClassDecl}
    (h : classDefinition n (attributes.map AttributeForm.value) ts = .ok c us) :
    ∃ f : PartForm, attributes.flatMap AttributeForm.tokens ++ ts = f.tokens ++ us ∧
      f.value = .defining c ∧ f.levels ≤ n := by
  obtain ⟨p, vs, hpr, h1⟩ := bind_eq_ok_iff.1 h
  obtain ⟨access, rfl, rfl⟩ := exists_accessForm hpr
  obtain ⟨mark, ws, hm, h2⟩ := bind_eq_ok_iff.1 h1
  obtain ⟨hmark, rfl⟩ := expect_eq_ok_iff.1 hm
  obtain ⟨text, xs, hn, h3⟩ := bind_eq_ok_iff.1 h2
  obtain ⟨name, hname, rfl, rfl⟩ := name_eq_ok_iff.1 hn
  obtain ⟨_, ys, ho, h4⟩ := bind_eq_ok_iff.1 h3
  obtain ⟨opening, hopening, rfl⟩ := symbol_eq_ok_iff.1 ho
  obtain ⟨ms, zs, hms, h5⟩ := bind_eq_ok_iff.1 h4
  obtain ⟨members, rfl, rfl, hnm, -⟩ := exists_forms (itemAdvances_member n) (itemSound_member n) hms
  obtain ⟨_, ws, hc, hp⟩ := bind_eq_ok_iff.1 h5
  obtain ⟨closing, hclosing, rfl⟩ := symbol_eq_ok_iff.1 hc
  obtain ⟨rfl, rfl⟩ := pure_eq_ok_iff.1 hp
  refine ⟨.defining attributes access ⟨mark, hmark⟩ ⟨name, hname⟩ ⟨opening, hopening⟩ members
    ⟨closing, hclosing⟩, ?_, rfl, Nat.max_le.2 ⟨hna, hnm⟩⟩
  simp [PartForm.tokens]

/-- The parts of a script end with the input, and each of them is written so, by the kind of the
token behind its attributes. -/
theorem part_cases {p? : Option Part} (h : part n ts = .ok p? us) :
    (p? = none ∧ ts = [] ∧ us = []) ∨
    ∃ f : PartForm, ts = f.tokens ++ us ∧ p? = some f.value ∧ f.levels ≤ n := by
  obtain ⟨as, vs, has, h1⟩ := bind_eq_ok_iff.1 h
  obtain ⟨attributes, rfl, rfl, hna⟩ := exists_attributeForms has
  obtain ⟨kind, ws, hkind, h2⟩ := bind_eq_ok_iff.1 h1
  obtain ⟨hk, rfl⟩ := kind?_eq_ok_iff.1 hkind
  split at h2
  · split at h2
    · next hempty =>
      obtain ⟨rfl, rfl⟩ := pure_eq_ok_iff.1 h2
      obtain rfl : attributes = [] := by simpa using hempty
      obtain rfl : vs = [] := by simpa using hk
      exact .inl ⟨rfl, rfl, rfl⟩
    · cases h2
  · split at h2
    · next hempty =>
      obtain rfl : attributes = [] := by simpa using hempty
      obtain ⟨t, ws, rfl, ht⟩ := exists_cons_of_kind hk
      obtain ⟨p, xs, hp, h3⟩ := bind_eq_ok_iff.1 (show (path >>= _) ws = _ from h2)
      obtain ⟨f, rfl, rfl⟩ := exists_pathForm hp
      obtain ⟨_, ys, hs, h4⟩ := bind_eq_ok_iff.1 h3
      obtain ⟨stop, hstop, rfl⟩ := symbol_eq_ok_iff.1 hs
      obtain ⟨rfl, rfl⟩ := pure_eq_ok_iff.1 h4
      refine .inr ⟨.importing ⟨t, ht⟩ f ⟨stop, hstop⟩, ?_, rfl, Nat.zero_le _⟩
      simp [PartForm.tokens]
    · cases h2
  · obtain ⟨t, ws, rfl, ht⟩ := exists_cons_of_kind hk
    obtain ⟨text, xs, hn, h3⟩ := bind_eq_ok_iff.1 (show (Parser.name >>= _) ws = _ from h2)
    obtain ⟨name, hname, rfl, rfl⟩ := name_eq_ok_iff.1 hn
    obtain ⟨m, ys, hm, hp⟩ := bind_eq_ok_iff.1 h3
    obtain ⟨rfl, rfl⟩ := pure_eq_ok_iff.1 hp
    obtain ⟨s, body, rfl, rfl, hnb⟩ := exists_methodForm hm
    refine .inr ⟨.function attributes ⟨t, ht⟩ ⟨name, hname⟩ s body, ?_, rfl,
      Nat.max_le.2 ⟨hna, hnb⟩⟩
    simp [PartForm.tokens]
  · obtain ⟨t, ws, rfl, ht⟩ := exists_cons_of_kind hk
    obtain ⟨m, xs, hm, hp⟩ := bind_eq_ok_iff.1 (show (foreignFunction _ >>= _) ws = _ from h2)
    obtain ⟨rfl, rfl⟩ := pure_eq_ok_iff.1 hp
    obtain ⟨name, s, stop, rfl, rfl⟩ := exists_foreignForm hm
    refine .inr ⟨.foreign attributes ⟨t, ht⟩ name s stop, ?_, rfl, hna⟩
    simp [PartForm.tokens]
  · obtain ⟨c, xs, hc, hp⟩ := bind_eq_ok_iff.1 h2
    obtain ⟨rfl, rfl⟩ := pure_eq_ok_iff.1 hp
    obtain ⟨f, hts, hv, hn⟩ := exists_classForm attributes hna hc
    exact .inr ⟨f, hts, by rw [hv], hn⟩
  · obtain ⟨c, xs, hc, hp⟩ := bind_eq_ok_iff.1 h2
    obtain ⟨rfl, rfl⟩ := pure_eq_ok_iff.1 hp
    obtain ⟨f, hts, hv, hn⟩ := exists_classForm attributes hna hc
    exact .inr ⟨f, hts, by rw [hv], hn⟩
  · cases h2

theorem itemSound_part (n : Nat) :
    ItemSound (part n) PartForm.tokens PartForm.value PartForm.levels n := by
  intro ts p? us h
  obtain ⟨hp, rfl, rfl⟩ | hf := part_cases h
  · exact .inl ⟨hp, rfl⟩
  · exact .inr hf

/-- A script that is read is written so, and no token is left. -/
theorem exists_scriptForm {s : Script} (h : script n ts = .ok s us) :
    us = [] ∧ ∃ f : ScriptForm, f.tokens = ts ∧ f.value = s ∧ f.levels ≤ n := by
  obtain ⟨mark, vs, hm, h1⟩ := bind_eq_ok_iff.1 h
  obtain ⟨hmark, rfl⟩ := expect_eq_ok_iff.1 hm
  obtain ⟨p, ws, hp, h2⟩ := bind_eq_ok_iff.1 h1
  obtain ⟨path, rfl, rfl⟩ := exists_pathForm hp
  obtain ⟨_, xs, hs, h3⟩ := bind_eq_ok_iff.1 h2
  obtain ⟨stop, hstop, rfl⟩ := symbol_eq_ok_iff.1 hs
  obtain ⟨ps, ys, hps, h4⟩ := bind_eq_ok_iff.1 h3
  obtain ⟨rfl, rfl⟩ := pure_eq_ok_iff.1 h4
  obtain ⟨parts, rfl, rfl, hn, hend⟩ := exists_forms (itemAdvances_part n) (itemSound_part n) hps
  obtain ⟨-, rfl, -⟩ | ⟨f, -, hf, -⟩ := part_cases hend
  · exact ⟨rfl, ⟨⟨mark, hmark⟩, path, ⟨stop, hstop⟩, parts⟩, by simp [ScriptForm.tokens], rfl, hn⟩
  · cases hf

end Definitions

theorem eq_ok_of_run {α : Type} {p : Parser α} {a : α} {before after : Session}
    (h : before.run p = (.ok a, after)) : p before.rest = .ok a after.rest := by
  unfold Session.run at h
  rcases hp : p before.rest with ⟨b, rest⟩ | ⟨fault, rest⟩ <;> rw [hp] at h
  · cases h
    rfl
  · dsimp only at h
    split at h <;> cases h

end FrontEnd.Parse
