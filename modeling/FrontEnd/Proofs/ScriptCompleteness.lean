import FrontEnd.Proofs.StatementCompleteness

/-! Scripts are read back from their forms, item by item: path segments, attributes, parameters,
members and parts. Every item is read in front of whatever may stand behind it, so a list of them is
read up to where there is none. -/

namespace FrontEnd.Parse

open FrontEnd.Parser FrontEnd.Grammar FrontEnd.Program

/-- Every form is read as an item, in front of whatever may stand behind it. -/
def ItemReadBack {α F : Type} (item : Parser (Option α)) (tokens : F → List Token) (value : F → α)
    (levels : F → Nat) (n : Nat) (Rest : List Token → Prop) : Prop :=
  ∀ f rest, Rest rest → Yields (levels f ≤ n) (item (tokens f ++ rest)) (.ok (some (value f)) rest)

/-- If every form is read as an item, then a list of them is read, up to where there is none. -/
theorem yields_forms {α F : Type} {item : Parser (Option α)} {tokens : F → List Token}
    {value : F → α} {levels : F → Nat} {n : Nat} {Rest : List Token → Prop}
    (ha : ItemAdvances item) (hi : ItemReadBack item tokens value levels n Rest)
    (hmore : ∀ f rest, Rest (tokens f ++ rest)) {rest us : List Token} (hrest : Rest rest)
    (hend : item rest = .ok none us) (fs : List F) :
    Yields (levelsOf levels fs ≤ n) (many item (fs.flatMap tokens ++ rest))
      (.ok (fs.map value) us) := by
  induction fs with
  | nil => exact .of_eq (Nat.zero_le _) (many_of_none ha hend)
  | cons f fs ih =>
    have hnext : Rest (fs.flatMap tokens ++ rest) := by
      cases fs with
      | nil => exact hrest
      | cons g gs =>
        rw [List.flatMap_cons, List.append_assoc]
        exact hmore g _
    rw [List.flatMap_cons, List.append_assoc]
    refine (((hi f _ hnext).many ha).trans ih.bind).congr ?_
    exact Nat.max_le.symm

section Definitions

variable {n : Nat} {rest : List Token}

theorem itemReadBack_segment :
    ItemReadBack segment (fun s : Mark .period × TokenOf .name => [s.1.1, s.2.1])
      (fun s => s.2.1.text) (fun _ => 0) 0 (fun _ => True) := by
  intro s rest _
  refine .of_eq (Nat.le_refl _) ?_
  rw [segment, List.cons_append, bind_ok (take_of_eq s.1.2), if_pos rfl, List.cons_append,
    bind_ok (name_of_eq s.2.2)]
  rfl

theorem path_of_form (f : PathForm) (h : NotAt (.symbol .period) rest) :
    path (f.tokens ++ rest) = .ok f.value rest := by
  have hend : segment rest = .ok none rest := by
    rw [segment, bind_ok (take_of_notAt h), if_neg (by decide), pure_apply]
  have hmore := yields_forms itemAdvances_segment itemReadBack_segment (fun _ _ => trivial) trivial
    hend f.more
  rw [path_eq, PathForm.tokens, List.cons_append, bind_ok (name_of_eq f.first.2),
    bind_ok (hmore.fit (Nat.le_of_eq (levelsOf_zero _)))]
  rfl

theorem itemReadBack_attribute? (n : Nat) :
    ItemReadBack (attribute? n) AttributeForm.tokens AttributeForm.value AttributeForm.levels n
      (fun _ => True) := by
  intro a rest _
  have hstar : NotAt (.symbol .star) (a.closing.1 :: rest) := notAt_cons.2 (by simp)
  have hargs : Yields (a.levels ≤ n)
      (commaList (.symbol .closeParen) (expr n) (a.args.1.tokens ++ a.closing.1 :: rest))
      (.ok a.args.1.value (a.closing.1 :: rest)) :=
    readBack a.args.1 n a.closing rest ((a.args.1.separated_nil_iff hstar).1 a.args.2)
  simp only [AttributeForm.tokens, List.cons_append, List.append_assoc]
  refine .after (take_of_eq a.mark.2) ?_
  rw [if_pos rfl]
  exact .after (name_of_eq a.name.2) (.after (symbol_of_eq a.opening.2) hargs.bind_symbol)

theorem yields_attributes (fs : List AttributeForm) (h : NotAt (.symbol .atSign) rest) :
    Yields (levelsOf AttributeForm.levels fs ≤ n)
      (attributes n (fs.flatMap AttributeForm.tokens ++ rest))
      (.ok (fs.map AttributeForm.value) rest) := by
  have hend : attribute? n rest = .ok none rest := by
    rw [attribute?, bind_ok (take_of_notAt h), if_neg (by decide), pure_apply]
  rw [attributes_eq]
  exact yields_forms (itemAdvances_attribute? n) (itemReadBack_attribute? n) (fun _ _ => trivial)
    trivial hend fs

theorem attributes_of_notAt (h : NotAt (.symbol .atSign) rest) :
    attributes n rest = .ok [] rest :=
  (yields_attributes [] h).fit (Nat.zero_le _)

theorem parameter_of_form (f : ParameterForm) (h : NotAt (.symbol .star) rest) :
    parameter (f.tokens ++ rest) = .ok f.value rest := by
  rw [parameter, bind_ok (get_apply _), ParameterForm.tokens, List.cons_append,
    bind_ok (name_of_eq f.name.2), bind_ok (typeRef_of_form f.type h), Parameter.of,
    if_neg (by simp [f.solid])]
  rfl

theorem notAt_closeParen_of_parameter (f : ParameterForm) (rest : List Token) :
    NotAt (.symbol .closeParen) (f.tokens ++ rest) := by
  rw [ParameterForm.tokens]
  exact notAt_cons.2 (by simp)

/-- A comma and a parameter, in front of something that is no star of its type. -/
theorem itemReadBack_parameter :
    ItemReadBack (nextItem (.symbol .closeParen) parameter)
      (fun p : Mark .comma × ParameterForm => p.1.1 :: p.2.tokens) (fun p => p.2.value)
      (fun _ => 0) 0 (NotAt (.symbol .star)) := by
  intro p rest h
  refine .of_eq (Nat.le_refl _) ?_
  rw [List.cons_append, nextItem_comma p.1.2 (notAt_closeParen_of_parameter p.2 rest),
    bind_ok (parameter_of_form p.2 h)]
  rfl

/-- What closes a parameter list, with or without a comma in front of it. -/
theorem nextItem_of_last (last : Option (Mark .comma)) (closing : Mark .closeParen)
    (rest : List Token) :
    nextItem (.symbol .closeParen) parameter (last.toList.map Subtype.val ++ closing.1 :: rest) =
      .ok none (closing.1 :: rest) := by
  cases last with
  | none => exact nextItem_of_notAt (notAt_cons.2 (by simp))
  | some mark => exact nextItem_last mark.2 closing.2

theorem commaList_of_parameters (f : ParametersForm) (closing : Mark .closeParen) :
    commaList (.symbol .closeParen) parameter (f.tokens ++ closing.1 :: rest) =
      .ok f.value (closing.1 :: rest) := by
  cases f with
  | none => exact commaList_empty closing.2
  | some first more last =>
    -- A parameter ends in a type, which would take stars behind it along.
    have hlast : NotAt (.symbol .star) (last.toList.map Subtype.val ++ closing.1 :: rest) := by
      cases last with
      | none => exact notAt_cons.2 (by simp)
      | some mark => exact notAt_cons.2 (by simp)
    have hmore : NotAt (.symbol .star) (more.flatMap (fun p => p.1.1 :: p.2.tokens) ++
        (last.toList.map Subtype.val ++ closing.1 :: rest)) := by
      cases more with
      | nil => exact hlast
      | cons p more => exact notAt_cons.2 (by simp)
    have hy := yields_forms (itemAdvances_nextItem _ consumes_parameter.toForward)
      itemReadBack_parameter (fun p rest => notAt_cons.2 (by simp)) hlast
      (nextItem_of_last last closing rest) more
    simp only [ParametersForm.tokens, List.append_assoc]
    rw [commaList_of_notAt (notAt_closeParen_of_parameter first _),
      bind_ok (parameter_of_form first hmore), bind_ok (hy.fit (Nat.le_of_eq (levelsOf_zero _)))]
    rfl

/-- A signature, and then what follows it. -/
theorem bind_signature {α : Type} (f : SignatureForm) (h : NotAt (.symbol .star) rest)
    (next : List Parameter → TypeRef → Parser α) :
    (parameters >>= fun ps => typeRef >>= fun type => next ps type) (f.tokens ++ rest) =
      next f.params.value f.returns.value rest := by
  have hparams : parameters (f.opening.1 :: (f.params.tokens ++ f.closing.1 ::
      (f.returns.tokens ++ rest))) = .ok f.params.value (f.returns.tokens ++ rest) := by
    rw [parameters, bind_ok (symbol_of_eq f.opening.2),
      bind_ok (commaList_of_parameters f.params f.closing), bind_ok (symbol_of_eq f.closing.2)]
    rfl
  simp only [SignatureForm.tokens, List.cons_append, List.append_assoc]
  rw [bind_ok hparams, bind_ok (typeRef_of_form f.returns h)]

theorem notAt_star_of_block (body : Form .block) (rest : List Token) :
    NotAt (.symbol .star) (body.tokens ++ rest) := by
  obtain ⟨t, ts, ht, hk⟩ := exists_first_of_form body
  rw [ht]
  exact notAt_cons.2 (by simp [hk])

/-- A function with a body is read from its signature and its block. -/
theorem yields_method (as : List Attribute) (name : String) (p : Privacy) (isStatic : Bool)
    (s : SignatureForm) (body : Form .block) :
    Yields (body.levels ≤ n) (method n as name p isStatic (s.tokens ++ (body.tokens ++ rest)))
      (.ok ⟨as, name, p, isStatic, s.params.value, s.returns.value, some body.value⟩ rest) := by
  rw [method, bind_signature s (notAt_star_of_block body rest)]
  exact (formReadBack body n rest).bind

theorem foreignFunction_of_form (as : List Attribute) (name : TokenOf .name) (s : SignatureForm)
    (stop : Mark .semicolon) :
    foreignFunction as (name.1 :: (s.tokens ++ stop.1 :: rest)) =
      .ok ⟨as, name.1.text, .foreign, false, s.params.value, s.returns.value, none⟩ rest := by
  have hstar : NotAt (.symbol .star) (stop.1 :: rest) := notAt_cons.2 (by simp)
  rw [foreignFunction, bind_ok (name_of_eq name.2), bind_signature s hstar,
    bind_ok (symbol_of_eq stop.2)]
  rfl

theorem privacy_of_form (f : AccessForm) : privacy (f.token :: rest) = .ok f.value rest := by
  have h := f.spelled
  unfold access? at h
  split at h
  · next hk =>
    rw [privacy, bind_ok (take_of_eq hk), if_pos rfl, pure_apply, Option.some.inj h]
  · next hk =>
    have hnot : NotAt (.keyword .publicKw) (f.token :: rest) := notAt_cons.2 (by simp [hk])
    rw [privacy, bind_ok (take_of_notAt hnot), if_neg (by decide), bind_ok (take_of_eq hk),
      if_pos rfl, pure_apply, Option.some.inj h]
  · cases h

/-- An access is one of two keywords. -/
theorem kind_of_access (f : AccessForm) :
    f.token.kind = .keyword .publicKw ∨ f.token.kind = .keyword .privateKw := by
  have h := f.spelled
  unfold access? at h
  split at h
  · exact .inl ‹_›
  · exact .inr ‹_›
  · cases h

theorem kind_of_access_ne (f : AccessForm) (s : Symbol) : f.token.kind ≠ .symbol s := by
  rcases kind_of_access f with hk | hk <;> simp [hk]

/-- In front of a definition there are attributes or the token that tells what it is. -/
theorem notAt_of_attributes {kind : TokenKind} (fs : List AttributeForm) {t : Token}
    (hmark : kind ≠ .symbol .atSign) (ht : t.kind ≠ kind) :
    NotAt kind (fs.flatMap AttributeForm.tokens ++ t :: rest) := by
  cases fs with
  | nil => exact notAt_cons.2 ht
  | cons f fs =>
    refine notAt_cons.2 ?_
    rw [f.mark.2]
    exact hmark.symm

theorem take_static (static : Option (TokenOf (.keyword .staticKw))) (name : TokenOf .name) :
    take (.keyword .staticKw) (static.toList.map Subtype.val ++ name.1 :: rest) =
      .ok static.isSome (name.1 :: rest) := by
  cases static with
  | none => exact take_of_notAt (notAt_cons.2 (by simp))
  | some mark => exact take_of_eq mark.2

def memberTail (levels : Nat) (attributes : List Attribute) (privacy : Privacy) (isStatic : Bool)
    (name : String) : Parser (Option Member) := do
  if ← isAt (.symbol .openParen) then
    return some (.method (← method levels attributes name privacy isStatic))
  let type ← typeRef
  symbol .semicolon
  return some (.field { attributes, name, privacy, isStatic, type })

theorem member_eq (levels : Nat) : member levels = (do
    if ← isAt (.symbol .closeBrace) then return none
    let attributes ← attributes levels
    let privacy ← privacy
    let isStatic ← take (.keyword .staticKw)
    let name ← name
    memberTail levels attributes privacy isStatic name) := rfl

/-- A member is read as its tail is, behind what stands in front of it. -/
theorem yields_member {P : Prop} {attributes : List AttributeForm} {access : AccessForm}
    {static : Option (TokenOf (.keyword .staticKw))} {name : TokenOf .name} {ts : List Token}
    {m : Member}
    (h : Yields P (memberTail n (attributes.map AttributeForm.value) access.value static.isSome
      name.1.text ts) (.ok (some m) rest)) :
    Yields (levelsOf AttributeForm.levels attributes ≤ n ∧ P)
      (member n (MemberForm.head attributes access static name ++ ts)) (.ok (some m) rest) := by
  have hbrace (us : List Token) :
      NotAt (.symbol .closeBrace) (attributes.flatMap AttributeForm.tokens ++ access.token :: us) :=
    notAt_of_attributes attributes (by decide) (kind_of_access_ne access .closeBrace)
  have hsign (us : List Token) : NotAt (.symbol .atSign) (access.token :: us) :=
    notAt_cons.2 (kind_of_access_ne access .atSign)
  simp only [MemberForm.head, List.cons_append, List.append_assoc, List.nil_append, member_eq]
  refine .after (isAt_of_notAt (hbrace _)) ((yields_attributes attributes (hsign _)).seq ?_)
  exact .after (privacy_of_form access) (.after (take_static static name)
    (.after (name_of_eq name.2) h))

theorem itemReadBack_member (n : Nat) :
    ItemReadBack (member n) MemberForm.tokens MemberForm.value MemberForm.levels n
      (fun _ => True) := by
  intro f rest _
  cases f with
  | method attributes access static name signature body =>
    rw [MemberForm.tokens, List.append_assoc, List.append_assoc]
    refine Yields.congr (yields_member (.after (isAt_of_eq (t := signature.opening.1)
      signature.opening.2) ?_)) Nat.max_le.symm
    exact (yields_method _ _ _ _ signature body).bind
  | field attributes access static name type stop =>
    have hparen : NotAt (.symbol .openParen) (type.tokens ++ stop.1 :: rest) :=
      notAt_cons.2 (by simp)
    have hstar : NotAt (.symbol .star) (stop.1 :: rest) := notAt_cons.2 (by simp)
    have htail (as : List Attribute) (p : Privacy) (isStatic : Bool) (text : String) :
        memberTail n as p isStatic text (type.tokens ++ stop.1 :: rest) =
          .ok (some (.field ⟨as, text, p, isStatic, type.value⟩)) rest := by
      rw [memberTail, bind_ok (isAt_of_notAt hparen), if_neg (by decide),
        bind_ok (typeRef_of_form type hstar), bind_ok (symbol_of_eq stop.2)]
      rfl
    rw [MemberForm.tokens, List.append_assoc, List.append_assoc]
    exact (yields_member (.of_eq trivial (htail _ _ _ _))).congr (iff_of_eq (and_true _))

/-- A class is read from the keyword of its access on. -/
theorem yields_class (as : List Attribute) (access : AccessForm)
    (mark : TokenOf (.keyword .classKw)) (name : TokenOf .name) (opening : Mark .openBrace) (members : List MemberForm)
    (closing : Mark .closeBrace) :
    Yields (levelsOf MemberForm.levels members ≤ n)
      (classDefinition n as (access.token :: mark.1 :: name.1 :: opening.1 ::
        (members.flatMap MemberForm.tokens ++ closing.1 :: rest)))
      (.ok ⟨as, name.1.text, access.value, (members.map MemberForm.value).filterMap Member.field?,
        (members.map MemberForm.value).filterMap Member.method?⟩ rest) := by
  have hend : member n (closing.1 :: rest) = .ok none (closing.1 :: rest) := by
    rw [member_eq, bind_ok (isAt_of_eq closing.2), if_pos rfl, pure_apply]
  have hmembers := yields_forms (itemAdvances_member n) (itemReadBack_member n)
    (fun _ _ => trivial) trivial hend members
  refine .after (privacy_of_form access) (.after (expect_eq_ok_iff.2 ⟨mark.2, rfl⟩) ?_)
  exact .after (name_of_eq name.2) (.after (symbol_of_eq opening.2) hmembers.bind_symbol)

/-- A part is read behind its attributes, by the kind of the token there. -/
theorem itemReadBack_part (n : Nat) :
    ItemReadBack (part n) PartForm.tokens PartForm.value PartForm.levels n (fun _ => True) := by
  intro f rest _
  cases f with
  | importing mark path stop =>
    have hsign : NotAt (.symbol .atSign) (mark.1 :: (path.tokens ++ stop.1 :: rest)) :=
      notAt_cons.2 (by simp)
    have hperiod : NotAt (.symbol .period) (stop.1 :: rest) := notAt_cons.2 (by simp)
    refine .of_eq (Nat.zero_le _) ?_
    simp only [PartForm.tokens, List.cons_append, List.append_assoc, List.nil_append]
    rw [part, bind_ok (attributes_of_notAt hsign), bind_ok (kind?_cons _ _), mark.2]
    exact (bind_ok rfl).trans ((bind_ok (path_of_form path hperiod)).trans
      (bind_ok (symbol_of_eq stop.2)))
  | function attributes mark name signature body =>
    have hsign (us : List Token) : NotAt (.symbol .atSign) (mark.1 :: us) :=
      notAt_cons.2 (by simp)
    simp only [PartForm.tokens, List.cons_append, List.append_assoc]
    refine Yields.congr ((yields_attributes attributes (hsign _)).seq
      (.after (kind?_cons _ _) ?_)) Nat.max_le.symm
    rw [mark.2]
    exact .after rfl (.after (name_of_eq name.2) (yields_method _ _ _ _ signature body).bind)
  | foreign attributes mark name signature stop =>
    have hsign (us : List Token) : NotAt (.symbol .atSign) (mark.1 :: us) :=
      notAt_cons.2 (by simp)
    simp only [PartForm.tokens, List.cons_append, List.append_assoc]
    refine (yields_attributes attributes (hsign _)).before ?_
    rw [bind_ok (kind?_cons _ _), mark.2]
    exact (bind_ok rfl).trans (bind_ok (foreignFunction_of_form _ name signature stop))
  | defining attributes access mark name opening members closing =>
    have hsign (us : List Token) : NotAt (.symbol .atSign) (access.token :: us) :=
      notAt_cons.2 (kind_of_access_ne access .atSign)
    simp only [PartForm.tokens, List.cons_append, List.append_assoc]
    refine Yields.congr ((yields_attributes attributes (hsign _)).seq
      (.after (kind?_cons _ _) ?_)) Nat.max_le.symm
    rcases kind_of_access access with hk | hk <;> rw [hk] <;>
      exact (yields_class _ access mark name opening members closing).bind

/-- A script is read from its form, and stopped at the nesting otherwise. -/
theorem yields_script (f : ScriptForm) (n : Nat) :
    Yields (f.levels ≤ n) (script n f.tokens) (.ok f.value []) := by
  have hend : part n [] = .ok none [] := by
    rw [part, bind_ok (attributes_of_notAt (notAt_nil _))]
    rfl
  have hparts := yields_forms (itemAdvances_part n) (itemReadBack_part n) (fun _ _ => trivial)
    trivial hend f.parts
  have hperiod (us : List Token) : NotAt (.symbol .period) (f.stop.1 :: us) :=
    notAt_cons.2 (by simp)
  rw [List.append_nil] at hparts
  rw [ScriptForm.tokens]
  refine .after (expect_eq_ok_iff.2 ⟨f.mark.2, rfl⟩) (.after (path_of_form f.path (hperiod _)) ?_)
  exact .after (symbol_of_eq f.stop.2) hparts.bind

end Definitions

end FrontEnd.Parse
